import ClosureLang.Proofs.Compile.Nesting
import ClosureLang.Proofs.Machine.Simulation

/-!
# Units compute what their trees mean

The code of a unit begins with the move of the boxed parameters, after which the frame represents
the store in which the unit begins. The body does what the tree means, and the return hands out the
value in position 0. Since a run has at most one end, this works in both directions: the unit
returns exactly the values that the evaluation comes to, and gets stuck exactly if the evaluation
does.

What the tree of a unit means in a frame is `CompiledUnit.meaning`. It is an evaluation of the body
over the store that the frame stands for when the unit is entered (`Store.enter`): arguments are in
their registers, received variables in their cells, and the parameters that are lent are still in
the registers in which they arrived, although their home is a cell. The prologue makes up for the
difference (`prologue_run`, `Moved`).

The only condition is that no parameter of the unit is repeated. With repeated parameters the
registers of two variables may coincide, and then no frame can hold what the store says.

A value is not the whole story. Besides the value, the frame after the return represents the store
after the evaluation, so the world and the cells are what they should be. If the evaluation runs out
of fuel for every amount of it, the unit runs forever, since a run goes on for at least as many
steps as there was fuel.

The runs at the end use two hosts. The first one knows integers and nothing else, so it has no
closures. The second one makes and calls closures by running their code on the machine again, in a
frame of its own over the cells that were handed over; there a parameter is shared with a closure
that changes what a later reading sees.
-/

set_option autoImplicit false

namespace ClosureLang

variable {V W : Type}

/-! ## The beginning of a unit -/

/-- What the move of boxed parameters does: each argument is in its cell, and nothing else is
changed. -/
structure Moved (rows : List (Nat × Nat)) (f f' : Frame V W) : Prop where
  pc : f'.pc = f.pc + rows.length
  registers : f'.registers = f.registers
  world : f'.world = f.world
  others : ∀ {k}, (∀ r, (r, k) ∉ rows) → f'.cells k = f.cells k
  cells : ∀ {r k}, (r, k) ∈ rows → (∀ r', (r', k) ∈ rows → r' = r) → f'.cells k = f.registers r

/-- The moves of the boxed parameters run to their end, one step each. A cell may be the target of
more than one row, if a parameter is repeated; what a cell holds afterwards is said of the cells
that have one row only. -/
theorem prologue_run {c : Code} {host : Host V W} {rows : List (Nat × Nat)} {f : Frame V W}
    (h : c.Holds f.pc (rows.map fun (register, slot) => .storeCell slot register)) :
    ∃ f', c.run host rows.length f = .running f' ∧ Moved rows f f' := by
  induction rows generalizing f with
  | nil => exact ⟨f, rfl, rfl, rfl, rfl, fun _ => rfl, fun h => by simp at h⟩
  | cons row rows ih =>
    obtain ⟨r₀, k₀⟩ := row
    obtain ⟨first, rest⟩ := h.cons
    have step : c.step host f = .running (f.putCell k₀ (f.registers r₀)).next :=
      c.step_of_getElem? first
    obtain ⟨f', ran, moved⟩ : ∃ f', c.run host rows.length _ = .running f' ∧
        Moved rows (f.putCell k₀ (f.registers r₀)).next f' := ih rest
    refine ⟨f', (c.run_succ_of_running step).trans ran, ?_, moved.registers, moved.world, ?_, ?_⟩
    · rw [moved.pc]
      show f.pc + 1 + rows.length = f.pc + (rows.length + 1)
      omega
    · intro k absent
      rw [moved.others fun r hr => absent r (List.mem_cons_of_mem _ hr)]
      have apart : k ≠ k₀ := fun same => absent r₀ (same ▸ List.mem_cons_self)
      simp [Frame.putCell, Frame.next, apart]
    · intro r k mem single
      by_cases later : (r, k) ∈ rows
      · exact moved.cells later fun r' hr' => single r' (List.mem_cons_of_mem _ hr')
      · obtain ⟨rfl, rfl⟩ := Prod.mk.inj ((List.mem_cons.mp mem).resolve_right later)
        have absent : ∀ r', (r', k) ∉ rows := by
          intro r' hr'
          obtain rfl := single r' (List.mem_cons_of_mem _ hr')
          exact later hr'
        rw [moved.others absent]
        simp [Frame.putCell, Frame.next]

/-- After the move of the boxed parameters the frame represents the store in which the unit
begins. -/
theorem represents_enter {s : Scope} (tidy : s.Tidy) (host : Host V W) {f f' : Frame V W}
    (moved : Moved s.boxedParams f f') : Represents s (Store.enter host s f) f' where
  cells {x k} slot := by
    cases register : s.register? x with
    | some r =>
      have mem : (r, k) ∈ s.boxedParams := tidy.boxed.mpr ⟨x, register, slot⟩
      have single : ∀ r', (r', k) ∈ s.boxedParams → r' = r := by
        intro r' hr'
        obtain ⟨y, register', slot'⟩ := tidy.boxed.mp hr'
        obtain rfl := NameTable.index?_inj slot slot'
        exact Option.some.inj (register'.symm.trans register)
      simp [Store.enter, register, moved.cells mem single]
    | none =>
      have absent : ∀ r, (r, k) ∉ s.boxedParams := by
        intro r hr
        obtain ⟨y, register', slot'⟩ := tidy.boxed.mp hr
        obtain rfl := NameTable.index?_inj slot slot'
        rw [register] at register'
        cases register'
      simp [Store.enter, register, slot, moved.others absent]
  registers {x r} slot register := by simp [Store.enter, register, moved.registers]
  last d := by simp [Store.enter, moved.registers]
  world := moved.world

/-! ## Whole units -/

namespace CompiledUnit

/-- What the tree of a unit means in a frame in which the unit begins. -/
def meaning (u : CompiledUnit) (host : Host V W) (fuel : Nat) (f : Frame V W) :
    Except Stop (V × Store V W) :=
  evaluate host u.scope fuel u.body 0 (Store.enter host u.scope f)

variable {u : CompiledUnit}

/-- In a unit with distinct parameters no two variables have the same home, so what the scope says
of each can be held at the same time. -/
theorem Consistent.tidy (h : u.Consistent) (distinct : u.params.Nodup) : u.scope.Tidy := by
  rw [h.scope]
  exact Usage.tidy_close distinct

/-- The body of a unit of a compiled program can be compiled in the scope of the unit: it was
resolved in it, and the emission came to an end. -/
theorem Consistent.ready (h : u.Consistent) : u.body.Ready u.scope := by
  obtain ⟨table, shape⟩ := h.shape
  exact ⟨h.supported, h.resolved.bound, fun l hl => (shape.makeable l hl).supplied⟩

/-- A unit starts with the moves of its boxed parameters, then comes the code of its tree, and then
the return. -/
theorem Consistent.placed (h : u.Consistent) : ∃ table,
    u.code.Holds 0 (Lambda.prologue u.scope) ∧
      (u.body.layout u.scope).Placed u.code table u.scope.numLocals
        (Lambda.prologue u.scope).length 0 ∧
      u.code.instructions[(Lambda.prologue u.scope).length + (u.body.layout u.scope).size]? =
        some (.ret u.scope.numLocals) := by
  obtain ⟨table, shape⟩ := h.shape
  have sized := Node.layout_sized h.ready
  have whole : u.code.Holds 0 u.code.instructions.toList := by
    intro k i hk
    rw [Nat.zero_add, ← Array.getElem?_toList, hk]
  rw [shape.instructions, List.append_assoc] at whole
  obtain ⟨prologue, rest⟩ := whole.append
  obtain ⟨body, last⟩ := rest.append
  rw [Nat.zero_add] at body last
  refine ⟨table, prologue, ⟨body, fun text htext => ?_, fun k l hl => ?_⟩, ?_⟩
  · obtain ⟨i, hi⟩ := NameTable.exists_index? (shape.texts text htext)
    rw [shape.literals, NameTable.number, hi]
    exact NameTable.index?_eq_some_iff.mp hi
  · rw [Node.lambdas_layout] at hl
    rw [shape.units, Nat.zero_add, List.getElem?_map, hl]
    rfl
  · have ret := last.cons.1
    rwa [sized] at ret

/-- The body of a unit goes where its tree goes, and there the unit returns. -/
theorem Consistent.follows (h : u.Consistent) (distinct : u.params.Nodup) (host : Host V W)
    (fuel : Nat) {f : Frame V W} (begin : f.pc = 0) :
    ∃ stop, Follows u.code host u.scope fuel stop f (u.meaning host fuel f) ∧
      u.code.instructions[stop]? = some (.ret u.scope.numLocals) := by
  obtain ⟨_, shape⟩ := h.shape
  obtain ⟨table, prologue, placed, ret⟩ := h.placed
  have tidy := h.tidy distinct
  rw [← begin] at prologue
  obtain ⟨f', ran, moved⟩ :
      ∃ f', u.code.run host _ f = .running f' ∧ Moved u.scope.boxedParams f f' :=
    prologue_run prologue
  refine ⟨(Lambda.prologue u.scope).length + (u.body.layout u.scope).size, ?_, ret⟩
  have pc : f'.pc = (Lambda.prologue u.scope).length := by
    rw [moved.pc, begin, Lambda.prologue, List.length_map, Nat.zero_add]
  have rep := represents_enter tidy host moved
  refine Follows.weaken (Follows.after ran ?_) (Nat.le_add_right fuel _)
  exact node_follows (d := 0) ⟨tidy, shape.numRefs⟩ h.ready placed pc rep

/-- A unit whose tree comes to a value returns it. -/
theorem Consistent.returns (h : u.Consistent) (distinct : u.params.Nodup) {host : Host V W}
    {fuel : Nat} {f : Frame V W} (begin : f.pc = 0) {v : V} {st : Store V W}
    (value : u.meaning host fuel f = .ok (v, st)) :
    ∃ n f', u.code.run host n f = .returned v f' ∧ Represents u.scope st f' := by
  obtain ⟨stop, follows, ret⟩ := h.follows distinct host fuel begin
  rw [value] at follows
  obtain ⟨n, f', ran, pc, rep⟩ := follows
  have result : f'.registers u.scope.numLocals = v :=
    (rep.last 0).trans (evaluate_yields host u.scope fuel u.body value).value
  have step : u.code.step host f' = .returned v f' := by
    rw [u.code.step_of_getElem? (pc ▸ ret), Code.execute, result]
  exact ⟨n + 1, f', (u.code.run_add ran).trans (by simp only [Code.run, step]), rep⟩

end CompiledUnit

/-- **Units compute what their trees mean.** A unit of a compiled program whose parameters are
distinct, started at its beginning in any frame, returns the value that its tree comes to, with
every variable, the cells and the world as the evaluation leaves them; it returns nothing else, and
it gets stuck exactly if the evaluation does. So it runs forever exactly if no fuel is enough. -/
theorem unit_computes_meaning {program : Node} {u : CompiledUnit} {around : List CompiledUnit}
    (h : Nesting program (u :: around)) (distinct : u.params.Nodup) (host : Host V W)
    (f : Frame V W) (begin : f.pc = 0) :
    (∀ fuel v st, u.meaning host fuel f = .ok (v, st) →
      ∃ n f', u.code.run host n f = .returned v f' ∧ Represents u.scope st f') ∧
    (∀ n v f', u.code.run host n f = .returned v f' →
      ∃ fuel st, u.meaning host fuel f = .ok (v, st) ∧ Represents u.scope st f') ∧
    ((∃ n, u.code.run host n f = .stuck) ↔ ∃ fuel, u.meaning host fuel f = .error .stuck) := by
  have consistent := h.consistent u (by simp)
  refine ⟨fun fuel v st => consistent.returns distinct begin, fun n v f' returned => ?_,
    fun ⟨n, stuck⟩ => ?_, fun ⟨fuel, stuck⟩ => ?_⟩
  · -- with more fuel than the run has steps, the evaluation is not cut short
    refine ⟨n + 1, ?_⟩
    obtain ⟨stop, follows, -⟩ := consistent.follows distinct host (n + 1) begin
    cases outcome : u.meaning host (n + 1) f with
    | ok result =>
      obtain ⟨v', st⟩ := result
      obtain ⟨m, f'', returned', rep⟩ := consistent.returns distinct begin outcome
      -- a run has one end, so this return is the one that was given
      have same := u.code.run_end_unique returned returned' (by simp) (by simp)
      cases same
      exact ⟨st, rfl, rep⟩
    | error why =>
      rw [outcome] at follows
      cases why with
      | stuck =>
        obtain ⟨m, stuck⟩ := follows
        cases u.code.run_end_unique returned stuck (by simp) (by simp)
      | outOfFuel =>
        obtain ⟨m, f'', enough, running⟩ := follows
        have ended := u.code.run_ended returned (by simp) (Nat.le_of_succ_le enough)
        cases running.symm.trans ended
  · refine ⟨n + 1, ?_⟩
    obtain ⟨stop, follows, -⟩ := consistent.follows distinct host (n + 1) begin
    cases outcome : u.meaning host (n + 1) f with
    | ok result =>
      obtain ⟨v, st⟩ := result
      obtain ⟨m, f'', returned, -⟩ := consistent.returns distinct begin outcome
      cases u.code.run_end_unique stuck returned (by simp) (by simp)
    | error why =>
      rw [outcome] at follows
      cases why with
      | stuck => rfl
      | outOfFuel =>
        obtain ⟨m, f'', enough, running⟩ := follows
        have ended := u.code.run_ended stuck (by simp) (Nat.le_of_succ_le enough)
        cases running.symm.trans ended
  · obtain ⟨stop, follows, -⟩ := consistent.follows distinct host fuel begin
    rw [stuck] at follows
    exact follows

/-! ## Runs -/

/-- A host with integers as its only values: `+` and `--` do what they say, and nothing can be
called. -/
def integerHost : Host Int Unit where
  integer value := value
  boolean value := if value then 1 else 0
  nil := 0
  string _ := 0
  atom _ := 0
  holds v := v != 0
  send a method args _ world :=
    some ⟨if method = "--" then a - 1 else args.foldl (· + ·) a, fun _ => none, world⟩
  call _ _ _ _ := none
  closure _ _ _ world := (0, world)

/-- `i = 3; while i { i-- }; i + 5`. -/
def countdownProgram : Node :=
  .block [.assign "i" (.integer 3) none,
    .loop (.var "i" none) (.block [.step .decrement (.var "i" none)]),
    .operator "+" (.var "i" none) (.integer 5)]

/-- The closures that were made so far, each with its code and the cells that were handed to it. A
closure is known by its number. -/
abbrev Closures : Type := List (Code × List Nat)

/-- Runs the closure with the number `callee`, a hundred steps of it at most, in a frame of its own
over its cells, and gives back what it left in them. -/
def Closures.call (host : Host Int Closures) (callee : Int) (args contents : List Int)
    (closures : Closures) : Option (Answer Int Closures) :=
  match closures[callee.toNat]? with
  | none => none
  | some (code, slots) =>
    let cells k := (slots[k]?.bind (contents[·]?)).getD 0
    match code.run host 100 ⟨0, (args.getD · 0), cells, closures⟩ with
    | .returned value f => some ⟨value, fun slot => (slots.idxOf? slot).map f.cells, f.world⟩
    | _ => none

/-- The host of integers in which closures are made and called, with calls inside calls to at most
the given depth. A closure is called from the frame that made it. -/
def closureHost : Nat → Host Int Closures
  | 0 => {
    integer := id
    boolean := fun value => if value then 1 else 0
    nil := 0
    string := fun _ => 0
    atom := fun _ => 0
    holds := (· != 0)
    send := fun a _ args _ closures => some ⟨args.foldl (· + ·) a, fun _ => none, closures⟩
    call := fun _ _ _ _ => none
    closure := fun code _ slots closures => (closures.length, closures ++ [(code, slots)]) }
  | depth + 1 => { closureHost depth with call := Closures.call (closureHost depth) }

/-- `g = x => { f = n => x + n; x = f(2); x.plus(f(1), 10) }; g(3)`. -/
def sharingProgram : Node :=
  .block [
    .assign "g" (.lambda ["x"] (.block [
      .assign "f" (.lambda ["n"] (.operator "+" (.var "x" none) (.var "n" none)) none) none,
      .assign "x" (.invoke "f" [.integer 2] none) none,
      .call "plus" (.var "x" none) [.invoke "f" [.integer 1] none, .integer 10]]) none) none,
    .invoke "g" [.integer 3] none]

/-- The code of `g`: the argument moves to a cell, over which `f` is made, and every use of `x` goes
through that cell. -/
def sharingCode : Code :=
  ⟨5, 1, #[.storeCell 0 0, .createLambda 2 1 1 0, .readCell 0 0, .storeRegister 1 2,
    .readRegister 2 1, .store 3 (.int 2), .invoke 2 2 1, .storeCell 0 2, .readCell 2 0,
    .readRegister 3 1, .store 4 (.int 1), .invoke 3 3 1, .store 4 (.int 10), .callMethod 2 2 2 0,
    .ret 2], ["plus"],
    [⟨3, 1, #[.readCell 1 0, .readRegister 2 0, .callOperator 1 1 0, .ret 1], ["+"], []⟩]⟩

/-- `g` as it is resolved. -/
def sharingLambda : Lambda := sharingProgram.resolveProgram.1.lambdas.head (by decide +kernel)

/-- The unit of the whole program. -/
def sharingOutermost : CompiledUnit where
  params := []
  scope := Scope.ofUnit [] sharingProgram
  body := sharingProgram.resolveProgram.1
  code := ⟨3, 0, #[.createLambda 1 1 0 0, .storeRegister 0 1, .readRegister 1 0, .store 2 (.int 3),
    .invoke 1 1 1, .ret 1], [], [sharingCode]⟩
  index := 0

/-- The unit of `g`. -/
def sharingUnit : CompiledUnit :=
  ⟨sharingLambda.params, sharingLambda.ownScope, sharingLambda.body, sharingCode, 0⟩

/-- The whole program of the shared variable is compiled to the listed unit. -/
theorem nesting_outermost : Nesting sharingProgram [sharingOutermost] :=
  .of_outcomes (by decide +kernel) (by decide +kernel)

/-- The unit of `g` stands in it. -/
theorem nesting_sharingUnit : Nesting sharingProgram [sharingUnit, sharingOutermost] := by
  have first : sharingOutermost.body.lambdas[0]? = some sharingLambda := by
    rw [← List.head?_eq_getElem?]
    exact List.head?_eq_some_head _
  exact .inside nesting_outermost first (by decide +kernel) rfl

/-- A value that an evaluation comes to is found with the part of the store that is of interest:
stores are functions and cannot be compared as a whole. -/
theorem exists_meaning {α : Type} {u : CompiledUnit} {host : Host V W} {fuel : Nat} {f : Frame V W}
    {v : V} {a : α} {part : Store V W → α}
    (h : (u.meaning host fuel f).map (fun r => (r.1, part r.2)) = .ok (v, a)) :
    ∃ st, u.meaning host fuel f = .ok (v, st) ∧ part st = a := by
  cases outcome : u.meaning host fuel f with
  | error why =>
    rw [outcome] at h
    cases h
  | ok result =>
    rw [outcome] at h
    cases h
    exact ⟨result.2, rfl, rfl⟩

/-- Three runs: a loop with a step and a send; `g` called with 3, which moves its parameter to a
cell, makes a closure over it, calls that closure before and after it assigns the parameter, and
leaves 5 in the cell; and the program that makes and calls `g`, with two closures in the end. -/
theorem countdown_and_sharing_return :
    (∃ u, Nesting countdownProgram [u] ∧
      ∃ n f', u.code.run integerHost n ⟨0, fun _ => 0, fun _ => 0, ()⟩ = .returned 5 f') ∧
    (Nesting sharingProgram [sharingUnit, sharingOutermost] ∧
      sharingUnit.params = ["x"] ∧ sharingUnit.scope.boxedParams = [(0, 0)] ∧
      ∃ n f', sharingCode.run (closureHost 1) n ⟨0, fun _ => 3, fun _ => 0, []⟩ =
        .returned 21 f' ∧ f'.cells 0 = 5) ∧
    ∃ n f', sharingOutermost.code.run (closureHost 2) n ⟨0, fun _ => 0, fun _ => 0, []⟩ =
      .returned 21 f' ∧ f'.world.length = 2 := by
  refine ⟨?_, ⟨nesting_sharingUnit, by decide +kernel, by decide +kernel, ?_⟩, ?_⟩
  · have nesting : Nesting countdownProgram [_] := .outermost rfl rfl
    have correct := unit_computes_meaning nesting List.nodup_nil integerHost
      ⟨0, fun _ => 0, fun _ => 0, ()⟩ rfl
    obtain ⟨n, f', returned, -⟩ := correct.1 4 5 _ rfl
    exact ⟨_, nesting, n, f', returned⟩
  · have correct := unit_computes_meaning nesting_sharingUnit (by decide +kernel) (closureHost 1)
      ⟨0, fun _ => 3, fun _ => 0, []⟩ rfl
    obtain ⟨st, value, x⟩ : ∃ st, sharingUnit.meaning (closureHost 1) 1
        ⟨0, fun _ => 3, fun _ => 0, []⟩ = .ok (21, st) ∧ st.vars "x" = 5 :=
      exists_meaning (by decide +kernel)
    obtain ⟨n, f', returned, rep⟩ := correct.1 1 21 st value
    exact ⟨n, f', returned, (rep.cells (x := "x") (by decide +kernel)).trans x⟩
  · have correct := unit_computes_meaning nesting_outermost List.nodup_nil (closureHost 2)
      ⟨0, fun _ => 0, fun _ => 0, []⟩ rfl
    obtain ⟨st, value, made⟩ : ∃ st, sharingOutermost.meaning (closureHost 2) 1
        ⟨0, fun _ => 0, fun _ => 0, []⟩ = .ok (21, st) ∧ st.world.length = 2 :=
      exists_meaning (by decide +kernel)
    obtain ⟨n, f', returned, rep⟩ := correct.1 1 21 st value
    exact ⟨n, f', returned, (congrArg List.length rep.world).trans made⟩

end ClosureLang
