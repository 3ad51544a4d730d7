import ClosureLang.Proofs.Machine.Placement
import ClosureLang.Proofs.Machine.Positions
import ClosureLang.Proofs.Scope.Names

/-!
# Code does what its tree means

On the one side there is a tree, evaluated from left to right over one variable for each name, with
the values that were last yielded in each position. On the other side there is a machine with a
program counter, registers and cells. This module shows that the code of a tree takes the machine
where the evaluation of the tree goes, for every tree that can be compiled and wherever its code
stands in a unit.

## The relation

`Represents` is what holds between a store and a frame at the beginning and at the end of every
piece of code. Each variable has one home: its cell, if it has one, and its register otherwise. The
home holds the value of the variable. The registers above the variables hold what was last yielded,
one register for each position. The worlds are the same. Registers of variables that have a cell are
not mentioned; after the prologue no code reads them.

That every variable has a home of its own is a property of the scope (`Scope.Tidy`). It is needed as
soon as something is assigned: putting a value in the home of one variable must not touch another
one (`assignRegister`, `assignCell`). It fails for units whose parameters are not distinct, so the
statements ask for it through `Fits`.

## Going the same way

`Follows` says where a run from a frame goes, depending on what comes of the evaluation.

- If it comes to a value, the run comes to the end of the piece, with a frame that represents the
  store after it. The value is not mentioned, because it is the one in the position of the tree and
  the frame has it there.
- If it gets stuck, the run gets to a frame in which the machine has no next step.
- If it runs out of fuel, the run goes on for at least as many steps as there was fuel. A run that
  could do that for every amount of fuel never ends.

The third case is what makes this a statement about loops that go on forever, too. The number of
steps is only a lower bound, and it is counted at one place: a round of a loop takes at least one
step, namely the jump back.

## The parts

The proof needs little of each instruction. `Follows.bind` puts two evaluations one after the other,
`Follows.yield` and `Follows.reply` are for instructions that put a value in the position of the
tree, at once or when an answer is there. With these, every instruction has a lemma of its own:
`read_follows`, `assign_follows`, `step_follows`, `closure_follows`, `send_follows`, `call_follows`,
and `branch_follows` for conditions and loops alike. A condition whose value does not hold leaves it
in place as the value of the whole, and so does the loop that ends; this is why the branch reads the
position and does not take anything from it.

What a send or a call does to the world and to the cells is up to the host, which is a parameter. It
sees the contents of the cells, so the two sides have to show it the same (`Represents.contents`);
it may assign cells, and then both sides take over what it assigned (`Represents.receive`).

The trees themselves are a mutual recursion over a tree, the trees of a block and the arguments of a
call. The position is a parameter throughout: an operand stands one position further than what it is
an operand of, in the same way as its code is raised by one register. Loops are left out of the
recursion and done before it, by induction on the fuel (`loop_follows`), given that condition and
body follow.

## What is not said here

The statements begin behind the prologue, with a frame that represents a store. That the prologue
leads to such a frame, and what the return at the end of a unit hands out, is shown for whole units
in the next module. Values of closures are not compared either: a closure is made by the host out of
the code of its unit, and what happens when it is called is again up to the host.
-/

set_option autoImplicit false

namespace ClosureLang

variable {V W : Type}

/-- The frame holds what the store says. -/
structure Represents (s : Scope) (st : Store V W) (f : Frame V W) : Prop where
  cells : ∀ {x : String} {k : Nat}, s.slot? x = some k → f.cells k = st.vars x
  registers : ∀ {x : String} {r : Nat}, s.slot? x = none → s.register? x = some r →
    f.registers r = st.vars x
  last : ∀ d, f.registers (s.numLocals + d) = st.last d
  world : f.world = st.world

namespace Represents

variable {s : Scope} {st : Store V W} {f : Frame V W}

/-- Moving on in the code changes nothing. -/
theorem move (h : Represents s st f) (pc : Nat) : Represents s st { f with pc } :=
  ⟨h.cells, h.registers, h.last, h.world⟩

/-- When a value is yielded in a position, the frame that has it in the register of that position
represents the store after. -/
theorem yield (tidy : s.Tidy) (h : Represents s st f) (d : Nat) (v : V) :
    Represents s { st with last := fun k => if k = d then v else st.last k }
      (f.put (s.numLocals + d) v).next where
  cells := h.cells
  registers {x r} slot register := by
    have below := tidy.register_lt register
    have apart : r ≠ s.numLocals + d := by omega
    simp [Frame.put, Frame.next, apart, h.registers slot register]
  last k := by simp [Frame.put, Frame.next, h.last]
  world := h.world

/-- Assigning a variable that has no cell is putting its value in its register. No other variable is
there, because the homes are distinct. -/
theorem assignRegister (tidy : s.Tidy) (h : Represents s st f) {x : String} {r : Nat}
    (slot : s.slot? x = none) (register : s.register? x = some r) (v : V) :
    Represents s (st.assign x v) (f.put r v).next where
  cells {y k} slot' := by
    have apart : y ≠ x := by
      rintro rfl
      rw [slot] at slot'
      cases slot'
    simp [Store.assign, Frame.put, Frame.next, apart, h.cells slot']
  registers {y r'} slot' register' := by
    by_cases same : y = x
    · subst same
      obtain rfl := Option.some.inj (register.symm.trans register')
      simp [Store.assign, Frame.put, Frame.next]
    · have apart : r' ≠ r := fun e => same (tidy.register_inj register' (e ▸ register))
      simp [Store.assign, Frame.put, Frame.next, apart, same, h.registers slot' register']
  last k := by
    have below := tidy.register_lt register
    have apart : s.numLocals + k ≠ r := by omega
    simp [Store.assign, Frame.put, Frame.next, apart, h.last]
  world := h.world

/-- Assigning a variable that has a cell is putting its value in the cell. -/
theorem assignCell (h : Represents s st f) {x : String} {k : Nat} (slot : s.slot? x = some k)
    (v : V) : Represents s (st.assign x v) (f.putCell k v).next where
  cells {y k'} slot' := by
    by_cases same : y = x
    · subst same
      obtain rfl := Option.some.inj (slot.symm.trans slot')
      simp [Store.assign, Frame.putCell, Frame.next]
    · have apart : k' ≠ k := fun e => same (NameTable.index?_inj slot' (e ▸ slot))
      simp [Store.assign, Frame.putCell, Frame.next, apart, same, h.cells slot']
  registers {y r} slot' register := by
    have apart : y ≠ x := by
      rintro rfl
      rw [slot] at slot'
      cases slot'
    simp [Store.assign, Frame.putCell, Frame.next, apart, h.registers slot' register]
  last := h.last
  world := h.world

/-- Cells may be assigned by whatever gave an answer. -/
theorem receive (h : Represents s st f) (a : Answer V W) :
    Represents s (st.receive s a)
      { f with cells := fun k => (a.written k).getD (f.cells k), world := a.world } where
  cells {x k} slot := by simp [Store.receive, slot, h.cells slot]
  registers {x r} slot register := by simp [Store.receive, slot, h.registers slot register]
  last := h.last
  world := rfl

/-- Sends and calls see the same cells. -/
theorem contents (h : Represents s st f) : f.contents s.numRefs = st.contents s := by
  have sizes : (f.contents s.numRefs).length = (st.contents s).length := by
    simp [Frame.contents, Store.contents, Scope.numRefs, NameTable.size]
  refine List.ext_getElem sizes ?_
  intro k bound bound'
  have inside : k < s.refs.entries.length := by simpa [Store.contents] using bound'
  have slot : s.slot? s.refs.entries[k] = some k :=
    NameTable.index?_eq_some_iff.mpr (List.getElem?_eq_getElem inside)
  simp [Frame.contents, Store.contents, h.cells slot]

end Represents

/-- Running on from `f` goes where the evaluation goes. -/
def Follows (c : Code) (host : Host V W) (s : Scope) (least stop : Nat) (f : Frame V W)
    {α : Type} : Except Stop (α × Store V W) → Prop
  | .ok (_, st) => ∃ n f', c.run host n f = .running f' ∧ f'.pc = stop ∧ Represents s st f'
  | .error .stuck => ∃ n, c.run host n f = .stuck
  | .error .outOfFuel => ∃ n f', least ≤ n ∧ c.run host n f = .running f'

namespace Follows

variable {c : Code} {host : Host V W} {s : Scope} {least stop mid : Nat} {f f' : Frame V W}
  {st : Store V W} {α β : Type}

/-- The evaluation is over, and the frame is where it should be. -/
theorem here {a : α} (pc : f.pc = stop) (rep : Represents s st f) :
    Follows c host s least stop f (.ok (a, st)) :=
  ⟨0, f, rfl, pc, rep⟩

/-- If the machine has no next step, the evaluation has to be stuck as well. -/
theorem stuck (step : c.step host f = .stuck) {x : Except Stop (α × Store V W)}
    (outcome : x = .error .stuck) : Follows c host s least stop f x := by
  subst outcome
  exact ⟨1, by simp only [Code.run, step]⟩

/-- The number of steps that is promised when the fuel runs out may be lowered. -/
theorem weaken {least' : Nat} {x : Except Stop (α × Store V W)}
    (h : Follows c host s least stop f x) (le : least' ≤ least) :
    Follows c host s least' stop f x := by
  match x, h with
  | .ok (_, st), h => exact h
  | .error .stuck, h => exact h
  | .error .outOfFuel, ⟨n, f', enough, hn⟩ => exact ⟨n, f', Nat.le_trans le enough, hn⟩

/-- If the run comes to a frame from which it follows, it follows from where it came, with these
steps on top. -/
theorem after {n : Nat} {x : Except Stop (α × Store V W)} (run : c.run host n f = .running f')
    (h : Follows c host s least stop f' x) : Follows c host s (least + n) stop f x := by
  match x, h with
  | .ok (_, st), ⟨m, f'', hm, pc, rep⟩ => exact ⟨n + m, f'', (c.run_add run).trans hm, pc, rep⟩
  | .error .stuck, ⟨m, hm⟩ => exact ⟨n + m, (c.run_add run).trans hm⟩
  | .error .outOfFuel, ⟨m, f'', enough, hm⟩ =>
    exact ⟨n + m, f'', by omega, (c.run_add run).trans hm⟩

/-- The same for a single step. -/
theorem afterStep {x : Except Stop (α × Store V W)} (step : c.step host f = .running f')
    (h : Follows c host s least stop f' x) : Follows c host s (least + 1) stop f x :=
  h.after (by simp only [Code.run, step])

/-- One evaluation after another. -/
theorem bind {x : Except Stop (α × Store V W)} {k : α × Store V W → Except Stop (β × Store V W)}
    (h : Follows c host s least mid f x)
    (rest : ∀ a st f', x = .ok (a, st) → f'.pc = mid → Represents s st f' →
      Follows c host s least stop f' (k (a, st))) :
    Follows c host s least stop f (x >>= k) := by
  match x, h with
  | .ok (a, st), ⟨m, f', hm, pc, rep⟩ =>
    exact ((rest a st f' rfl pc rep).after hm).weaken (Nat.le_add_right ..)
  | .error .stuck, h => exact h
  | .error .outOfFuel, h => exact h

/-- An instruction that puts the value of the tree in its position. -/
theorem yield (tidy : s.Tidy) (rep : Represents s st f) {d : Nat} {v : V}
    (step : c.step host f = .running (f.put (s.numLocals + d) v).next) :
    Follows c host s least (f.pc + 1) f (st.yield d v) :=
  ((here rfl (rep.yield tidy d v)).afterStep step).weaken (Nat.le_succ _)

/-- An instruction that waits for an answer and puts its value in its position. -/
theorem reply (tidy : s.Tidy) (rep : Represents s st f) {d : Nat} {answer : Option (Answer V W)}
    (step : c.step host f = f.resume (s.numLocals + d) answer) :
    Follows c host s least (f.pc + 1) f (do
      let (v, st) ← answered s st answer
      st.yield d v) := by
  cases answer with
  | none => exact .stuck step rfl
  | some a =>
    exact ((here rfl ((rep.receive a).yield tidy d a.value)).afterStep step).weaken (Nat.le_succ _)

end Follows

/-- The code belongs to a unit with scope `s`. -/
structure Fits (c : Code) (s : Scope) : Prop where
  tidy : s.Tidy
  numRefs : c.numRefs = s.numRefs

section instructions

variable {c : Code} {host : Host V W} {s : Scope} {least : Nat} {f : Frame V W} {st : Store V W}
  {d : Nat}

/-- In a frame that represents the store, a send shows the host what the evaluation shows it: the
values in the cells are those of the variables. -/
theorem send_eq (fits : Fits c s) (rep : Represents s st f) {dst recv argc literal : Nat}
    {method : String} (text : c.literals[literal]? = some method) :
    c.send host f dst recv argc literal =
      f.resume dst (host.send (f.registers recv) method (f.arguments (recv + 1) argc)
        (st.contents s) st.world) := by
  rw [Code.send, text, fits.numRefs, rep.contents, rep.world]

/-- The arguments of a call are taken from the registers after the receiver, which hold what was
last yielded in the positions after it. -/
theorem Represents.arguments (rep : Represents s st f) (argc : Nat) :
    f.arguments (s.numLocals + d + 1) argc =
      (List.range argc).map fun i => st.last (d + 1 + i) := by
  refine List.map_congr_left fun i _ => ?_
  rw [← rep.last]
  exact congrArg f.registers (by omega)

/-- A send to the value in position `d` with the values in the positions after it. -/
theorem send_follows (fits : Fits c s) (rep : Represents s st f) {argc literal : Nat}
    {method : String} {a : V} {vs : List V} (text : c.literals[literal]? = some method)
    (receiver : st.last d = a) (args : vs = (List.range argc).map fun i => st.last (d + 1 + i))
    (step : c.step host f =
      c.send host f (s.numLocals + d) (s.numLocals + d) argc literal) :
    Follows c host s least (f.pc + 1) f (do
      let (v, st) ← answered s st (host.send a method vs (st.contents s) st.world)
      st.yield d v) := by
  refine Follows.reply fits.tidy rep ?_
  rw [step, send_eq fits rep text, rep.last, rep.arguments, receiver, args]

/-- A call of the value in position `d` with the values in the positions after it. -/
theorem call_follows (fits : Fits c s) (rep : Represents s st f) {argc : Nat} {a : V} {vs : List V}
    (callee : st.last d = a) (args : vs = (List.range argc).map fun i => st.last (d + 1 + i))
    (step : c.step host f = c.execute host f
      (.invoke (s.numLocals + d) (s.numLocals + d) argc)) :
    Follows c host s least (f.pc + 1) f (do
      let (v, st) ← answered s st (host.call a vs (st.contents s) st.world)
      st.yield d v) := by
  refine Follows.reply fits.tidy rep ?_
  rw [step, Code.execute, rep.last, rep.arguments, callee, args, fits.numRefs, rep.contents,
    rep.world]

/-- The reading of a variable. -/
theorem read_follows (fits : Fits c s) {table : NameTable} {binding : Option Binding}
    {name : String} {start unit : Nat}
    (placed : (Piece.read binding).Placed c table (s.numLocals + d) start unit)
    (bound : binding = s.binding? name ∧ binding ≠ none) (pc : f.pc = start)
    (rep : Represents s st f) :
    Follows c host s least (start + (Piece.read binding).size) f (st.yield d (st.vars name)) := by
  obtain ⟨rfl, some⟩ := bound
  subst pc
  cases found : s.binding? name with
  | none => exact absurd found some
  | some b =>
    rw [found] at placed
    cases b with
    | register r =>
      obtain ⟨slot, register⟩ := s.register?_of_binding found
      refine Follows.yield fits.tidy rep ?_
      rw [c.step_of_getElem? placed.instruction, Code.execute, rep.registers slot register]
    | cell k =>
      refine Follows.yield fits.tidy rep ?_
      rw [c.step_of_getElem? placed.instruction, Code.execute, rep.cells (s.slot?_of_binding found)]

/-- The assignment of the value in position `d` to a variable. -/
theorem assign_follows (fits : Fits c s) {table : NameTable} {binding : Option Binding}
    {name : String} {start unit : Nat} {v : V}
    (placed : (Piece.assign binding).Placed c table (s.numLocals + d) start unit)
    (bound : binding = s.binding? name ∧ binding ≠ none) (pc : f.pc = start)
    (rep : Represents s st f) (value : st.last d = v) :
    Follows c host s least (start + (Piece.assign binding).size) f
      (.ok (v, st.assign name v)) := by
  obtain ⟨rfl, some⟩ := bound
  subst pc
  cases found : s.binding? name with
  | none => exact absurd found some
  | some b =>
    rw [found] at placed
    cases b with
    | register r =>
      obtain ⟨slot, register⟩ := s.register?_of_binding found
      have step : c.step host f = .running (f.put r v).next := by
        rw [c.step_of_getElem? placed.instruction, Code.execute, rep.last, value]
      exact (Follows.here rfl (rep.assignRegister fits.tidy slot register v)).afterStep step
        |>.weaken (Nat.le_succ least)
    | cell k =>
      have step : c.step host f = .running (f.putCell k v).next := by
        rw [c.step_of_getElem? placed.instruction, Code.execute, rep.last, value]
      exact (Follows.here rfl (rep.assignCell (s.slot?_of_binding found) v)).afterStep step
        |>.weaken (Nat.le_succ least)

/-- The step of a variable in a register. -/
theorem step_follows (fits : Fits c s) (rep : Represents s st f) {name method : String}
    {r literal : Nat} (slot : s.slot? name = none) (register : s.register? name = some r)
    (text : c.literals[literal]? = some method)
    (step : c.step host f = c.execute host f (.callPlain r r literal)) :
    Follows c host s least (f.pc + 1) f (do
      let (v, st) ← answered s st (host.send (st.vars name) method [] (st.contents s) st.world)
      return (st.last d, st.assign name v)) := by
  rw [Code.execute, send_eq fits rep text, rep.registers slot register] at step
  have noArguments : f.arguments (r + 1) 0 = [] := rfl
  rw [noArguments] at step
  cases answer : host.send (st.vars name) method [] (st.contents s) st.world with
  | none =>
    rw [answer] at step
    exact .stuck step rfl
  | some a =>
    rw [answer] at step
    have after := (rep.receive a).assignRegister fits.tidy slot register a.value
    exact (Follows.here rfl after).afterStep step |>.weaken (Nat.le_succ least)

/-- The making of a closure. -/
theorem closure_follows (fits : Fits c s) {table : NameTable} {unit : Nat} {l : Lambda}
    (placed : (Piece.closure s l).Placed c table (s.numLocals + d) f.pc unit)
    (supplied : ∀ name ∈ l.received, ∃ slot, s.slot? name = some slot) (rep : Represents s st f) :
    Follows c host s least (f.pc + (Piece.closure s l).size) f (
      let (v, world) := host.closure l.unit l.params.length (l.handed s) st.world
      { st with world }.yield d v) := by
  obtain ⟨instruction, operands, inner⟩ := placed.closure
  have step : c.step host f = _ := c.step_of_getElem? instruction
  rw [Code.execute, inner, operands, rep.world] at step
  have stop : f.pc + (Piece.closure s l).size = f.pc + 1 + (l.handed s).length := by
    rw [Lambda.length_handed supplied]
    exact (Nat.add_assoc ..).symm
  have moved (world : W) : Represents s { st with world } { f with world } :=
    ⟨rep.cells, rep.registers, rep.last, rfl⟩
  obtain ⟨⟨v, world⟩, made⟩ : ∃ made, host.closure l.unit l.params.length (l.handed s) st.world =
    made := ⟨_, rfl⟩
  simp only [made] at step ⊢
  have after := ((moved world).yield fits.tidy d v).move (f.pc + 1 + (l.handed s).length)
  rw [stop]
  exact (Follows.here rfl after).afterStep step |>.weaken (Nat.le_succ least)

/-- A branch goes on with the code after it if the value in position `d` holds, and past that code
with the same value if not. -/
theorem branch_follows (rep : Represents s st f) {v : V} (value : st.last d = v) {stop : Nat}
    (branch : c.instructions[f.pc]? = some (.branchUnless (s.numLocals + d) stop))
    {x : Except Stop (V × Store V W)}
    (inside : Represents s st f.next → Follows c host s least stop f.next x) :
    Follows c host s (least + 1) stop f (if host.holds v then x else .ok (v, st)) := by
  have branching : c.step host f =
      .running (if host.holds v then f.next else { f with pc := stop }) := by
    rw [c.step_of_getElem? branch, Code.execute, rep.last, value]
  split
  · next holds =>
    rw [if_pos holds] at branching
    exact (inside (rep.move _)).afterStep branching
  · next fails =>
    rw [if_neg fails] at branching
    exact (Follows.here rfl (rep.move stop)).afterStep branching

end instructions

/-! ## Trees -/

/-- A loop goes where its evaluation goes, if its condition and its body do. -/
theorem loop_follows {c : Code} {host : Host V W} {s : Scope} {least d : Nat}
    {condition body : Store V W → Except Stop (V × Store V W)} {start branch back stop : Nat}
    (hc : ∀ {st f}, f.pc = start → Represents s st f →
      Follows c host s least branch f (condition st))
    (value : ∀ {st v st'}, condition st = .ok (v, st') → st'.last d = v)
    (hbranch : c.instructions[branch]? = some (.branchUnless (s.numLocals + d) stop))
    (hb : ∀ {st f}, f.pc = branch + 1 → Represents s st f →
      Follows c host s least back f (body st))
    (hjump : c.instructions[back]? = some (.jump start)) {fuel : Nat} {st : Store V W}
    {f : Frame V W} (le : fuel ≤ least) (pc : f.pc = start) (rep : Represents s st f) :
    Follows c host s fuel stop f (repeatWhile host.holds condition body fuel st) := by
  induction fuel generalizing st f with
  | zero => exact ⟨0, f, Nat.le_refl 0, rfl⟩
  | succ fuel ih =>
    rw [repeatWhile]
    refine ((hc pc rep).weaken le).bind fun v st₁ f₁ first pc₁ rep₁ => ?_
    refine branch_follows rep₁ (value first) (pc₁ ▸ hbranch) fun rep₁ => ?_
    have round := (hb (congrArg (· + 1) pc₁) rep₁).weaken (Nat.le_of_succ_le le)
    refine round.bind fun _ st₂ f₂ _ pc₂ rep₂ => ?_
    have jumping : c.step host f₂ = .running { f₂ with pc := start } := by
      subst pc₂
      rw [c.step_of_getElem? hjump, Code.execute]
    have again := ih (Nat.le_of_succ_le le) rfl (rep₂.move start)
    exact (again.afterStep jumping).weaken (Nat.le_succ fuel)

section trees

variable {c : Code} {host : Host V W} {s : Scope} {table : NameTable} {fuel : Nat}

mutual

/-- **The code of a tree goes where the evaluation of the tree goes.** -/
theorem node_follows (fits : Fits c s) : ∀ {n : Node}, n.Ready s → ∀ {d start unit : Nat}
    {st : Store V W} {f : Frame V W},
      (n.layout s).Placed c table (s.numLocals + d) start unit → f.pc = start →
        Represents s st f →
          Follows c host s fuel (start + (n.layout s).size) f (evaluate host s fuel n d st)
  | .integer _, _, _, _, _, _, _, placed, pc, rep | .boolean _, _, _, _, _, _, _, placed, pc, rep
  | .nil, _, _, _, _, _, _, placed, pc, rep | .block [], _, _, _, _, _, _, placed, pc, rep => by
    subst pc
    exact .yield fits.tidy rep (c.step_of_getElem? placed.instruction)
  | .string _, _, _, _, _, _, _, placed, pc, rep | .atom _, _, _, _, _, _, _, placed, pc, rep => by
    subst pc
    obtain ⟨instruction, text⟩ := placed.naming
    refine .yield fits.tidy rep ?_
    rw [c.step_of_getElem? instruction, Code.execute, Code.immediate?, text]
    rfl
  | .var name binding, ready, _, _, _, _, _, placed, pc, rep =>
    read_follows fits placed ready.var pc rep
  | .comment _, _, _, _, _, _, _, _, pc, rep => .here pc rep
  | .lambda params body scope, ready, d, start, unit, st, f, placed, pc, rep => by
    subst pc
    exact closure_follows fits placed (ready.supplied ⟨params, body, scope⟩ List.mem_cons_self) rep
  | .operator name left right, ready, d, start, unit, st, f, placed, pc, rep => by
    have hl := Node.layout_sized ready.operator.1
    have hr := Node.layout_sized ready.operator.2
    obtain ⟨operands, last⟩ := placed.append (hl.append hr.raised)
    obtain ⟨first, second⟩ := operands.append hl
    rw [evaluate]
    refine (node_follows fits ready.operator.1 first pc rep).bind fun a st₁ f₁ ha pc₁ rep₁ => ?_
    refine (node_follows fits ready.operator.2 second.raised pc₁ rep₁).bind
      fun b st₂ f₂ hb pc₂ rep₂ => ?_
    -- the left value is still in position `d` when the right one is in the next
    have ya := evaluate_yields host s fuel left ha
    have yb := evaluate_yields host s fuel right hb
    have here : f₂.pc = start + (left.layout s ++ (right.layout s).raised).size :=
      pc₂.trans (Nat.add_assoc ..)
    obtain ⟨instruction, text⟩ := last.naming
    rw [← here] at instruction
    rw [Node.layout, Piece.size_append, ← Nat.add_assoc, ← here]
    exact send_follows fits rep₂ text ((yb.kept d (Nat.lt_succ_self d)).trans ya.value)
      (by simp [yb.value]) (c.step_of_getElem? instruction)
  | .call method receiver args, ready, d, start, unit, st, f, placed, pc, rep => by
    have hr := Node.layout_sized ready.call.1
    have ha := Node.layoutArguments_sized ready.call.2
    obtain ⟨operands, last⟩ := placed.append (hr.append ha)
    obtain ⟨first, second⟩ := operands.append hr
    rw [evaluate]
    refine (node_follows fits ready.call.1 first pc rep).bind fun a st₁ f₁ va pc₁ rep₁ => ?_
    refine (arguments_follow fits ready.call.2 second pc₁ rep₁).bind
      fun vs st₂ f₂ vb pc₂ rep₂ => ?_
    have ya := evaluate_yields host s fuel receiver va
    -- the receiver is still in position `d`, and each argument in a position of its own
    have yb := evaluateArguments_yields host s fuel args vb
    have here : f₂.pc = start + (receiver.layout s ++ Node.layoutArguments s args).size :=
      pc₂.trans (Nat.add_assoc ..)
    obtain ⟨instruction, text⟩ := last.naming
    rw [← here] at instruction
    rw [Node.layout, Piece.size_append, ← Nat.add_assoc, ← here]
    exact send_follows fits rep₂ text ((yb.kept d (Nat.le_refl d)).trans ya.value) yb.values
      (c.step_of_getElem? instruction)
  | .invoke name args binding, ready, d, start, unit, st, f, placed, pc, rep => by
    have hr := Piece.Sized.read binding
    have ha := Node.layoutArguments_sized ready.invoke.2
    obtain ⟨operands, last⟩ := placed.append (hr.append ha)
    obtain ⟨first, second⟩ := operands.append hr
    rw [evaluate]
    refine (read_follows fits first ready.invoke.1 pc rep).bind fun a st₁ f₁ va pc₁ rep₁ => ?_
    refine (arguments_follow fits ready.invoke.2 second pc₁ rep₁).bind
      fun vs st₂ f₂ vb pc₂ rep₂ => ?_
    have ya := Store.yields_of_yield va
    have yb := evaluateArguments_yields host s fuel args vb
    have here : f₂.pc = start + (Piece.read binding ++ Node.layoutArguments s args).size :=
      pc₂.trans (Nat.add_assoc ..)
    have instruction := last.instruction
    rw [← here] at instruction
    rw [Node.layout, Piece.size_append, ← Nat.add_assoc, ← here]
    exact call_follows fits rep₂ ((yb.kept d (Nat.le_refl d)).trans ya.value) yb.values
      (c.step_of_getElem? instruction)
  | .block (item :: items), ready, d, start, unit, st, f, placed, pc, rep => by
    have hi := Node.layout_sized ready.block.cons.1
    obtain ⟨first, second⟩ := placed.append hi
    rw [evaluate, Node.layout, Piece.size_append, ← Nat.add_assoc]
    refine (node_follows fits ready.block.cons.1 first pc rep).bind fun a st₁ f₁ _ pc₁ rep₁ => ?_
    exact nodes_follow fits ready.block.cons.2 second pc₁ rep₁
  | .conditional condition body, ready, d, start, unit, st, f, placed, pc, rep => by
    have hc := Node.layout_sized ready.conditional.1
    obtain ⟨first, branch, second⟩ := placed.conditional hc
    rw [evaluate]
    refine (node_follows fits ready.conditional.1 first pc rep).bind fun v st₁ f₁ hv pc₁ rep₁ => ?_
    have value := (evaluate_yields host s fuel condition hv).value
    have stop : start + (Node.layout s (.conditional condition body)).size =
        start + ((condition.layout s).size + 1) + (body.layout s).size := (Nat.add_assoc ..).symm
    -- if the condition does not hold its value stays, and so it is the value of the whole
    refine (branch_follows rep₁ value (pc₁ ▸ branch) fun rep₁ => ?_).weaken (Nat.le_succ fuel)
    have inside : f₁.next.pc = start + ((condition.layout s).size + 1) := congrArg (· + 1) pc₁
    exact stop ▸ node_follows fits ready.conditional.2 second inside rep₁
  | .loop condition body, ready, d, start, unit, st, f, placed, pc, rep => by
    have hc := Node.layout_sized ready.loop.1
    have hb := Node.layout_sized ready.loop.2
    obtain ⟨first, branch, second, jump⟩ := placed.loop hc hb
    rw [evaluate]
    -- the rounds were dealt with by induction on the fuel; here only a single round is left
    refine loop_follows (node_follows fits ready.loop.1 first)
      (fun h => (evaluate_yields host s fuel condition h).value) branch (fun pc rep => ?_) jump
      (Nat.le_refl fuel) pc rep
    have rest := node_follows fits ready.loop.2 second pc rep
    rwa [Nat.add_assoc] at rest
  | .step direction operand, ready, d, start, unit, st, f, placed, pc, rep => by
    obtain ⟨name, index, rfl, bound⟩ := ready.step
    obtain ⟨slot, register⟩ := s.register?_of_binding bound
    obtain ⟨instruction, text⟩ := placed.naming
    subst pc
    exact step_follows fits rep slot register text (c.step_of_getElem? instruction)
  | .assign name value binding, ready, d, start, unit, st, f, placed, pc, rep => by
    have hv := Node.layout_sized ready.assign.2
    obtain ⟨first, second⟩ := placed.append hv
    rw [evaluate, Node.layout, Piece.size_append, ← Nat.add_assoc]
    refine (node_follows fits ready.assign.2 first pc rep).bind fun v st₁ f₁ va pc₁ rep₁ => ?_
    exact assign_follows fits second ready.assign.1 pc₁ rep₁
      (evaluate_yields host s fuel value va).value
  | .instanceVar _, ready, _, _, _, _, _, _, _, _ | .attr .., ready, _, _, _, _, _, _, _, _
  | .attrAssign .., ready, _, _, _, _, _, _, _, _ | .importPath _, ready, _, _, _, _, _, _, _, _
  | .definition .., ready, _, _, _, _, _, _, _, _ | .classDef .., ready, _, _, _, _, _, _, _, _
  | .has .., ready, _, _, _, _, _, _, _, _ => ready.supported.elim

/-- The trees of a list follow one another at one stack position. -/
theorem nodes_follow (fits : Fits c s) : ∀ {ns : List Node}, Node.ReadyAll s ns →
    ∀ {d start unit : Nat} {v : V} {st : Store V W} {f : Frame V W},
      (Node.layoutAll s ns).Placed c table (s.numLocals + d) start unit → f.pc = start →
        Represents s st f → Follows c host s fuel (start + (Node.layoutAll s ns).size) f
          (evaluateAll host s fuel ns d v st)
  | [], _, _, _, _, _, _, _, _, pc, rep => .here pc rep
  | n :: ns, ready, d, start, unit, v, st, f, placed, pc, rep => by
    have hn := Node.layout_sized ready.cons.1
    obtain ⟨first, second⟩ := placed.append hn
    rw [evaluateAll, Node.layoutAll, Piece.size_append, ← Nat.add_assoc]
    refine (node_follows fits ready.cons.1 first pc rep).bind fun a st₁ f₁ _ pc₁ rep₁ => ?_
    exact nodes_follow fits ready.cons.2 second pc₁ rep₁

/-- The same for arguments, which pile up in the registers above the stack position. -/
theorem arguments_follow (fits : Fits c s) : ∀ {args : List Node}, Node.ReadyAll s args →
    ∀ {d start unit : Nat} {st : Store V W} {f : Frame V W},
      (Node.layoutArguments s args).Placed c table (s.numLocals + d) start unit → f.pc = start →
        Represents s st f → Follows c host s fuel (start + (Node.layoutArguments s args).size) f
          (evaluateArguments host s fuel args d st)
  | [], _, _, _, _, _, _, _, pc, rep => .here pc rep
  | arg :: args, ready, d, start, unit, st, f, placed, pc, rep => by
    have ha := Node.layout_sized ready.cons.1
    obtain ⟨first, second⟩ := placed.raised.append ha
    rw [evaluateArguments]
    have size : start + (Node.layoutArguments s (arg :: args)).size =
        start + (arg.layout s).size + (Node.layoutArguments s args).size :=
      (Nat.add_assoc ..).symm
    rw [size]
    refine (node_follows fits ready.cons.1 first pc rep).bind fun a st₁ f₁ _ pc₁ rep₁ => ?_
    refine (arguments_follow fits ready.cons.2 second pc₁ rep₁).bind fun vs st₂ f₂ _ pc₂ rep₂ => ?_
    exact .here pc₂ rep₂

end

end trees

end ClosureLang
