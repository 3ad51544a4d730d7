import ClosureLang.Proofs.Compile.Layout

/-!
# Emission follows the layout

Emitting a tree appends the layout of the tree to whatever the emitter holds, and changes nothing
else: the stack position is where it was, earlier instructions, literals and inner units stay. The
statement is about any emitter, so it holds of a tree in any place of any unit; the proof follows
the tree and puts the pieces together.

`Emitted` relates the emitter before to the emitter after, for a piece and for the number of
registers by which the stack position rises meanwhile. It says of each field of the emitter what has
become of it: literals and inner units are appended, the highest register is the maximum, and the
instructions are those that were there followed by the code of the piece at this place. That code
depends on the numbers of its literals, and these are only settled when the unit is finished. So the
instructions are given for every table that continues the one of the emitter after the piece.

Two things keep this from being a mere concatenation. Branches are emitted with a target that is
filled in later, so between the condition and the end of the body the emitter holds an instruction
that the layout does not have; `patched` is for this, and `conditional` and `loop` are built on it.
And the stack position goes up and down: operands are emitted one register further up, after which
the position is set back. `raised`, `returned` and `lowered` say that this is the raised piece, seen
from where the position was before.

A step of the emitter either fails or leaves a piece, and its lemma takes the successful run and
gives back what was emitted and why it could be: that a name is bound, that a step is one of a
variable in a register, that there are cells for what a closure receives.
-/

set_option autoImplicit false

namespace ClosureLang

/-- A unit with scope `s` can make closures of the lambda: the lambda compiles, and the unit has a
cell for each name that the lambda receives. -/
structure Lambda.Makeable (s : Scope) (l : Lambda) : Prop where
  compiles : ∃ inner, l.emit = .ok inner ∧ l.scope = some inner.scope
  supplied : ∀ name ∈ l.received, ∃ slot, s.slot? name = some slot

/-- The emitter `e'` holds what `e` holds and the piece `p` after it; its stack position is `rise`
registers further up. -/
structure Emitted (p : Piece) (rise : Nat) (e e' : Emitter) : Prop where
  scope : e'.scope = e.scope
  top : e'.top = e.top + rise
  highest : e.top ≤ e.highest → e'.highest = max e.highest (e.top + p.height)
  literals : e'.literals = e.literals.insertAll p.texts
  units : e'.units.toList = e.units.toList ++ p.lambdas.map Lambda.unit
  makeable : ∀ l ∈ p.lambdas, l.Makeable e.scope
  size : e'.instructions.size = e.instructions.size + p.size
  instructions : ∀ table : NameTable, table.Continues e'.literals →
    e'.instructions.toList =
      e.instructions.toList ++ p.code table e.top e.instructions.size e.units.size

namespace Emitted

variable {p q : Piece} {rise : Nat} {e e₁ e' : Emitter}

/-- No code leaves the emitter as it is. -/
theorem silent (e : Emitter) : Emitted (.silent []) 0 e e where
  scope := rfl
  top := rfl
  highest h := by simp [Piece.silent, h]
  literals := rfl
  units := by simp [Piece.silent]
  makeable l hl := by simp [Piece.silent] at hl
  size := rfl
  instructions table _ := by simp [Piece.silent]

/-- The literals of an emitter continue to count from those there were. -/
theorem continues (h : Emitted p rise e e') : e'.literals.Continues e.literals :=
  h.literals ▸ NameTable.continues_insertAll ..

/-- There are as many new inner units as the piece has lambdas. -/
theorem units_size (h : Emitted p rise e e') : e'.units.size = e.units.size + p.lambdas.length := by
  rw [← Array.length_toList, h.units, List.length_append, List.length_map, Array.length_toList]

/-! ## One piece after another

Between the two pieces there may be single instructions of neither, the branch of a condition. -/

section both

variable {between : Array Instruction} (h : Emitted p 0 e e₁)
  (h' : Emitted q rise { e₁ with instructions := between } e')

include h h'

/-- Two pieces leave the scope. -/
theorem scope_both : e'.scope = e.scope := h'.scope.trans h.scope

/-- The stack position rises as the second piece makes it rise. -/
theorem top_both : e'.top = e.top + rise := by
  have later : e'.top = e₁.top + rise := h'.top
  rw [later, h.top, Nat.add_zero]

/-- The highest register used is the highest of the two pieces. -/
theorem highest_both (bound : e.top ≤ e.highest) :
    e'.highest = max e.highest (e.top + max p.height q.height) := by
  have first := h.highest bound
  have second := h'.highest (by rw [h.top, first]; omega)
  rw [second, first, h.top]
  omega

/-- The literals of the first piece are entered before those of the second. -/
theorem literals_both : e'.literals = e.literals.insertAll (p.texts ++ q.texts) := by
  rw [h'.literals, h.literals, NameTable.insertAll_append]

/-- The inner units of the first piece come before those of the second. -/
theorem units_both :
    e'.units.toList = e.units.toList ++ (p.lambdas ++ q.lambdas).map Lambda.unit := by
  rw [h'.units, h.units, List.map_append, List.append_assoc]

/-- The lambdas of both pieces can be made closures of. -/
theorem makeable_both : ∀ l ∈ p.lambdas ++ q.lambdas, l.Makeable e.scope := by
  intro l mem
  rcases List.mem_append.mp mem with mem | mem
  · exact h.makeable l mem
  · exact h.scope ▸ h'.makeable l mem

end both

/-- One piece after the other. -/
theorem append (h : Emitted p 0 e e₁) (h' : Emitted q rise e₁ e') :
    Emitted (p ++ q) rise e e' where
  scope := scope_both h h'
  top := top_both h h'
  highest := highest_both h h'
  literals := literals_both h h'
  units := units_both h h'
  makeable := makeable_both h h'
  size := by rw [h'.size, h.size, Piece.size_append, Nat.add_assoc]
  instructions table continues := by
    rw [h'.instructions table continues, h.instructions table (continues.trans h'.continues), h.top,
      h.size, h.units_size, Nat.add_zero, List.append_assoc, Piece.code_append]

/-! ## The stack position -/

/-- Emission from the next register on, seen from the register below. -/
theorem raised (h : Emitted p rise { e with top := e.top + 1, highest := max e.highest (e.top + 1) }
    e') : Emitted p.raised (rise + 1) e e' where
  scope := h.scope
  top := by
    have above : e'.top = e.top + 1 + rise := h.top
    omega
  highest bound := by
    rw [h.highest (Nat.le_max_right ..)]
    show max (max e.highest (e.top + 1)) (e.top + 1 + p.height) =
      max e.highest (e.top + (p.height + 1))
    omega
  literals := h.literals
  units := h.units
  makeable := h.makeable
  size := h.size
  instructions := h.instructions

/-- Going back to the stack position at the beginning. -/
theorem returned (h : Emitted p rise e e') : Emitted p 0 e { e' with top := e.top } where
  scope := h.scope
  top := rfl
  highest := h.highest
  literals := h.literals
  units := h.units
  makeable := h.makeable
  size := h.size
  instructions := h.instructions

/-- Going back by the one register that the stack position was moved up. -/
theorem lowered (h : Emitted p 1 e e') : Emitted p 0 e { e' with top := e'.top - 1 } := by
  rw [h.top, Nat.add_sub_cancel]
  exact h.returned

/-! ## Branches -/

/-- What the emitter holds after a branch whose target was filled in later. -/
theorem patched (instructions : Array Instruction) (rest : List Instruction) (i i' : Instruction)
    {emitted : Array Instruction} (h : emitted.toList = instructions.toList ++ i :: rest) :
    (emitted.setIfInBounds instructions.size i').toList = instructions.toList ++ i' :: rest := by
  rw [Array.toList_setIfInBounds, h, ← Array.length_toList,
    List.set_append_right _ _ (Nat.le_refl _), Nat.sub_self, List.set_cons_zero]

/-- A condition and a body: the branch in between gets its target when the size of the body is
known. -/
theorem conditional (h : Emitted p 0 e e₁)
    (h' : Emitted q 0
      { e₁ with instructions := e₁.instructions.push (.branchUnless e₁.top 0) } e') :
    Emitted (.conditional p q) 0 e
      { e' with
        instructions := e'.instructions.setIfInBounds e₁.instructions.size
          (.branchUnless e₁.top e'.instructions.size) } where
  scope := (scope_both h h' :)
  top := (top_both h h' :)
  highest := (highest_both h h' :)
  literals := (literals_both h h' :)
  units := (units_both h h' :)
  makeable := (makeable_both h h' :)
  size := by
    have first := h.size
    have second := h'.size
    simp only [Array.size_push] at second
    simp only [Array.size_setIfInBounds, Piece.conditional]
    omega
  instructions table continues := by
    have size := h'.size
    have body := h'.instructions table continues
    simp only [Array.toList_push, List.append_assoc, List.singleton_append, Array.size_push]
      at body size
    rw [patched _ _ _ _ body, h.instructions table (continues.trans h'.continues), size, h.size,
      h.top, h.units_size, List.append_assoc]
    simp only [Piece.conditional, Nat.add_zero, Nat.add_assoc]

/-- A loop: as a condition and a body, with the way back at the end. -/
theorem loop (h : Emitted p 0 e e₁)
    (h' : Emitted q 0
      { e₁ with instructions := e₁.instructions.push (.branchUnless e₁.top 0) } e') :
    Emitted (.loop p q) 0 e
      { e' with
        instructions := (e'.instructions.push (.jump e.instructions.size)).setIfInBounds
          e₁.instructions.size (.branchUnless e₁.top (e'.instructions.size + 1)) } where
  scope := (scope_both h h' :)
  top := (top_both h h' :)
  highest := (highest_both h h' :)
  literals := (literals_both h h' :)
  units := (units_both h h' :)
  makeable := (makeable_both h h' :)
  size := by
    have first := h.size
    have second := h'.size
    simp only [Array.size_push] at second
    simp only [Array.size_setIfInBounds, Array.size_push, Piece.loop]
    omega
  instructions table continues := by
    have size := h'.size
    have body := h'.instructions table continues
    simp only [Array.toList_push, List.append_assoc, List.singleton_append, Array.size_push]
      at body size
    have whole : (e'.instructions.push (.jump e.instructions.size)).toList =
        e₁.instructions.toList ++ .branchUnless e₁.top 0 ::
          (q.code table e₁.top (e₁.instructions.size + 1) e₁.units.size ++
            [.jump e.instructions.size]) := by
      simp [body]
    rw [patched _ _ _ _ whole, h.instructions table (continues.trans h'.continues), size, h.size,
      h.top, h.units_size, List.append_assoc]
    simp only [Piece.loop, Nat.add_zero, Nat.add_assoc]

end Emitted

/-! ## Running an emission -/

namespace Emit

variable {α β : Type} {e e' : Emitter}

/-- Two emissions one after the other succeed if the first does, and the second from there. -/
theorem bind_run {x : Emit α} {f : α → Emit β} {b : β} :
    (x >>= f).run e = .ok b e' ↔ ∃ a e₁, x.run e = .ok a e₁ ∧ (f a).run e₁ = .ok b e' := by
  show EStateM.bind x f e = _ ↔ ∃ a e₁, x e = _ ∧ f a e₁ = _
  unfold EStateM.bind
  cases x e with
  | ok a e₁ => exact ⟨fun h => ⟨a, e₁, rfl, h⟩, fun ⟨_, _, h, h'⟩ => by cases h; exact h'⟩
  | error cause e₁ => simp

/-- An emission that emits nothing leaves the emitter. -/
@[simp] theorem pure_run {a b : α} : (pure a : Emit α).run e = .ok b e' ↔ a = b ∧ e = e' := by
  show EStateM.Result.ok a e = _ ↔ _
  simp

/-- An emission that fails does not succeed. -/
@[simp] theorem throw_run {cause : CompileError} {b : α} :
    (throw cause : Emit α).run e = .ok b e' ↔ False := by
  show EStateM.Result.error cause e = _ ↔ _
  simp

/-- Asking for the stack position changes nothing. -/
@[simp] theorem top_run {n : Nat} : top.run e = .ok n e' ↔ n = e.top ∧ e' = e := by
  show EStateM.Result.ok e.top e = _ ↔ _
  simp [eq_comm]

/-- Asking for the position in the code changes nothing. -/
@[simp] theorem here_run {n : Nat} :
    here.run e = .ok n e' ↔ n = e.instructions.size ∧ e' = e := by
  show EStateM.Result.ok e.instructions.size e = _ ↔ _
  simp [eq_comm]

/-- An instruction is appended. -/
@[simp] theorem instruction_run {i : Instruction} {u : Unit} :
    (instruction i).run e = .ok u e' ↔
      e' = { e with instructions := e.instructions.push i } := by
  show EStateM.Result.ok () _ = _ ↔ _
  simp [eq_comm]

/-- A branch is filled in where it stands. -/
@[simp] theorem patch_run {pos : Nat} {i : Instruction} {u : Unit} :
    (patch pos i).run e = .ok u e' ↔
      e' = { e with instructions := e.instructions.setIfInBounds pos i } := by
  show EStateM.Result.ok () _ = _ ↔ _
  simp [eq_comm]

/-- Raising the stack position counts the register it comes to. -/
@[simp] theorem raise_run {u : Unit} :
    raise.run e = .ok u e' ↔
      e' = { e with top := e.top + 1, highest := max e.highest (e.top + 1) } := by
  show EStateM.Result.ok () _ = _ ↔ _
  simp [eq_comm]

/-- Lowering the stack position forgets no register that was counted. -/
@[simp] theorem lower_run {u : Unit} :
    lower.run e = .ok u e' ↔ e' = { e with top := e.top - 1 } := by
  show EStateM.Result.ok () _ = _ ↔ _
  simp [eq_comm]

/-- The stack position may be set back to where it was. -/
@[simp] theorem returnTo_run {register : Nat} {u : Unit} :
    (returnTo register).run e = .ok u e' ↔ e' = { e with top := register } := by
  show EStateM.Result.ok () _ = _ ↔ _
  simp [eq_comm]

/-- A literal is entered unless it is there, and its number is answered. -/
@[simp] theorem literal_run {text : String} {n : Nat} :
    (literal text).run e = .ok n e' ↔
      n = (e.literals.intern text).1 ∧ e' = { e with literals := e.literals.insert text } := by
  show EStateM.Result.ok _ _ = _ ↔ _
  simp [eq_comm, NameTable.intern]

/-! ## Single instructions -/

/-- An instruction is a piece by itself. -/
theorem emitted_instruction (i : Nat → Instruction) (e : Emitter) :
    Emitted (.instruction i) 0 e { e with instructions := e.instructions.push (i e.top) } where
  scope := rfl
  top := rfl
  highest h := by simp [Piece.instruction, h]
  literals := rfl
  units := by simp [Piece.instruction]
  makeable l hl := by simp [Piece.instruction] at hl
  size := by simp [Piece.instruction]
  instructions table _ := by simp [Piece.instruction]

/-- An instruction that names a literal is a piece by itself. -/
theorem emitted_naming (text : String) (i : Nat → Nat → Instruction) (e : Emitter) :
    Emitted (.naming text i) 0 e
      { e with
        literals := e.literals.insert text
        instructions := e.instructions.push (i e.top (e.literals.intern text).1) } where
  scope := rfl
  top := rfl
  highest h := by simp [Piece.naming, h]
  literals := rfl
  units := by simp [Piece.naming]
  makeable l hl := by simp [Piece.naming] at hl
  size := by simp [Piece.naming]
  instructions table continues := by
    have number : table.number text = (e.literals.intern text).1 := by
      simp [NameTable.number, continues.index? (e.literals.index?_intern text)]
    simp [Piece.naming, number]

/-- A value without a literal is stored by one instruction. -/
theorem store_emitted {value : Immediate} (h : (store value).run e = .ok () e') :
    Emitted (.instruction fun top => .store top value) 0 e e' := by
  simp only [store, bind_run, top_run, instruction_run] at h
  obtain ⟨_, _, ⟨rfl, rfl⟩, rfl⟩ := h
  exact emitted_instruction ..

/-- A value with a literal is stored by one instruction, after its literal was entered. -/
theorem store_literal_emitted {text : String} {value : Nat → Immediate}
    (h : (do store (value (← literal text)) : Emit Unit).run e = .ok () e') :
    Emitted (.naming text fun top number => .store top (value number)) 0 e e' := by
  simp only [store, bind_run, literal_run, top_run, instruction_run] at h
  obtain ⟨_, _, ⟨rfl, rfl⟩, _, _, ⟨rfl, rfl⟩, rfl⟩ := h
  exact emitted_naming ..

/-- Reading a variable takes one instruction, by its binding. -/
theorem read_emitted {name : String} {binding : Option Binding}
    (h : (read name binding).run e = .ok () e') : Emitted (.read binding) 0 e e' := by
  rcases binding with _ | index | slot
  · simp only [read, throw_run] at h
  all_goals
    simp only [read, bind_run, top_run, instruction_run] at h
    obtain ⟨_, _, ⟨rfl, rfl⟩, rfl⟩ := h
    exact emitted_instruction ..

/-- A variable that is read is bound. -/
theorem read_bound {name : String} {binding : Option Binding}
    (h : (read name binding).run e = .ok () e') : binding ≠ none := by
  rintro rfl
  simp only [read, throw_run] at h

/-- A variable that is assigned is bound. -/
theorem assign_bound {name : String} {binding : Option Binding}
    (h : (assign name binding).run e = .ok () e') : binding ≠ none := by
  rintro rfl
  simp only [assign, throw_run] at h

/-- Assigning to a variable takes one instruction, by its binding. -/
theorem assign_emitted {name : String} {binding : Option Binding}
    (h : (assign name binding).run e = .ok () e') : Emitted (.assign binding) 0 e e' := by
  rcases binding with _ | index | slot
  · simp only [assign, throw_run] at h
  all_goals
    simp only [assign, bind_run, top_run, instruction_run] at h
    obtain ⟨_, _, ⟨rfl, rfl⟩, rfl⟩ := h
    exact emitted_instruction ..

/-- Only a variable in a register can be stepped. -/
theorem step_run {direction : Step} {operand : Node}
    (h : (step direction operand).run e = .ok () e') :
    ∃ name index, operand = .var name (some (.register index)) := by
  unfold step at h
  split at h
  · exact ⟨_, _, rfl⟩
  all_goals simp only [throw_run] at h

/-- A step takes one call, on a variable that lives in a register. -/
theorem step_emitted {direction : Step} {operand : Node}
    (h : (step direction operand).run e = .ok () e') :
    Emitted (.step direction operand) 0 e e' := by
  obtain ⟨name, index, rfl⟩ := step_run h
  simp only [step, bind_run, literal_run, instruction_run] at h
  obtain ⟨_, _, ⟨rfl, rfl⟩, rfl⟩ := h
  exact emitted_naming ..

/-! ## Closures -/

/-- Looking up slots changes nothing, and succeeds only if there is a cell for every name. -/
theorem slots_run {names : List String} {found : List Nat}
    (h : (slots names).run e = .ok found e') :
    e' = e ∧ found = names.filterMap e.scope.slot? ∧ found.length = names.length ∧
      ∀ name ∈ names, ∃ slot, e.scope.slot? name = some slot := by
  induction names generalizing found e' with
  | nil =>
    simp only [slots, pure_run] at h
    obtain ⟨rfl, rfl⟩ := h
    simp
  | cons name names ih =>
    simp only [slots, bind_run] at h
    obtain ⟨_, _, got, h⟩ := h
    cases got
    cases slot : e.scope.slot? name with
    | none => simp only [slot, throw_run] at h
    | some k =>
      simp only [slot, bind_run, pure_run] at h
      obtain ⟨rest, _, tail, rfl, rfl⟩ := h
      obtain ⟨rfl, rfl, length, supplied⟩ := ih tail
      refine ⟨rfl, by simp [slot], by simp [length], fun other mem => ?_⟩
      rcases List.mem_cons.mp mem with rfl | mem
      · exact ⟨k, slot⟩
      · exact supplied other mem

/-- Instructions for a list of cells are appended in the order of the cells. -/
theorem forM_instruction_run {slots : List Nat} {i : Nat → Instruction}
    (h : (slots.forM fun slot => instruction (i slot)).run e = .ok () e') :
    e' = { e with instructions := e.instructions ++ (slots.map i).toArray } := by
  induction slots generalizing e with
  | nil =>
    simp only [List.forM_eq_forM, List.forM_nil, pure_run, true_and] at h
    simp [← h]
  | cons slot slots ih =>
    simp only [List.forM_eq_forM, List.forM_cons, bind_run, instruction_run] at h ih
    obtain ⟨_, _, rfl, h⟩ := h
    rw [ih h]
    simp

/-- The making of a closure is followed by one operand for each cell to hand over. -/
theorem closure_emitted {l : Lambda} {inner : Emitter} (emits : l.emit = .ok inner)
    (scope : l.scope = some inner.scope) (h : (closure l.params.length inner).run e = .ok () e') :
    Emitted (.closure e.scope l) 0 e e' := by
  have received : inner.scope.capturedNames = l.received := by simp [Lambda.received, scope]
  simp only [closure, bind_run] at h
  obtain ⟨found, _, lookup, _, _, got, _, _, put, _, _, made, handed⟩ := h
  cases got
  cases put
  obtain ⟨rfl, rfl, length, supplied⟩ := slots_run lookup
  simp only [instruction_run] at made
  subst made
  have final := forM_instruction_run handed
  rw [received] at final length supplied
  subst final
  exact {
    scope := rfl
    top := rfl
    highest := fun bound => by simp [Piece.closure, bound]
    literals := rfl
    units := by simp [Piece.closure, Lambda.unit, emits]
    makeable := fun l' hl => by
      cases List.mem_singleton.mp hl
      exact ⟨⟨inner, emits, scope⟩, supplied⟩
    size := by simp [Piece.closure, length]; omega
    instructions := fun table _ => by simp [Piece.closure, Lambda.handed] }

/-! ## Trees -/

/-- Emitting a lambda's unit keeps the unit's scope. -/
theorem unitOf_run {start inner : Emitter} {body : Emit Unit}
    (h : unitOf start body = .ok inner) :
    ∃ e₁, body.run start = .ok () e₁ ∧
      inner = { e₁ with instructions := e₁.instructions.push (.ret start.scope.numLocals) } := by
  unfold unitOf at h
  split at h
  · next e ran =>
    cases h
    obtain ⟨_, e₁, first, last⟩ := bind_run.mp ran
    exact ⟨e₁, first, instruction_run.mp last⟩
  · cases h

mutual

/-- **Emitting a tree appends its layout.** -/
theorem node_emitted : ∀ (n : Node) {s : Scope} {e e' : Emitter}, (node n).run e = .ok () e' →
    e.scope = s → Emitted (n.layout s) 0 e e'
  | .integer _, _, _, _, h, hs => by
    simp only [node] at h
    exact store_emitted h
  | .string _, _, _, _, h, hs => by
    simp only [node] at h
    exact store_literal_emitted h
  | .atom _, _, _, _, h, hs => by
    simp only [node] at h
    exact store_literal_emitted h
  | .boolean _, _, _, _, h, hs => by
    simp only [node] at h
    exact store_emitted h
  | .nil, _, _, _, h, hs => by
    simp only [node] at h
    exact store_emitted h
  | .var _ _, _, _, _, h, hs => by
    simp only [node] at h
    exact read_emitted h
  | .operator name left right, _, e, e', h, hs => by
    -- the stack position goes up for the right operand and down again after it
    simp only [node, bind_run, top_run, raise_run, lower_run, literal_run, instruction_run] at h
    obtain ⟨_, e₁, first, _, _, rfl, _, e₂, second, _, _, rfl, _, _, ⟨rfl, rfl⟩, _, _, ⟨rfl, rfl⟩,
      rfl⟩ := h
    have hl := node_emitted left first hs
    have hr := node_emitted right second (hl.scope.trans hs)
    exact (hl.append hr.raised.lowered).append (emitted_naming ..)
  | .call method receiver args, _, e, e', h, hs => by
    simp only [node, bind_run, top_run, returnTo_run, literal_run, instruction_run] at h
    obtain ⟨_, e₁, first, _, _, ⟨rfl, rfl⟩, _, e₂, second, _, _, rfl, _, _, ⟨rfl, rfl⟩, rfl⟩ := h
    have hr := node_emitted receiver first hs
    have ha := arguments_emitted args second (hr.scope.trans hs)
    exact (hr.append ha.returned).append (emitted_naming ..)
  | .invoke name args binding, _, e, e', h, hs => by
    simp only [node, bind_run, top_run, returnTo_run, instruction_run] at h
    obtain ⟨_, e₁, first, _, _, ⟨rfl, rfl⟩, _, e₂, second, _, _, rfl, rfl⟩ := h
    have hr := read_emitted first
    have ha := arguments_emitted args second (hr.scope.trans hs)
    exact (hr.append ha.returned).append (emitted_instruction ..)
  | .block [], _, _, _, h, hs => by
    simp only [node] at h
    exact store_emitted h
  | .block (item :: items), _, e, e', h, hs => by
    simp only [node, bind_run] at h
    obtain ⟨_, e₁, first, second⟩ := h
    have hi := node_emitted item first hs
    exact hi.append (nodes_emitted items second (hi.scope.trans hs))
  | .conditional condition body, _, e, e', h, hs => by
    -- the branch is emitted with an open target, which is filled in last
    simp only [node, bind_run, top_run, here_run, instruction_run, patch_run] at h
    obtain ⟨_, e₁, first, _, _, ⟨rfl, rfl⟩, _, _, ⟨rfl, rfl⟩, _, _, rfl, _, e₂, second, _, _,
      ⟨rfl, rfl⟩, rfl⟩ := h
    have hc := node_emitted condition first hs
    exact hc.conditional (node_emitted body second (hc.scope.trans hs))
  | .loop condition body, _, e, e', h, hs => by
    simp only [node, bind_run, top_run, here_run, instruction_run, patch_run] at h
    obtain ⟨_, _, ⟨rfl, rfl⟩, _, e₁, first, _, _, ⟨rfl, rfl⟩, _, _, ⟨rfl, rfl⟩, _, _, rfl, _, e₂,
      second, _, _, rfl, _, _, ⟨rfl, rfl⟩, rfl⟩ := h
    have hc := node_emitted condition first hs
    simp only [Array.size_push]
    exact hc.loop (node_emitted body second (hc.scope.trans hs))
  | .step _ _, _, _, _, h, hs => by
    simp only [node] at h
    exact step_emitted h
  | .assign name value binding, _, e, e', h, hs => by
    simp only [node, bind_run] at h
    obtain ⟨_, e₁, first, second⟩ := h
    exact (node_emitted value first hs).append (assign_emitted second)
  | .lambda params body none, _, _, _, h, hs => by
    simp only [node, lambdaUnit, throw_run] at h
  | .lambda params body (some s), _, e, e', h, hs => by
    simp only [node] at h
    split at h
    · next inner made =>
      -- the body went into an emitter of its own, so of this emission only the making is left
      obtain ⟨e₁, ran, rfl⟩ := unitOf_run made
      have scope := (node_emitted body ran rfl).scope
      subst hs
      exact closure_emitted (l := ⟨params, body, some s⟩) made (congrArg some scope.symm) h
    · simp only [throw_run] at h
  | .comment _, _, _, _, h, hs => by
    simp only [node, pure_run] at h
    obtain ⟨-, rfl⟩ := h
    exact .silent _
  | .instanceVar _, _, _, _, h, hs | .attr .., _, _, _, h, hs | .attrAssign .., _, _, _, h, hs
  | .importPath _, _, _, _, h, hs | .definition .., _, _, _, h, hs | .classDef .., _, _, _, h, hs
  | .has .., _, _, _, h, hs => by
    simp only [node, throw_run] at h

/-- Emitting the trees of a list appends their layouts one after the other. -/
theorem nodes_emitted : ∀ (ns : List Node) {s : Scope} {e e' : Emitter},
    (nodes ns).run e = .ok () e' → e.scope = s → Emitted (Node.layoutAll s ns) 0 e e'
  | [], _, _, _, h, hs => by
    simp only [nodes, pure_run] at h
    obtain ⟨-, rfl⟩ := h
    exact .silent _
  | n :: ns, _, e, e', h, hs => by
    simp only [nodes, bind_run] at h
    obtain ⟨_, e₁, first, second⟩ := h
    have hn := node_emitted n first hs
    exact hn.append (nodes_emitted ns second (hn.scope.trans hs))

/-- Emitting arguments appends their layouts, each one register further up. -/
theorem arguments_emitted : ∀ (args : List Node) {s : Scope} {e e' : Emitter},
    (arguments args).run e = .ok () e' → e.scope = s →
      Emitted (Node.layoutArguments s args) args.length e e'
  | [], _, _, _, h, hs => by
    simp only [arguments, pure_run] at h
    obtain ⟨-, rfl⟩ := h
    exact .silent _
  | arg :: args, _, e, e', h, hs => by
    simp only [arguments, bind_run, raise_run] at h
    obtain ⟨_, _, rfl, _, e₁, first, second⟩ := h
    have ha := node_emitted arg first hs
    exact (ha.append (arguments_emitted args second (ha.scope.trans hs))).raised

end

mutual

/-- Only supported trees can be emitted. -/
theorem node_supported : ∀ (n : Node) {e e' : Emitter}, (node n).run e = .ok () e' → n.Supported
  | .integer _, _, _, _ | .string _, _, _, _ | .atom _, _, _, _ | .boolean _, _, _, _
  | .nil, _, _, _ | .lambda .., _, _, _ | .comment _, _, _, _ => trivial
  | .var _ binding, _, _, h => read_bound h
  | .operator name left right, _, _, h => by
    simp only [node, bind_run] at h
    obtain ⟨_, _, first, _, _, _, _, _, second, _⟩ := h
    exact ⟨node_supported left first, node_supported right second⟩
  | .call method receiver args, _, _, h => by
    simp only [node, bind_run] at h
    obtain ⟨_, _, first, _, _, _, _, _, second, _⟩ := h
    exact ⟨node_supported receiver first, arguments_supported args second⟩
  | .invoke name args binding, _, _, h => by
    simp only [node, bind_run] at h
    obtain ⟨_, _, first, _, _, _, _, _, second, _⟩ := h
    exact ⟨read_bound first, arguments_supported args second⟩
  | .block [], _, _, _ => trivial
  | .block (item :: items), _, _, h => by
    simp only [node, bind_run] at h
    obtain ⟨_, _, first, second⟩ := h
    exact ⟨node_supported item first, nodes_supported items second⟩
  | .conditional condition body, _, _, h => by
    simp only [node, bind_run] at h
    obtain ⟨_, _, first, _, _, _, _, _, _, _, _, _, _, _, second, _⟩ := h
    exact ⟨node_supported condition first, node_supported body second⟩
  | .loop condition body, _, _, h => by
    simp only [node, bind_run] at h
    obtain ⟨_, _, _, _, _, first, _, _, _, _, _, _, _, _, _, _, _, second, _⟩ := h
    exact ⟨node_supported condition first, node_supported body second⟩
  | .step _ _, _, _, h => step_run h
  | .assign name value binding, _, _, h => by
    simp only [node, bind_run] at h
    obtain ⟨_, _, first, second⟩ := h
    exact ⟨assign_bound second, node_supported value first⟩
  | .instanceVar _, _, _, h | .attr .., _, _, h | .attrAssign .., _, _, h
  | .importPath _, _, _, h | .definition .., _, _, h | .classDef .., _, _, h
  | .has .., _, _, h => by simp only [node, throw_run] at h

/-- Trees of which the emission succeeds have code. -/
theorem nodes_supported :
    ∀ (ns : List Node) {e e' : Emitter}, (nodes ns).run e = .ok () e' → Node.SupportedAll ns
  | [], _, _, _ => trivial
  | n :: ns, _, _, h => by
    simp only [nodes, bind_run] at h
    obtain ⟨_, _, first, second⟩ := h
    exact ⟨node_supported n first, nodes_supported ns second⟩

/-- Arguments of which the emission succeeds have code. -/
theorem arguments_supported :
    ∀ (args : List Node) {e e' : Emitter}, (arguments args).run e = .ok () e' →
      Node.SupportedAll args
  | [], _, _, _ => trivial
  | arg :: args, _, _, h => by
    simp only [arguments, bind_run] at h
    obtain ⟨_, _, _, _, _, first, second⟩ := h
    exact ⟨node_supported arg first, arguments_supported args second⟩

end

end Emit

end ClosureLang
