import ClosureLang.Proofs.Compile.WellFormed

/-!
# How many registers a unit needs

A unit says how many registers its frame has. The number comes from the stack position alone, which
is moved up before an operand is emitted, while registers are named in other places, too: as
variables, as the arguments next to a receiver, as the moves at the beginning. It is right
nevertheless, and never too large: the register below it is named by an instruction of the unit.

That it is large enough is known from well-formedness. That it is not too large needs an
instruction. The stack position is moved up for operands only, and the call that takes the operands
names the last of them. So a piece uses all of its height, apart from the operands that it leaves to
a call after it; this is what the pieces of a tree keep (`Piece.Reaches`). Arguments by themselves
leave as many as there are of them, and the call after them leaves none. A whole tree leaves
nothing, and if its height is zero the return names the register at the stack position.

Registers that are implied count as named: a call names its receiver and, by their number, the
registers of its arguments. The operands after the making of a closure do not count, although they
look like readings to register 0.
-/

set_option autoImplicit false

namespace ClosureLang

/-- An instruction of the unit reads or writes the register. The operands after the making of a
closure are no instructions in this sense. -/
def Code.Uses (c : Code) (r : Nat) : Prop :=
  ∃ (pos : Nat) (i : Instruction), c.instructions[pos]? = some i ∧ ¬ c.Operand pos ∧
    r ∈ i.registers

/-! ## Pieces use their height -/

/-- Wherever the piece stands, an instruction of it names the highest register that belongs to the
piece, unless that is one of the first `left` registers above the stack position. -/
def Piece.Reaches (left : Nat) (p : Piece) : Prop :=
  p.height ≤ left ∨ ∀ (table : NameTable) (top start unit : Nat),
    ∃ i ∈ p.code table top start unit, top + p.height ∈ i.registers

namespace Piece.Reaches

variable {left : Nat} {p q : Piece}

/-- A piece that needs no register above the stack position leaves none unused. -/
theorem flat (h : p.height = 0) (left : Nat) : p.Reaches left :=
  .inl (h ▸ Nat.zero_le left)

/-- A piece may leave more than it does to the call after it. -/
theorem mono {more : Nat} (h : p.Reaches left) (le : left ≤ more) : p.Reaches more :=
  h.imp_left fun low => Nat.le_trans low le

/-- If a piece has the height of one of its parts and the code of that part, it reaches as far. -/
theorem of_part (h : p.Reaches left) (height : q.height = p.height)
    (part : ∀ table top start unit, ∃ start' unit',
      p.code table top start' unit' ⊆ q.code table top start unit) : q.Reaches left := by
  refine h.imp (fun low => height ▸ low) fun reached table top start unit => ?_
  obtain ⟨start', unit', sub⟩ := part table top start unit
  obtain ⟨i, mem, names⟩ := reached table top start' unit'
  exact ⟨i, sub mem, height ▸ names⟩

/-- Of two parts the higher one decides. -/
theorem of_parts {whole : Piece} (h : p.Reaches left) (h' : q.Reaches left)
    (height : whole.height = max p.height q.height)
    (first : ∀ table top start unit, ∃ start' unit',
      p.code table top start' unit' ⊆ whole.code table top start unit)
    (second : ∀ table top start unit, ∃ start' unit',
      q.code table top start' unit' ⊆ whole.code table top start unit) : whole.Reaches left := by
  rcases Nat.le_total q.height p.height with le | le
  · exact h.of_part (height.trans (Nat.max_eq_left le)) first
  · exact h'.of_part (height.trans (Nat.max_eq_right le)) second

/-- Two pieces at the same stack position are as high as the higher one, which uses its height. -/
theorem append (h : p.Reaches left) (h' : q.Reaches left) : (p ++ q).Reaches left :=
  h.of_parts h' rfl
    (fun _ _ start unit => ⟨start, unit, List.subset_append_left ..⟩)
    (fun _ _ _ _ => ⟨_, _, List.subset_append_right ..⟩)

/-- The same for a condition, whose branch needs no register of its own height. -/
theorem conditional (h : p.Reaches left) (h' : q.Reaches left) :
    (conditional p q).Reaches left :=
  h.of_parts h' rfl
    (fun _ _ start unit => ⟨start, unit, List.subset_append_left ..⟩)
    (fun _ _ _ _ => ⟨_, _, List.subset_append_of_subset_right _ (List.subset_cons_self ..)⟩)

/-- The same for a loop. -/
theorem loop (h : p.Reaches left) (h' : q.Reaches left) : (loop p q).Reaches left :=
  h.of_parts h' rfl
    (fun _ _ start unit => ⟨start, unit, List.subset_append_left ..⟩)
    (fun _ _ _ _ => ⟨_, _, List.subset_append_of_subset_right _
      (List.subset_cons_of_subset _ (List.subset_append_left ..))⟩)

/-- In a piece that is raised the registers are one further up, so one more is left to the call. -/
theorem raised (h : p.Reaches left) : p.raised.Reaches (left + 1) := by
  refine h.imp Nat.succ_le_succ fun reached table top start unit => ?_
  obtain ⟨i, mem, names⟩ := reached table (top + 1) start unit
  have same : top + (p.height + 1) = top + 1 + p.height := by omega
  exact ⟨i, mem, same ▸ names⟩

/-- An instruction that names the last of the registers that are left completes the piece. -/
theorem complete (h : p.Reaches left) (le : left ≤ p.height) (flat : q.height = 0)
    (names : ∀ table top start unit, ∃ i ∈ q.code table top start unit,
      top + left ∈ i.registers) : (p ++ q).Reaches 0 := by
  have height : (p ++ q).height = p.height := by
    rw [height_append, flat, Nat.max_zero]
  refine .inr fun table top start unit => ?_
  rw [height, code_append]
  rcases h with low | reached
  · obtain ⟨i, mem, named⟩ := names table top (start + p.size) (unit + p.lambdas.length)
    exact ⟨i, List.mem_append_right _ mem, Nat.le_antisymm low le ▸ named⟩
  · obtain ⟨i, mem, named⟩ := reached table top start unit
    exact ⟨i, List.mem_append_left _ mem, named⟩

/-- Reading a name needs the register at the stack position only. -/
theorem read (binding : Option Binding) (left : Nat) : (read binding).Reaches left := by
  rcases binding with _ | _ | _ <;> exact flat rfl left

/-- Assigning a name needs the register at the stack position only. -/
theorem assign (binding : Option Binding) (left : Nat) : (assign binding).Reaches left := by
  rcases binding with _ | _ | _ <;> exact flat rfl left

/-- A step needs no register above the stack position, since it works in the register of its
variable. -/
theorem step (direction : Step) (operand : Node) (left : Nat) :
    (step direction operand).Reaches left := by
  unfold Piece.step
  split <;> exact flat rfl left

end Piece.Reaches

/-- A receiver and its arguments are read, up to the last argument. -/
theorem Instruction.last_mem_window (top argc : Nat) (more : List Nat) :
    top + argc ∈ List.range' top (argc + 1) ++ more :=
  List.mem_append_left _ (List.mem_range'_1.mpr ⟨by omega, by omega⟩)

namespace Node

mutual

/-- The code of a tree uses all of its height. -/
theorem layout_reaches (s : Scope) : ∀ n : Node, (n.layout s).Reaches 0
  | .operator _ left right => by
    have operands := ((layout_reaches s left).mono (Nat.zero_le 1)).append
      (layout_reaches s right).raised
    have one : 1 ≤ (left.layout s ++ (right.layout s).raised).height :=
      Nat.le_trans (Nat.le_add_left 1 _) (Nat.le_max_right ..)
    exact operands.complete one rfl fun _ top _ _ =>
      ⟨_, List.mem_cons_self, Instruction.last_mem_window top 1 _⟩
  | .call _ receiver args => by
    have operands := ((layout_reaches s receiver).mono (Nat.zero_le args.length)).append
      (layoutArguments_reaches s args)
    have enough : args.length ≤ (receiver.layout s ++ layoutArguments s args).height :=
      Nat.le_trans (length_le_height_layoutArguments s args) (Nat.le_max_right ..)
    exact operands.complete enough rfl fun _ top _ _ =>
      ⟨_, List.mem_cons_self, Instruction.last_mem_window top args.length _⟩
  | .invoke _ args binding => by
    have operands := (Piece.Reaches.read binding args.length).append
      (layoutArguments_reaches s args)
    have enough : args.length ≤ (Piece.read binding ++ layoutArguments s args).height :=
      Nat.le_trans (length_le_height_layoutArguments s args) (Nat.le_max_right ..)
    exact operands.complete enough rfl fun _ top _ _ =>
      ⟨_, List.mem_cons_self, Instruction.last_mem_window top args.length _⟩
  | .block (item :: items) => (layout_reaches s item).append (layoutAll_reaches s items)
  | .conditional condition body =>
    (layout_reaches s condition).conditional (layout_reaches s body)
  | .loop condition body => (layout_reaches s condition).loop (layout_reaches s body)
  | .assign _ value binding => (layout_reaches s value).append (.assign binding 0)
  | .var _ binding => .read binding 0
  | .step direction operand => .step direction operand 0
  | .integer _ | .string _ | .atom _ | .boolean _ | .nil | .block [] | .lambda .. | .comment _
  | .instanceVar _ | .attr .. | .attrAssign .. | .importPath _ | .definition .. | .classDef ..
  | .has .. => .flat rfl 0

/-- The trees of a list leave nothing to an instruction after them. -/
theorem layoutAll_reaches (s : Scope) : ∀ ns : List Node, (layoutAll s ns).Reaches 0
  | [] => .flat rfl 0
  | n :: ns => (layout_reaches s n).append (layoutAll_reaches s ns)

/-- The code of arguments leaves the registers of the arguments themselves to the call. -/
theorem layoutArguments_reaches (s : Scope) : ∀ args : List Node,
    (layoutArguments s args).Reaches args.length
  | [] => .flat rfl 0
  | arg :: args => (((layout_reaches s arg).mono (Nat.zero_le args.length)).append
      (layoutArguments_reaches s args)).raised

end

end Node

/-! ## Units -/

/-- An operand of the making of a closure has the form of a reading to the first register. -/
theorem Code.WellFormed.operand {c : Code} (h : c.WellFormed) {pos : Nat}
    (operand : c.Operand pos) :
    ∃ slot, c.instructions[pos]? = some (.readCell 0 slot) := by
  obtain ⟨maker, dst, arity, refs, unit, making, before, until_⟩ := operand
  rw [Array.getElem?_toList] at making
  obtain ⟨slot, cell⟩ :=
    (h.operands maker dst arity refs unit making).1 (pos - maker - 1) (by omega)
  have same : maker + 1 + (pos - maker - 1) = pos := by omega
  exact ⟨slot, same ▸ cell⟩

namespace CompiledUnit

variable {u : CompiledUnit}

/-- The return of a unit reads the first temporary. -/
theorem Consistent.uses_temporary (h : u.Consistent) : u.code.Uses u.scope.numLocals := by
  obtain ⟨is, instructions, -, -⟩ := h.segment
  have here : u.code.instructions[is.length]? = some (.ret u.scope.numLocals) := by
    rw [← Array.getElem?_toList, instructions, List.getElem?_append_right (Nat.le_refl _),
      Nat.sub_self]
    rfl
  refine ⟨is.length, _, here, fun operand => ?_, List.mem_cons_self⟩
  obtain ⟨slot, cell⟩ := h.wellFormed.operand operand
  cases here.symm.trans cell

/-- The highest register that belongs to the body of a unit is used. -/
theorem Consistent.uses_highest (h : u.Consistent) :
    u.code.Uses (u.scope.numLocals + (u.body.layout u.scope).height) := by
  by_cases flat : (u.body.layout u.scope).height = 0
  · rw [flat]
    exact h.uses_temporary
  have reached := (u.body.layout_reaches u.scope).resolve_left (by omega)
  obtain ⟨table, shape⟩ := h.shape
  obtain ⟨i, mem, names⟩ := reached table u.scope.numLocals (Lambda.prologue u.scope).length 0
  have inside : i ∈ u.code.instructions.toList := by
    rw [shape.instructions]
    exact List.mem_append_left _ (List.mem_append_right _ mem)
  obtain ⟨pos, here⟩ := List.mem_iff_getElem?.mp inside
  rw [Array.getElem?_toList] at here
  refine ⟨pos, i, here, fun operand => ?_, names⟩
  -- an operand names the first register only, and this one is above the stack position
  obtain ⟨slot, cell⟩ := h.wellFormed.operand operand
  cases here.symm.trans cell
  have first := List.mem_singleton.mp names
  omega

/-- The greatest register that an instruction of the unit uses is as far above the variables as the
body is high. -/
theorem Consistent.isGreatest (h : u.Consistent) : IsGreatest {r | u.code.Uses r}
    (u.scope.numLocals + (u.body.layout u.scope).height) := by
  obtain ⟨table, shape⟩ := h.shape
  refine ⟨h.uses_highest, fun r ⟨pos, i, here, _, names⟩ => ?_⟩
  have below := h.wellFormed.register_lt i (Array.mem_of_getElem? here) r names
  rw [shape.numRegisters] at below
  exact Nat.le_of_lt_succ below

end CompiledUnit

/-- **Register capacity is exact.** In the code of a program, every unit has one register more than
the number of the highest register that an instruction of the unit reads or writes, with all the
registers of its arguments. -/
theorem registers_exact {program : Node} {code c : Code} (compiled : program.compile.2 = .ok code)
    (inside : code.Contains c) :
    ∃ highest, IsGreatest {r | c.Uses r} highest ∧ c.numRegisters = highest + 1 := by
  obtain ⟨u, around, nesting, rfl⟩ := Nesting.of_contains compiled inside
  have consistent := nesting.consistent u List.mem_cons_self
  obtain ⟨table, shape⟩ := consistent.shape
  exact ⟨_, consistent.isGreatest, shape.numRegisters⟩

/-- `f = (x, x) => x.at(1, 2 + x)`: the repeated parameter lives in register 1, which is the first
temporary, too, and the sum goes two registers further up. -/
theorem repeatedParameter_capacity :
    let x : Node := .var "x" none
    let program : Node := .assign "f" (.lambda ["x", "x"]
      (.call "at" x [.integer 1, .operator "+" (.integer 2) x]) none) none
    let inner : Code := ⟨5, 0, #[.readRegister 1 1, .store 2 (.int 1), .store 3 (.int 2),
      .readRegister 4 1, .callOperator 3 3 0, .callMethod 1 1 2 1, .ret 1], ["+", "at"], []⟩
    let code : Code := ⟨2, 0, #[.createLambda 1 2 0 0, .storeRegister 0 1, .ret 1], [], [inner]⟩
    program.compile.2 = .ok code ∧ code.Contains inner ∧
      ∃ highest, IsGreatest {r | inner.Uses r} highest ∧ inner.numRegisters = highest + 1 := by
  intro x program inner code
  have compiled : program.compile.2 = .ok code := by decide +kernel
  have inside : code.Contains inner := .inside .self List.mem_cons_self
  exact ⟨compiled, inside, registers_exact compiled inside⟩

end ClosureLang
