import ClosureLang.Proofs.Compile.Segments
import ClosureLang.Proofs.Machine.Correctness
import ClosureLang.Proofs.Scope.Registers

/-!
# Compiled units are well-formed

A machine takes the operands of an instruction as they are. In the units of a compiled program that
is safe: every operand names something that is there, branches and jumps lead to instructions of the
unit, closures are made of the inner units one after the other and get cells that the inner units
have, and the unit returns at its end and nowhere else.

The code of a tree is a segment, whatever tree it is and wherever it stands (`Piece.Stands`). The
proof follows the tree; how many registers above the stack position there have to be is known from
the layout. That it is a segment covers the branches as well: those of a segment lead to places in
it or to its end, and never to an operand after the making of a closure, which is no instruction
although it looks like one.

For the operands it takes what is known of the scope. Registers of variables are not above the first
temporary, even if parameters are repeated (`Scope.Bounded`), and every unit has at least one
register more than that. Cells are those of the scope, and every literal that the layout names is in
the table of the unit. The unit itself is made of the prologue, the segment of its body and the
return, so the last position is never one to which something leads by accident: a branch to the end
of the body is a branch to the return.
-/

set_option autoImplicit false

namespace ClosureLang

/-- At position `pos` of a unit there is an operand of the making of a closure. -/
def Code.Operand (c : Code) (pos : Nat) : Prop := Spans c.instructions.toList pos

/-- A machine can run the unit without checking operands. -/
structure Code.WellFormed (c : Code) : Prop where
  register_lt : ∀ i ∈ c.instructions, ∀ r ∈ i.registers, r < c.numRegisters
  slot_lt : ∀ i ∈ c.instructions, ∀ slot ∈ i.slot?, slot < c.numRefs
  literal_lt : ∀ i ∈ c.instructions, ∀ literal ∈ i.literal?, literal < c.literals.length
  /-- The makings of closures number the inner units, and leave none out. -/
  made : c.instructions.toList.filterMap Instruction.madeUnit? = List.range c.units.length
  /-- A closure gets as many cells as it says, and the operands for them end there. -/
  operands : ∀ pos dst arity refs unit,
    c.instructions[pos]? = some (.createLambda dst arity refs unit) →
      (∀ j < refs, ∃ slot, c.instructions[pos + 1 + j]? = some (.readCell 0 slot)) ∧
        ¬ c.Operand (pos + 1 + refs) ∧ ∃ inner, c.units[unit]? = some inner ∧ refs ≤ inner.numRefs
  forward : ∀ (pos cond target : Nat),
    c.instructions[pos]? = some (.branchUnless cond target) → pos < target
  backward : ∀ (pos target : Nat), c.instructions[pos]? = some (.jump target) → target < pos
  target_lt : ∀ i ∈ c.instructions, ∀ target ∈ i.target?,
    target < c.instructions.size ∧ ¬ c.Operand target
  returns : ∃ last src, c.instructions[last]? = some (.ret src) ∧ last + 1 = c.instructions.size ∧
    ∀ pos src', c.instructions[pos]? = some (.ret src') → pos = last

/-! ## The instructions of a tree -/

/-- A text that has a number has one below the size of the table. -/
theorem NameTable.number_lt {t : NameTable} {text : String} (h : text ∈ t) :
    t.number text < t.size := by
  obtain ⟨i, found⟩ := exists_index? h
  rw [number, found]
  exact index?_lt found

namespace Instruction

variable {registers refs literals top : Nat}

/-- The registers of a receiver and its arguments are there if the last one of them is. -/
theorem window_lt {argc : Nat} (h : top + argc < registers) :
    ∀ r ∈ List.range' top (argc + 1) ++ [top], r < registers := by
  intro r hr
  rcases List.mem_append.mp hr with hr | hr
  · have := List.mem_range'_1.mp hr
    omega
  · have := List.mem_singleton.mp hr
    omega

/-- Storing a value names the register at the stack position, and a literal if the value is a string
or an atom. -/
theorem within_store {value : Immediate} (h : top < registers)
    (text : ∀ literal ∈ (store top value).literal?, literal < literals) :
    (store top value).Within registers refs literals :=
  ⟨fun _ hr => List.mem_singleton.mp hr ▸ h, nofun, text⟩

theorem within_readRegister {index : Nat} (h : top < registers) (h' : index < registers) :
    (readRegister top index).Within registers refs literals := by
  refine ⟨fun r hr => ?_, nofun, nofun⟩
  rcases List.mem_cons.mp hr with rfl | hr
  · exact h'
  · exact List.mem_singleton.mp hr ▸ h

theorem within_storeRegister {index : Nat} (h : top < registers) (h' : index < registers) :
    (storeRegister index top).Within registers refs literals := by
  refine ⟨fun r hr => ?_, nofun, nofun⟩
  rcases List.mem_cons.mp hr with rfl | hr
  · exact h
  · exact List.mem_singleton.mp hr ▸ h'

theorem within_readCell {slot : Nat} (h : top < registers) (h' : slot < refs) :
    (readCell top slot).Within registers refs literals :=
  ⟨fun _ hr => List.mem_singleton.mp hr ▸ h, fun _ hs => Option.some.inj hs ▸ h', nofun⟩

theorem within_storeCell {slot : Nat} (h : top < registers) (h' : slot < refs) :
    (storeCell slot top).Within registers refs literals :=
  ⟨fun _ hr => List.mem_singleton.mp hr ▸ h, fun _ hs => Option.some.inj hs ▸ h', nofun⟩

/-- A step reads and writes the register of its variable and names its symbol. -/
theorem within_callPlain {index literal : Nat} (h : index < registers) (h' : literal < literals) :
    (callPlain index index literal).Within registers refs literals := by
  refine ⟨fun r hr => ?_, nofun, fun _ hl => Option.some.inj hl ▸ h'⟩
  rcases List.mem_cons.mp hr with rfl | hr
  · exact h
  · exact List.mem_singleton.mp hr ▸ h

/-- An operator takes its operands from the stack position and the register after it. -/
theorem within_callOperator {literal : Nat} (h : top + 1 < registers) (h' : literal < literals) :
    (callOperator top top literal).Within registers refs literals :=
  ⟨window_lt h, nofun, fun _ hl => Option.some.inj hl ▸ h'⟩

/-- A call takes its receiver from the stack position and its arguments from the registers after
it. -/
theorem within_callMethod {argc literal : Nat} (h : top + argc < registers)
    (h' : literal < literals) :
    (callMethod top top argc literal).Within registers refs literals :=
  ⟨window_lt h, nofun, fun _ hl => Option.some.inj hl ▸ h'⟩

/-- The same for the call of a closure, which names no method. -/
theorem within_invoke {argc : Nat} (h : top + argc < registers) :
    (invoke top top argc).Within registers refs literals :=
  ⟨window_lt h, nofun, nofun⟩

end Instruction

/-! ## Pieces are segments -/

/-- Wherever the piece stands in a unit with scope `s`, it is a segment, if there are `room`
registers above the stack position. -/
def Piece.Stands (s : Scope) (room : Nat) (p : Piece) : Prop :=
  ∀ (table : NameTable) (top start unit : Nat), (∀ text ∈ p.texts, text ∈ table) →
    s.numLocals ≤ top →
      Segment (top + room + 1) s.numRefs table.size (fun _ => False) start
        (p.code table top start unit)

namespace Piece.Stands

variable {s : Scope} {room : Nat} {p q : Piece}

/-- No code is a segment anywhere. -/
theorem silent (s : Scope) (room : Nat) : (silent []).Stands s room := fun _ _ _ _ _ _ => .nil

/-- An instruction that always goes on to the next one is a segment by itself, if what it names is
there wherever it stands. -/
theorem instruction {i : Nat → Instruction} (plain : ∀ top, (i top).isPlain = true)
    (within : ∀ top literals, s.numLocals ≤ top →
      (i top).Within (top + room + 1) s.numRefs literals) :
    (instruction i).Stands s room := fun table top _ _ _ above =>
  .plain (within top table.size above) (plain top)

/-- The same for one that names a text, given that the table has the text. -/
theorem naming {text : String} {i : Nat → Nat → Instruction}
    (plain : ∀ top number, (i top number).isPlain = true)
    (within : ∀ top number literals, s.numLocals ≤ top → number < literals →
      (i top number).Within (top + room + 1) s.numRefs literals) :
    (naming text i).Stands s room := fun table top _ _ texts above =>
  .plain (within top _ table.size above (NameTable.number_lt (texts text List.mem_cons_self)))
    (plain top _)

/-- Two pieces are a segment together, since the first one is left at its end. -/
theorem append (sized : p.Sized) (h : p.Stands s room) (h' : q.Stands s room) :
    (p ++ q).Stands s room := by
  intro table top start unit texts above
  have first := h table top start unit (fun t ht => texts t (List.mem_append_left _ ht)) above
  have second := h' table top (start + p.size) (unit + p.lambdas.length)
    (fun t ht => texts t (List.mem_append_right _ ht)) above
  rw [code_append]
  exact first.append (by rwa [sized])

/-- A piece that stands one register further up needs one more register. -/
theorem raised (h : p.Stands s room) : p.raised.Stands s (room + 1) := by
  intro table top start unit texts above
  have inner := h table (top + 1) start unit texts (Nat.le_succ_of_le above)
  have same : top + (room + 1) + 1 = top + 1 + room + 1 := by omega
  rw [same]
  exact inner

/-- A condition is a segment: its branch leads forward to its end. -/
theorem conditional (sized : p.Sized) (sized' : q.Sized) (h : p.Stands s room)
    (h' : q.Stands s room) : (conditional p q).Stands s room := by
  intro table top start unit texts above
  have first := h table top start unit (fun t ht => texts t (List.mem_append_left _ ht)) above
  have second := h' table top (start + (p.size + 1)) (unit + p.lambdas.length)
    (fun t ht => texts t (List.mem_append_right _ ht)) above
  have size : ((Piece.conditional p q).code table top start unit).length = p.size + 1 + q.size :=
    sized.conditional sized' ..
  refine Segment.enclosed (first.mono nofun |>.append ?_)
  rw [size, sized]
  have branch := @Segment.branch (top + room + 1) s.numRefs table.size
    (fun t => t = start ∨ t = start + (p.size + 1 + q.size)) (start + p.size) top
    (start + (p.size + 1 + q.size)) (by omega) (.inr rfl) (by omega)
  exact branch.append (second.mono nofun)

/-- A loop is a segment: its jump leads back to its beginning. Inside, the beginning and the end are
exits of the parts. -/
theorem loop (sized : p.Sized) (sized' : q.Sized) (h : p.Stands s room)
    (h' : q.Stands s room) : (loop p q).Stands s room := by
  intro table top start unit texts above
  have first := h table top start unit (fun t ht => texts t (List.mem_append_left _ ht)) above
  have second := h' table top (start + (p.size + 1)) (unit + p.lambdas.length)
    (fun t ht => texts t (List.mem_append_right _ ht)) above
  have size : ((Piece.loop p q).code table top start unit).length = p.size + 1 + q.size + 1 :=
    sized.loop sized' ..
  refine Segment.enclosed (first.mono nofun |>.append ?_)
  rw [size, sized]
  have branch := @Segment.branch (top + room + 1) s.numRefs table.size
    (fun t => t = start ∨ t = start + (p.size + 1 + q.size + 1)) (start + p.size) top
    (start + (p.size + 1 + q.size + 1)) (by omega) (.inr rfl) (by omega)
  have back := @Segment.jump (top + room + 1) s.numRefs table.size
    (fun t => t = start ∨ t = start + (p.size + 1 + q.size + 1))
    (start + (p.size + 1) + q.size) start (.inl rfl) (by omega)
  exact branch.append ((second.mono nofun).append (by rwa [sized']))

/-- The making of a closure is a segment of its own, operands included. -/
theorem closure (s : Scope) (room : Nat) (l : Lambda) : (closure s l).Stands s room := by
  intro table top start unit _ _
  refine Segment.closure (by omega) fun slot mem => ?_
  obtain ⟨name, -, found⟩ := List.mem_filterMap.mp mem
  exact NameTable.index?_lt found

end Piece.Stands

section names

variable {s : Scope} {room : Nat} {name : String} {binding : Option Binding}

/-- The reading of a name is a segment wherever the scope has a place for the name. -/
theorem read_stands (bounded : s.Bounded) (bound : binding = s.binding? name) :
    (Piece.read binding).Stands s room := by
  rcases binding with _ | index | slot
  · exact .silent s room
  · have le := bounded.register?_le (s.register?_of_binding bound.symm).2
    exact .instruction (fun _ => rfl) fun top _ above =>
      Instruction.within_readRegister (by omega) (by omega)
  · have lt := NameTable.index?_lt (s.slot?_of_binding bound.symm)
    exact .instruction (fun _ => rfl) fun top _ above =>
      Instruction.within_readCell (by omega) lt

/-- The assignment of a name is a segment wherever the scope has a place for the name. -/
theorem assign_stands (bounded : s.Bounded) (bound : binding = s.binding? name) :
    (Piece.assign binding).Stands s room := by
  rcases binding with _ | index | slot
  · exact .silent s room
  · have le := bounded.register?_le (s.register?_of_binding bound.symm).2
    exact .instruction (fun _ => rfl) fun top _ above =>
      Instruction.within_storeRegister (by omega) (by omega)
  · have lt := NameTable.index?_lt (s.slot?_of_binding bound.symm)
    exact .instruction (fun _ => rfl) fun top _ above =>
      Instruction.within_storeCell (by omega) lt

end names

/-- Arguments take one register each. -/
theorem length_le_height_layoutArguments (s : Scope) :
    ∀ args : List Node, args.length ≤ (Node.layoutArguments s args).height := by
  intro args
  induction args with
  | nil => exact Nat.le_refl _
  | cons arg args rest =>
    show args.length + 1 ≤ max (arg.layout s).height (Node.layoutArguments s args).height + 1
    omega

namespace Node

variable {s : Scope}

mutual

/-- The code of a tree is a segment. -/
theorem layout_stands (bounded : s.Bounded) : ∀ {n : Node} {room : Nat}, n.Ready s →
    (n.layout s).height ≤ room → (n.layout s).Stands s room
  | .integer _, _, _, _ | .boolean _, _, _, _ | .nil, _, _, _ =>
    .instruction (fun _ => rfl) fun _ _ _ =>
      Instruction.within_store (by omega) nofun
  | .string _, _, _, _ | .atom _, _, _, _ =>
    .naming (fun _ _ => rfl) fun _ _ _ _ h =>
      Instruction.within_store (by omega) fun _ hl => Option.some.inj hl ▸ h
  | .comment _, room, _, _ => .silent s room
  | .var _ binding, _, h, _ => read_stands bounded h.var.1
  | .lambda params body scope, room, _, _ => .closure s room ⟨params, body, scope⟩
  | .operator _ left right, room, h, le => by
    simp only [layout, Piece.height_append, Piece.raised] at le
    -- the right operand stands one register further up, so there is room for at least one
    obtain ⟨room, rfl⟩ : ∃ room', room = room' + 1 := ⟨room - 1, by omega⟩
    have hl := layout_stands bounded h.operator.1 (show (left.layout s).height ≤ room + 1 by omega)
    have hr := layout_stands bounded h.operator.2 (show (right.layout s).height ≤ room by omega)
    refine (hl.append (layout_sized h.operator.1) hr.raised).append
      ((layout_sized h.operator.1).append (layout_sized h.operator.2).raised) ?_
    exact .naming (fun _ _ => rfl) fun _ _ _ _ text =>
      Instruction.within_callOperator (by omega) text
  | .call _ receiver args, room, h, le => by
    simp only [layout, Piece.height_append] at le
    have enough := length_le_height_layoutArguments s args
    have hr := layout_stands bounded h.call.1 (show (receiver.layout s).height ≤ room by omega)
    have ha := layoutArguments_stands bounded h.call.2
      (show (layoutArguments s args).height ≤ room by omega)
    refine (hr.append (layout_sized h.call.1) ha).append
      ((layout_sized h.call.1).append (layoutArguments_sized h.call.2)) ?_
    exact .naming (fun _ _ => rfl) fun _ _ _ _ text =>
      Instruction.within_callMethod (by omega) text
  | .invoke _ args binding, room, h, le => by
    simp only [layout, Piece.height_append] at le
    have enough := length_le_height_layoutArguments s args
    have hr : (Piece.read binding).Stands s room := read_stands bounded h.invoke.1.1
    have ha := layoutArguments_stands bounded h.invoke.2
      (show (layoutArguments s args).height ≤ room by omega)
    refine (hr.append (.read binding) ha).append
      ((Piece.Sized.read binding).append (layoutArguments_sized h.invoke.2)) ?_
    exact .instruction (fun _ => rfl) fun _ _ _ =>
      Instruction.within_invoke (by omega)
  | .block [], _, _, _ =>
    .instruction (fun _ => rfl) fun _ _ _ =>
      Instruction.within_store (by omega) nofun
  | .block (item :: items), _, h, le => by
    simp only [layout, Piece.height_append] at le
    exact (layout_stands bounded h.block.cons.1 (by omega)).append (layout_sized h.block.cons.1)
      (layoutAll_stands bounded h.block.cons.2 (by omega))
  | .conditional condition body, _, h, le => by
    simp only [layout, Piece.conditional] at le
    exact (layout_stands bounded h.conditional.1 (by omega)).conditional
      (layout_sized h.conditional.1) (layout_sized h.conditional.2)
      (layout_stands bounded h.conditional.2 (by omega))
  | .loop condition body, _, h, le => by
    simp only [layout, Piece.loop] at le
    exact (layout_stands bounded h.loop.1 (by omega)).loop (layout_sized h.loop.1)
      (layout_sized h.loop.2) (layout_stands bounded h.loop.2 (by omega))
  | .step _ _, _, h, _ => by
    obtain ⟨name, index, rfl, bound⟩ := h.step
    have le := bounded.register?_le (s.register?_of_binding bound).2
    exact .naming (fun _ _ => rfl) fun _ _ _ above text =>
      Instruction.within_callPlain (by omega) text
  | .assign _ value binding, _, h, le => by
    simp only [layout, Piece.height_append] at le
    exact (layout_stands bounded h.assign.2 (by omega)).append (layout_sized h.assign.2)
      (assign_stands bounded h.assign.1.1)
  | .instanceVar _, _, h, _ | .attr .., _, h, _ | .attrAssign .., _, h, _ | .importPath _, _, h, _
  | .definition .., _, h, _ | .classDef .., _, h, _ | .has .., _, h, _ => h.supported.elim

/-- The trees of a list need as many registers as the one among them that needs most. -/
theorem layoutAll_stands (bounded : s.Bounded) : ∀ {ns : List Node} {room : Nat},
    ReadyAll s ns → (layoutAll s ns).height ≤ room → (layoutAll s ns).Stands s room
  | [], room, _, _ => .silent s room
  | _ :: _, _, h, le => by
    simp only [layoutAll, Piece.height_append] at le
    exact (layout_stands bounded h.cons.1 (by omega)).append (layout_sized h.cons.1)
      (layoutAll_stands bounded h.cons.2 (by omega))

/-- The same for arguments, of which each stands one register further up. -/
theorem layoutArguments_stands (bounded : s.Bounded) : ∀ {args : List Node} {room : Nat},
    ReadyAll s args → (layoutArguments s args).height ≤ room →
      (layoutArguments s args).Stands s room
  | [], room, _, _ => .silent s room
  | _ :: _, room, h, le => by
    simp only [layoutArguments, Piece.height_append, Piece.raised] at le
    obtain ⟨room, rfl⟩ : ∃ room', room = room' + 1 := ⟨room - 1, by omega⟩
    exact ((layout_stands bounded h.cons.1 (by omega)).append (layout_sized h.cons.1)
      (layoutArguments_stands bounded h.cons.2 (by omega))).raised

end

end Node

/-! ## Units -/

section

variable {c : Code} {is : List Instruction} {src : Nat}

/-- A unit that is a segment and a return is well-formed, if its closures are made in order and get
cells that the inner units have. -/
theorem Code.wellFormed_of_segment (instructions : c.instructions.toList = is ++ [.ret src])
    (segment : Segment c.numRegisters c.numRefs c.literals.length (fun _ => False) 0 is)
    (register : src < c.numRegisters)
    (made : c.instructions.toList.filterMap Instruction.madeUnit? = List.range c.units.length)
    (cells : ∀ (pos dst arity refs unit : Nat),
      c.instructions[pos]? = some (.createLambda dst arity refs unit) →
        ∃ inner, c.units[unit]? = some inner ∧ refs ≤ inner.numRefs) : c.WellFormed := by
  have size : c.instructions.size = is.length + 1 := by
    rw [← Array.length_toList, instructions, List.length_append, List.length_singleton]
  have mem {i : Instruction} (h : i ∈ c.instructions) : i ∈ is ∨ i = .ret src := by
    rw [← Array.mem_toList_iff, instructions, List.mem_append, List.mem_singleton] at h
    exact h
  -- whatever stands in the unit stands in the segment or is the return
  have found {pos : Nat} {i : Instruction} (h : c.instructions[pos]? = some i) :
      is[pos]? = some i ∨ pos = is.length ∧ i = .ret src := by
    rw [← Array.getElem?_toList, instructions] at h
    rcases Nat.lt_or_ge pos is.length with first | second
    · rw [List.getElem?_append_left first] at h
      exact .inl h
    · rw [List.getElem?_append_right second] at h
      obtain ⟨bound, eq⟩ := List.getElem?_eq_some_iff.mp h
      have last : pos - is.length = 0 := Nat.lt_one_iff.mp bound
      exact .inr ⟨by omega, by simpa [last] using eq.symm⟩
  -- the return makes no closure, so it turns no position into an operand
  have free {pos : Nat} (le : pos ≤ is.length) (h : ¬ Spans is pos) : ¬ c.Operand pos := by
    rw [Code.Operand, instructions, spans_append]
    rintro (spans | ⟨pos', rfl, spans⟩)
    · exact h spans
    · obtain rfl : pos' = 0 := by omega
      exact not_spans_zero spans
  exact
    { register_lt := fun i hi r hr => by
        rcases mem hi with hi | rfl
        · exact (segment.within i hi).register_lt r hr
        · exact List.mem_singleton.mp hr ▸ register
      slot_lt := fun i hi slot hs => by
        rcases mem hi with hi | rfl
        · exact (segment.within i hi).slot_lt slot hs
        · cases hs
      literal_lt := fun i hi literal hl => by
        rcases mem hi with hi | rfl
        · exact (segment.within i hi).literal_lt literal hl
        · cases hl
      made := made
      operands := fun pos dst arity refs unit h => by
        obtain making | ⟨-, none⟩ := found h
        · obtain ⟨inside, operand⟩ := segment.operands pos dst arity refs unit making
          refine ⟨fun j hj => ?_, free (by omega) (segment.not_spans_after making),
            cells pos dst arity refs unit h⟩
          obtain ⟨slot, cell⟩ := operand j hj
          refine ⟨slot, ?_⟩
          rw [← Array.getElem?_toList, instructions,
            List.getElem?_append_left (List.getElem?_eq_some_iff.mp cell).1, cell]
        · cases none
      forward := fun pos cond t h => by
        obtain branch | ⟨-, none⟩ := found h
        · have := segment.forward pos cond t branch
          omega
        · cases none
      backward := fun pos t h => by
        obtain jump | ⟨-, none⟩ := found h
        · have := segment.backward pos t jump
          omega
        · cases none
      target_lt := fun i hi t ht => by
        rcases mem hi with hi | rfl
        · obtain none | ⟨j, le, rfl, apart⟩ := segment.lands i hi t ht
          · exact none.elim
          · rw [Nat.zero_add, size]
            exact ⟨Nat.lt_succ_of_le le, free le apart⟩
        · cases ht
      returns := by
        refine ⟨is.length, src, ?_, size.symm, fun pos src' h => ?_⟩
        · rw [← Array.getElem?_toList, instructions, List.getElem?_append_right (Nat.le_refl _),
            Nat.sub_self]
          rfl
        · obtain early | ⟨last, -⟩ := found h
          · cases segment.runs _ (List.mem_of_getElem? early)
          · exact last }

end

namespace CompiledUnit

variable {u : CompiledUnit}

/-- The instructions of a unit up to its return are a segment. -/
theorem Consistent.segment (h : u.Consistent) : ∃ is,
    u.code.instructions.toList = is ++ [.ret u.scope.numLocals] ∧
      u.scope.numLocals < u.code.numRegisters ∧
        Segment u.code.numRegisters u.code.numRefs u.code.literals.length (fun _ => False) 0
          is := by
  obtain ⟨table, shape⟩ := h.shape
  have bounded : u.scope.Bounded := h.scope ▸ bounded_ofUnit u.params u.body
  refine ⟨_, shape.instructions, by rw [shape.numRegisters]; omega, ?_⟩
  rw [shape.numRegisters, shape.numRefs, shape.literals]
  have moves : ∀ i ∈ Lambda.prologue u.scope,
      i.Within (u.scope.numLocals + (u.body.layout u.scope).height + 1) u.scope.numRefs
        table.entries.length ∧ i.isPlain = true := by
    intro i hi
    obtain ⟨row, mem, rfl⟩ := List.mem_map.mp hi
    have bound := bounded.boxed row mem
    exact ⟨Instruction.within_storeCell (by omega) bound.2, rfl⟩
  have body := Node.layout_stands bounded h.ready (Nat.le_refl _) table u.scope.numLocals
    (Lambda.prologue u.scope).length 0 shape.texts (Nat.le_refl _)
  exact (Segment.plains moves).append (by rwa [Nat.zero_add])

/-- There is one place where closures of a lambda in the unit are made. -/
theorem Consistent.made_once (h : u.Consistent) {l : Lambda} {unit : Nat}
    (lambda : u.body.lambdas[unit]? = some l) : ∃ (pos dst : Nat),
      u.code.instructions[pos]? =
        some (.createLambda dst l.params.length (l.handed u.scope).length unit) ∧
      ∀ (pos' : Nat) i, u.code.instructions[pos']? = some i → i.madeUnit? = some unit →
        pos' = pos := by
  obtain ⟨before, dst, after, code⟩ := h.makes.operands unit l lambda
  rw [Nat.zero_add] at code
  have here : u.code.instructions.toList[before.length]? =
      some (.createLambda dst l.params.length (l.handed u.scope).length unit) := by
    rw [code, List.getElem?_append_right (Nat.le_refl _), Nat.sub_self]
    rfl
  have distinct : (u.code.instructions.toList.filterMap Instruction.madeUnit?).Nodup :=
    h.makes.made ▸ List.nodup_range'
  refine ⟨before.length, dst, Array.getElem?_toList ▸ here, fun pos' i there making => ?_⟩
  rw [← Array.getElem?_toList] at there
  exact position_unique distinct there here making rfl

/-- Where a closure is made, it is made of the lambda with the number of the inner unit, and the
unit hands over the cells for that lambda. -/
theorem Consistent.making (h : u.Consistent) {pos dst arity refs unit : Nat}
    (making : u.code.instructions[pos]? = some (.createLambda dst arity refs unit)) :
    ∃ l, u.body.lambdas[unit]? = some l ∧ arity = l.params.length ∧
      refs = (l.handed u.scope).length := by
  have number : unit ∈ u.code.instructions.toList.filterMap Instruction.madeUnit? :=
    List.mem_filterMap.mpr
      ⟨_, List.mem_of_getElem? (Array.getElem?_toList.symm ▸ making), rfl⟩
  rw [h.makes.made, List.mem_range'_1, Nat.zero_add] at number
  have lambda := List.getElem?_eq_getElem number.2
  obtain ⟨pos', dst', there, once⟩ := h.made_once lambda
  obtain rfl := once pos _ making rfl
  cases making.symm.trans there
  exact ⟨_, lambda, rfl, rfl⟩

/-- A closure gets as many cells as the inner unit receives, so no more than that has. -/
theorem Consistent.cells_le (h : u.Consistent) {pos dst arity refs unit : Nat}
    (making : u.code.instructions[pos]? = some (.createLambda dst arity refs unit)) :
    ∃ inner, u.code.units[unit]? = some inner ∧ refs ≤ inner.numRefs := by
  obtain ⟨table, shape⟩ := h.shape
  obtain ⟨l, lambda, -, rfl⟩ := h.making making
  have makeable := shape.makeable l (List.mem_of_getElem? lambda)
  obtain ⟨inner, emits, scope⟩ := makeable.compiles
  refine ⟨l.unit, by rw [shape.units, List.getElem?_map, lambda]; rfl, ?_⟩
  rw [Lambda.length_handed makeable.supplied]
  simp only [Lambda.unit, emits, Lambda.received, scope, Option.map_some, Option.getD_some]
  exact List.length_take_le' _ _

/-- Every unit that was resolved and emitted is well-formed: its code is the prologue, the segment
of its body and the return. -/
theorem Consistent.wellFormed (h : u.Consistent) : u.code.WellFormed := by
  obtain ⟨is, instructions, register, segment⟩ := h.segment
  obtain ⟨table, shape⟩ := h.shape
  refine Code.wellFormed_of_segment instructions segment register ?_ fun _ _ _ _ _ => h.cells_le
  rw [h.makes.made, shape.units, List.length_map, List.range_eq_range']

end CompiledUnit

/-- **Well-formed code.** Every unit in the code of a program is well-formed, however deep it
stands. -/
theorem compiled_wellFormed {program : Node} {code c : Code}
    (compiled : program.compile.2 = .ok code) (inside : code.Contains c) : c.WellFormed := by
  obtain ⟨u, around, nesting, rfl⟩ := Nesting.of_contains compiled inside
  exact (nesting.consistent u List.mem_cons_self).wellFormed

/-- `x = 1; a => { while x { a = x } }`: the inner unit has a loop, a cell that it receives and
nothing after the loop but the return. -/
theorem loopInClosure_wellFormed :
    let program : Node := .block [.assign "x" (.integer 1) none,
      .lambda ["a"] (.loop (.var "x" none) (.assign "a" (.var "x" none) none)) none]
    let inner : Code := ⟨2, 1, #[.readCell 1 0, .branchUnless 1 5, .readCell 1 0,
      .storeRegister 0 1, .jump 0, .ret 1], [], []⟩
    let code : Code := ⟨1, 1, #[.store 0 (.int 1), .storeCell 0 0, .createLambda 0 1 1 0,
      .readCell 0 0, .ret 0], [], [inner]⟩
    program.compile.2 = .ok code ∧ code.Contains inner ∧ inner.WellFormed := by
  intro program inner code
  have compiled : program.compile.2 = .ok code := rfl
  have inside : code.Contains inner := .inside .self List.mem_cons_self
  exact ⟨compiled, inside, compiled_wellFormed compiled inside⟩

end ClosureLang
