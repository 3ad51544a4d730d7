import ClosureLang.Proofs.Compile.Layout
import ClosureLang.Proofs.Machine.Basic

/-!
# Code in its place

A piece is placed in a unit if its instructions stand at its position, its literals are literals of
the unit and its lambdas are inner units of it. A placed piece consists of placed pieces, each at
the position that the sizes of those before it add up to; for that the sizes have to be right, which
they are in trees that can be compiled.

So there is one lemma for each way in which pieces are put together, which takes a placed piece
apart: `Placed.append`, `raised`, `conditional` and `loop`, and `instruction`, `naming` and
`closure` for the smallest ones, from which the instruction itself is read off. Code is followed by
these alone; nothing else is known of where an instruction stands.

`Node.Ready` is what a tree in a unit brings along: it has instructions, its names are bound in the
scope of the unit, and the unit has a cell for everything that a lambda in the tree receives. Each
node hands it on to its parts. The size of a piece is given with it and not computed from its code,
since the code depends on sizes; `Piece.Sized` says that it is right, for any literals and any
place.
-/

set_option autoImplicit false

namespace ClosureLang

/-! ## Trees that can be compiled -/

/-- The tree can be compiled in a unit with scope `s`: there are instructions for it, its names are
bound in the scope, and there are cells for what its lambdas receive. -/
structure Node.Ready (s : Scope) (n : Node) : Prop where
  supported : n.Supported
  bound : ∀ o ∈ n.occurrences, o.binding = s.binding? o.name
  supplied : ∀ l ∈ n.lambdas, ∀ name ∈ l.received, ∃ slot, s.slot? name = some slot

/-- The trees of a list can be compiled in a unit with scope `s`. -/
structure Node.ReadyAll (s : Scope) (ns : List Node) : Prop where
  supported : Node.SupportedAll ns
  bound : ∀ o ∈ Node.occurrencesAll ns, o.binding = s.binding? o.name
  supplied : ∀ l ∈ Node.lambdasAll ns, ∀ name ∈ l.received, ∃ slot, s.slot? name = some slot

namespace Node

variable {s : Scope} {name : String} {binding : Option Binding} {n left right : Node}
  {ns : List Node}

/-- In a list that can be compiled, the first tree can be compiled, and so can the list of the
others. -/
theorem ReadyAll.cons (h : ReadyAll s (n :: ns)) : n.Ready s ∧ ReadyAll s ns :=
  ⟨⟨h.supported.1, fun o ho => h.bound o (List.mem_append_left _ ho),
      fun l hl => h.supplied l (List.mem_append_left _ hl)⟩,
    ⟨h.supported.2, fun o ho => h.bound o (List.mem_append_right _ ho),
      fun l hl => h.supplied l (List.mem_append_right _ hl)⟩⟩

namespace Ready

/-- The place attached to a variable is the one that the scope has for it, and there is one. -/
theorem var (h : (Node.var name binding).Ready s) : binding = s.binding? name ∧ binding ≠ none :=
  ⟨h.bound ⟨name, binding, false⟩ List.mem_cons_self, h.supported⟩

/-- What an operator needs, its operands have. -/
theorem operator (h : (Node.operator name left right).Ready s) : left.Ready s ∧ right.Ready s :=
  ⟨⟨h.supported.1, fun o ho => h.bound o (List.mem_append_left _ ho),
      fun l hl => h.supplied l (List.mem_append_left _ hl)⟩,
    ⟨h.supported.2, fun o ho => h.bound o (List.mem_append_right _ ho),
      fun l hl => h.supplied l (List.mem_append_right _ hl)⟩⟩

/-- A receiver can be compiled, and so can the arguments. -/
theorem call (h : (Node.call name n ns).Ready s) : n.Ready s ∧ ReadyAll s ns :=
  ⟨⟨h.supported.1, fun o ho => h.bound o (List.mem_append_left _ ho),
      fun l hl => h.supplied l (List.mem_append_left _ hl)⟩,
    ⟨h.supported.2, fun o ho => h.bound o (List.mem_append_right _ ho),
      fun l hl => h.supplied l (List.mem_append_right _ hl)⟩⟩

/-- The callee is a variable with a place in the scope, and the arguments can be compiled. -/
theorem invoke (h : (Node.invoke name ns binding).Ready s) :
    (binding = s.binding? name ∧ binding ≠ none) ∧ ReadyAll s ns :=
  ⟨⟨h.bound ⟨name, binding, false⟩ List.mem_cons_self, h.supported.1⟩,
    ⟨h.supported.2, fun o ho => h.bound o (List.mem_cons_of_mem _ ho), h.supplied⟩⟩

theorem block (h : (Node.block ns).Ready s) : ReadyAll s ns := ⟨h.supported, h.bound, h.supplied⟩

/-- A condition can be compiled on its own, and so can its body. -/
theorem conditional (h : (Node.conditional left right).Ready s) : left.Ready s ∧ right.Ready s :=
  @operator s "" left right ⟨h.supported, h.bound, h.supplied⟩

theorem loop (h : (Node.loop left right).Ready s) : left.Ready s ∧ right.Ready s :=
  @operator s "" left right ⟨h.supported, h.bound, h.supplied⟩

/-- The assigned name has a place in the scope, and the value can be compiled. -/
theorem assign (h : (Node.assign name n binding).Ready s) :
    (binding = s.binding? name ∧ binding ≠ none) ∧ n.Ready s :=
  ⟨⟨h.bound ⟨name, binding, true⟩ List.mem_cons_self, h.supported.1⟩,
    ⟨h.supported.2, fun o ho => h.bound o (List.mem_cons_of_mem _ ho), h.supplied⟩⟩

/-- A step that can be compiled is applied to a variable, and the scope has that variable in a
register. -/
theorem step {direction : Step} (h : (Node.step direction n).Ready s) :
    ∃ name index, n = .var name (some (.register index)) ∧
      s.binding? name = some (.register index) := by
  obtain ⟨name, index, rfl⟩ := h.supported
  exact ⟨name, index, rfl, (h.bound ⟨name, some (.register index), false⟩ List.mem_cons_self).symm⟩

end Ready

end Node

/-! ## Sizes -/

/-- The piece has as many instructions as it says. -/
def Piece.Sized (p : Piece) : Prop :=
  ∀ table top start unit, (p.code table top start unit).length = p.size

namespace Piece.Sized

variable {p q : Piece}

/-- Sizes add up. -/
theorem append (h : p.Sized) (h' : q.Sized) : (p ++ q).Sized := fun table top start unit => by
  rw [code_append, List.length_append, h, h', size_append]

theorem raised (h : p.Sized) : p.raised.Sized := fun table top start unit =>
  h table (top + 1) start unit

/-- A condition has one instruction more than its parts: the branch over the body. -/
theorem conditional (h : p.Sized) (h' : q.Sized) : (conditional p q).Sized :=
  fun table top start unit => by
    simp only [Piece.conditional, List.length_append, List.length_cons, h table, h' table]
    omega

/-- A loop has two more: the branch out of it and the jump back. -/
theorem loop (h : p.Sized) (h' : q.Sized) : (loop p q).Sized := fun table top start unit => by
  simp only [Piece.loop, List.length_append, List.length_cons, List.length_nil, h table, h' table]
  omega

/-- The reading of a bound name is one instruction; that of an unbound one is none. -/
theorem read (b : Option Binding) : (read b).Sized := by
  rcases b with _ | _ | _ <;> exact fun _ _ _ _ => rfl

/-- An assignment is one instruction if the name is bound, and none otherwise. -/
theorem assign (b : Option Binding) : (assign b).Sized := by
  rcases b with _ | _ | _ <;> exact fun _ _ _ _ => rfl

end Piece.Sized

namespace Node

variable {s : Scope}

mutual

theorem layout_sized : ∀ {n : Node}, n.Ready s → (n.layout s).Sized
  | .integer _, _ | .boolean _, _ | .nil, _ | .string _, _ | .atom _, _ | .comment _, _ =>
    fun _ _ _ _ => rfl
  | .var _ binding, _ => .read binding
  | .lambda params body scope, h => by
    have supplied := h.supplied ⟨params, body, scope⟩ List.mem_cons_self
    intro table top start unit
    simp only [layout, Piece.closure, List.length_cons, List.length_map,
      Lambda.length_handed supplied]
    omega
  | .operator _ left right, h =>
    ((layout_sized h.operator.1).append (layout_sized h.operator.2).raised).append
      fun _ _ _ _ => rfl
  | .call _ receiver args, h =>
    ((layout_sized h.call.1).append (layoutArguments_sized h.call.2)).append fun _ _ _ _ => rfl
  | .invoke _ args binding, h =>
    ((Piece.Sized.read binding).append (layoutArguments_sized h.invoke.2)).append
      fun _ _ _ _ => rfl
  | .block [], _ => fun _ _ _ _ => rfl
  | .block (item :: items), h =>
    (layout_sized h.block.cons.1).append (layoutAll_sized h.block.cons.2)
  | .conditional condition body, h =>
    (layout_sized h.conditional.1).conditional (layout_sized h.conditional.2)
  | .loop condition body, h => (layout_sized h.loop.1).loop (layout_sized h.loop.2)
  | .step _ _, h => by
    obtain ⟨name, index, rfl, -⟩ := h.step
    exact fun _ _ _ _ => rfl
  | .assign _ value binding, h => (layout_sized h.assign.2).append (.assign binding)
  | .instanceVar _, h | .attr .., h | .attrAssign .., h | .importPath _, h | .definition .., h
  | .classDef .., h | .has .., h => h.supported.elim

/-- The same for the trees of a list, one after the other. -/
theorem layoutAll_sized : ∀ {ns : List Node}, ReadyAll s ns → (layoutAll s ns).Sized
  | [], _ => fun _ _ _ _ => rfl
  | _ :: _, h => (layout_sized h.cons.1).append (layoutAll_sized h.cons.2)

/-- The same for arguments, of which each stands one register further up. -/
theorem layoutArguments_sized :
    ∀ {args : List Node}, ReadyAll s args → (layoutArguments s args).Sized
  | [], _ => fun _ _ _ _ => rfl
  | _ :: _, h =>
    ((layout_sized h.cons.1).append (layoutArguments_sized h.cons.2)).raised

end

end Node

/-! ## Placed pieces -/

namespace Code

/-- The instructions stand in the code from `start` on. -/
def Holds (c : Code) (start : Nat) (instructions : List Instruction) : Prop :=
  ∀ k i, instructions[k]? = some i → c.instructions[start + k]? = some i

variable {c : Code} {start : Nat} {is is' : List Instruction} {i : Instruction}

/-- If instructions stand in the code from `start` on, those at their beginning stand there, and the
others stand where these end. -/
theorem Holds.append (h : c.Holds start (is ++ is')) :
    c.Holds start is ∧ c.Holds (start + is.length) is' := by
  refine ⟨fun k i hk => h k i ?_, fun k i hk => ?_⟩
  · rw [List.getElem?_append_left (List.getElem?_eq_some_iff.mp hk).1, hk]
  · rw [Nat.add_assoc]
    refine h _ i ?_
    rw [List.getElem?_append_right (Nat.le_add_right ..), Nat.add_sub_cancel_left, hk]

/-- The first instruction stands at `start`, the others from the next position on. -/
theorem Holds.cons (h : c.Holds start (i :: is)) :
    c.instructions[start]? = some i ∧ c.Holds (start + 1) is :=
  ⟨h 0 i rfl, fun k i hk => by
    rw [Nat.add_assoc, Nat.add_comm 1 k]
    exact h (k + 1) i hk⟩

/-- The operands of the making of a closure are read as they stand. -/
theorem Holds.operands {slots : List Nat} (h : c.Holds start (slots.map (.readCell 0))) :
    c.operands? start slots.length = some slots := by
  induction slots generalizing start with
  | nil => rfl
  | cons slot slots ih =>
    obtain ⟨first, rest⟩ := Holds.cons h
    rw [List.length_cons, operands?, first]
    simp only [ih rest, Option.map_some]

end Code

/-- The piece stands in the code at this stack position, this position and this number of units. -/
structure Piece.Placed (c : Code) (table : NameTable) (p : Piece) (top start unit : Nat) :
    Prop where
  instructions : c.Holds start (p.code table top start unit)
  texts : ∀ text ∈ p.texts, c.literals[table.number text]? = some text
  units : ∀ k l, p.lambdas[k]? = some l → c.units[unit + k]? = some l.unit

namespace Piece.Placed

variable {c : Code} {table : NameTable} {p q : Piece} {top start unit : Nat}

/-- Two pieces that stand in the code share the literals and the inner units. -/
theorem both {start' : Nat} (first : c.Holds start (p.code table top start unit))
    (second : c.Holds start' (q.code table top start' (unit + p.lambdas.length)))
    (texts : ∀ text ∈ p.texts ++ q.texts, c.literals[table.number text]? = some text)
    (units : ∀ k l, (p.lambdas ++ q.lambdas)[k]? = some l → c.units[unit + k]? = some l.unit) :
    p.Placed c table top start unit ∧
      q.Placed c table top start' (unit + p.lambdas.length) := by
  refine ⟨⟨first, fun t ht => texts t (List.mem_append_left _ ht), fun k l hk => units k l ?_⟩,
    second, fun t ht => texts t (List.mem_append_right _ ht), fun k l hk => ?_⟩
  · rw [List.getElem?_append_left (List.getElem?_eq_some_iff.mp hk).1, hk]
  · rw [Nat.add_assoc]
    refine units _ l ?_
    rw [List.getElem?_append_right (Nat.le_add_right ..), Nat.add_sub_cancel_left, hk]

/-- Of two pieces that are placed together, the second one stands behind the first, its inner units
after those of the first. -/
theorem append (sized : p.Sized) (h : (p ++ q).Placed c table top start unit) :
    p.Placed c table top start unit ∧
      q.Placed c table top (start + p.size) (unit + p.lambdas.length) := by
  obtain ⟨first, second⟩ := h.instructions.append
  rw [sized] at second
  exact both first second h.texts h.units

/-- A raised piece that is placed is the piece itself, placed one register further up. -/
theorem raised (h : p.raised.Placed c table top start unit) :
    p.Placed c table (top + 1) start unit :=
  ⟨h.instructions, h.texts, h.units⟩

/-- In a placed condition the branch stands behind the condition and leads to the end of the body,
which stands right after the branch. -/
theorem conditional (sized : p.Sized) (h : (conditional p q).Placed c table top start unit) :
    p.Placed c table top start unit ∧
      c.instructions[start + p.size]? =
        some (.branchUnless top (start + (p.size + 1 + q.size))) ∧
      q.Placed c table top (start + (p.size + 1)) (unit + p.lambdas.length) := by
  obtain ⟨first, rest⟩ := h.instructions.append
  obtain ⟨branch, second⟩ := rest.cons
  rw [sized] at branch second
  obtain ⟨hp, hq⟩ := both first second h.texts h.units
  exact ⟨hp, branch, hq⟩

/-- In a placed loop the branch behind the condition leads out of the loop, and the jump behind the
body leads back to its beginning. -/
theorem loop (sized : p.Sized) (sized' : q.Sized) (h : (loop p q).Placed c table top start unit) :
    p.Placed c table top start unit ∧
      c.instructions[start + p.size]? =
        some (.branchUnless top (start + (p.size + 1 + q.size + 1))) ∧
      q.Placed c table top (start + (p.size + 1)) (unit + p.lambdas.length) ∧
      c.instructions[start + (p.size + 1 + q.size)]? = some (.jump start) := by
  obtain ⟨first, rest⟩ := h.instructions.append
  obtain ⟨branch, second⟩ := rest.cons
  obtain ⟨second, jump⟩ := second.append
  rw [sized] at branch second jump
  rw [sized'] at jump
  obtain ⟨hp, hq⟩ := both first second h.texts h.units
  refine ⟨hp, branch, hq, ?_⟩
  rw [← jump.cons.1]
  congr 1
  omega

/-- A piece of one instruction stands where it is placed. -/
theorem instruction {i : Nat → Instruction}
    (h : (instruction i).Placed c table top start unit) : c.instructions[start]? = some (i top) :=
  h.instructions.cons.1

/-- An instruction that names a text stands where it is placed, and the unit has the text under the
number it names. -/
theorem naming {text : String} {i : Nat → Nat → Instruction}
    (h : (naming text i).Placed c table top start unit) :
    c.instructions[start]? = some (i top (table.number text)) ∧
      c.literals[table.number text]? = some text :=
  ⟨h.instructions.cons.1, h.texts text List.mem_cons_self⟩

/-- In place, the making of a closure stands before its operands, which read back as the cells to
hand over, and the unit has the body of the lambda under the number that it names. -/
theorem closure {s : Scope} {l : Lambda} (h : (closure s l).Placed c table top start unit) :
    c.instructions[start]? =
        some (.createLambda top l.params.length (l.handed s).length unit) ∧
      c.operands? (start + 1) (l.handed s).length = some (l.handed s) ∧
      c.units[unit]? = some l.unit := by
  obtain ⟨first, operands⟩ := h.instructions.cons
  exact ⟨first, operands.operands, h.units 0 l rfl⟩

end Piece.Placed

end ClosureLang
