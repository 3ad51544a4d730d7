import ClosureLang.Proofs.Scope.Resolution

/-!
# Trees that leave a value

The code of most trees leaves a value in the register at the stack position. A comment has no code,
and a step changes a variable in its own register, so neither of them leaves one; a block leaves one
if one of its trees does. Whether the code of a tree works on values alone depends on its operands:
operators, calls and branches use what their operands leave.

`LeavesValue` is about the tree itself, whatever way is taken through it. A condition or a loop
leaves a value if its condition does, because the body may be skipped, and then the value of the
condition stands. An assignment leaves the value that it assigned. `Fed` says of all operands
anywhere in the tree that they leave values, the bodies of lambdas included, which are units of
their own.

Neither depends on annotations. Binding names and resolving lambdas are traversals that change
annotations only, so both facts are shown of traversals once, under the condition that the bodies of
the lambdas, which are annotated in another way, keep theirs.
-/

set_option autoImplicit false

namespace ClosureLang.Node

mutual

/-- The code of the tree leaves a value, whatever way it takes. -/
def LeavesValue : Node → Prop
  | .comment _ | .step .. => False
  | .block [] => True
  | .block (item :: items) => item.LeavesValue ∨ AnyLeavesValue items
  | .conditional condition _ | .loop condition _ => condition.LeavesValue
  | .assign _ value _ => value.LeavesValue
  | _ => True

/-- The code of one of the trees leaves a value. -/
def AnyLeavesValue : List Node → Prop
  | [] => False
  | item :: items => item.LeavesValue ∨ AnyLeavesValue items

end

mutual

/-- Every operand in the tree leaves a value, in the lambdas of the tree too. -/
def Fed : Node → Prop
  | .operator _ left right => (left.LeavesValue ∧ left.Fed) ∧ right.LeavesValue ∧ right.Fed
  | .call _ receiver args => (receiver.LeavesValue ∧ receiver.Fed) ∧ OperandsFed args
  | .invoke _ args _ => OperandsFed args
  | .block items => FedAll items
  | .conditional condition body => (condition.LeavesValue ∧ condition.Fed) ∧ body.Fed
  | .loop condition body => (condition.LeavesValue ∧ condition.Fed) ∧ body.Fed
  | .assign _ value _ => value.LeavesValue ∧ value.Fed
  | .lambda _ body _ => body.Fed
  | _ => True

/-- Every operand in the trees of a list leaves a value. -/
def FedAll : List Node → Prop
  | [] => True
  | item :: items => item.Fed ∧ FedAll items

/-- The trees of a list are operands that leave values. -/
def OperandsFed : List Node → Prop
  | [] => True
  | arg :: args => (arg.LeavesValue ∧ arg.Fed) ∧ OperandsFed args

end

/-- The tree can be an operand: it leaves a value, and so does every operand in it. -/
structure Operand (n : Node) : Prop where
  leaves : n.LeavesValue
  fed : n.Fed

/-- The mutual definition over lists says no more than that each tree is fed. -/
theorem fedAll_iff {ns : List Node} : FedAll ns ↔ ∀ n ∈ ns, n.Fed := by
  induction ns with
  | nil => simp [FedAll]
  | cons n ns ih => rw [FedAll, ih, List.forall_mem_cons]

/-- The arguments of a call are fed together exactly if each of them can be an operand. -/
theorem operandsFed_iff {ns : List Node} : OperandsFed ns ↔ ∀ n ∈ ns, n.Operand := by
  induction ns with
  | nil => simp [OperandsFed]
  | cons n ns ih =>
    rw [OperandsFed, ih, List.forall_mem_cons]
    exact and_congr_left fun _ => ⟨fun h => ⟨h.1, h.2⟩, fun h => ⟨h.leaves, h.fed⟩⟩

/-! ## Annotations change nothing about values -/

section annotate

variable {a : Annotator}

mutual

/-- Which trees leave values does not depend on annotations. -/
theorem leavesValue_annotate : ∀ n : Node, (n.annotate a).LeavesValue ↔ n.LeavesValue
  | .block [] => Iff.rfl
  | .block (item :: items) =>
    or_congr (leavesValue_annotate item) (anyLeavesValue_annotateAll items)
  | .conditional n _ | .loop n _ | .assign _ n _ => leavesValue_annotate n
  | .var .. | .invoke .. | .operator .. | .call .. | .step .. | .attr .. | .attrAssign .. => Iff.rfl
  | .integer _ | .string _ | .atom _ | .boolean _ | .nil | .instanceVar _ | .lambda .. => Iff.rfl
  | .importPath _ | .definition .. | .classDef .. | .has .. | .comment _ => Iff.rfl

/-- Annotating a list changes nothing about whether one of its trees leaves a value. -/
theorem anyLeavesValue_annotateAll :
    ∀ ns : List Node, AnyLeavesValue (annotateAll a ns) ↔ AnyLeavesValue ns
  | [] => Iff.rfl
  | n :: ns => or_congr (leavesValue_annotate n) (anyLeavesValue_annotateAll ns)

end

mutual

/-- Operands leave values whatever is attached to them, if the bodies of lambdas keep theirs. -/
theorem fed_annotate : ∀ {n : Node}, (∀ l ∈ n.lambdas, (a.lambda l).body.Fed ↔ l.body.Fed) →
    ((n.annotate a).Fed ↔ n.Fed)
  | .lambda .., same => same _ List.mem_cons_self
  | .operator _ left right, same => by
    obtain ⟨first, second⟩ := List.forall_mem_append.mp same
    exact and_congr (and_congr (leavesValue_annotate left) (fed_annotate first))
      (and_congr (leavesValue_annotate right) (fed_annotate second))
  | .call _ receiver args, same => by
    obtain ⟨first, second⟩ := List.forall_mem_append.mp same
    exact and_congr (and_congr (leavesValue_annotate receiver) (fed_annotate first))
      (operandsFed_annotateAll second)
  | .conditional condition _, same | .loop condition _, same => by
    obtain ⟨first, second⟩ := List.forall_mem_append.mp same
    exact and_congr (and_congr (leavesValue_annotate condition) (fed_annotate first))
      (fed_annotate second)
  | .invoke .., same => operandsFed_annotateAll same
  | .block _, same => fedAll_annotateAll same
  | .assign _ value _, same => and_congr (leavesValue_annotate value) (fed_annotate same)
  | .var .., _ | .step .., _ | .attr .., _ | .attrAssign .., _ => Iff.rfl
  | .integer _, _ | .string _, _ | .atom _, _ | .boolean _, _ | .nil, _ => Iff.rfl
  | .instanceVar _, _ | .importPath _, _ | .definition .., _ | .classDef .., _ => Iff.rfl
  | .has .., _ | .comment _, _ => Iff.rfl

/-- In a list, too, an annotation changes nothing about the operands if it keeps those in the bodies
of the lambdas. -/
theorem fedAll_annotateAll : ∀ {ns : List Node},
    (∀ l ∈ lambdasAll ns, (a.lambda l).body.Fed ↔ l.body.Fed) →
      (FedAll (annotateAll a ns) ↔ FedAll ns)
  | [], _ => Iff.rfl
  | _ :: _, same => by
    obtain ⟨first, second⟩ := List.forall_mem_append.mp same
    exact and_congr (fed_annotate first) (fedAll_annotateAll second)

/-- The same for arguments, of which each has to leave a value as well. -/
theorem operandsFed_annotateAll : ∀ {ns : List Node},
    (∀ l ∈ lambdasAll ns, (a.lambda l).body.Fed ↔ l.body.Fed) →
      (OperandsFed (annotateAll a ns) ↔ OperandsFed ns)
  | [], _ => Iff.rfl
  | n :: _, same => by
    obtain ⟨first, second⟩ := List.forall_mem_append.mp same
    exact and_congr (and_congr (leavesValue_annotate n) (fed_annotate first))
      (operandsFed_annotateAll second)

end

end annotate

/-! ## Resolving changes nothing about values -/

/-- Whether a tree leaves a value depends on its shape only: binding its names changes nothing. -/
@[simp] theorem leavesValue_bindNames (s : Scope) (n : Node) :
    (n.bindNames s).LeavesValue ↔ n.LeavesValue := by
  rw [bindNames_eq_annotate, leavesValue_annotate]

/-- Resolving the lambdas of a tree changes nothing about whether it leaves a value. -/
@[simp] theorem leavesValue_resolveLambdas (n : Node) :
    n.resolveLambdas.LeavesValue ↔ n.LeavesValue := by
  rw [resolveLambdas_eq_annotate, leavesValue_annotate]

/-- Binding the names of a unit leaves the bodies of its lambdas alone, so every operand that left a
value before leaves one after. -/
@[simp] theorem fed_bindNames (s : Scope) (n : Node) : (n.bindNames s).Fed ↔ n.Fed := by
  rw [bindNames_eq_annotate]
  exact fed_annotate fun _ _ => Iff.rfl

/-- The operands of a tree leave values after its lambdas were resolved exactly if they did before,
in the lambdas too. -/
@[simp] theorem fed_resolveLambdas (n : Node) : n.resolveLambdas.Fed ↔ n.Fed := by
  induction n using nested_induction with
  | unit n inner =>
    rw [resolveLambdas_eq_annotate]
    exact fed_annotate fun l mem => (fed_bindNames ..).trans (inner l mem)

end ClosureLang.Node
