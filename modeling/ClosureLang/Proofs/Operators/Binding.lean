import ClosureLang.Node.Path
import ClosureLang.Proofs.Operators.Levels

/-!
# What operators, calls and attributes bind to

An operator should only have a left operand that binds more tightly, and a call or an attribute
should bind to the operand next to it, which no operator is applied in. A tree can break this where
an operator takes a lambda in braces as its right operand: the lambda ends at the brace, and what
follows the brace goes on from the operator. Putting operators together, rotated or not, breaks it
nowhere else.

`BindsOperands` is what should hold of a node, and `ResumesAfterBraces` is how it fails. Both are
read off the tree: a lambda with its body in braces ends in braces, and so does one whose body is
such a lambda, and the application of an operator stops at braces if its right operand ends in them.
The two exclude each other (`ResumesAfterBraces.not_bindsOperands`).

The step that matters is putting an operator between two tidy operands (`tidy_reassociate`). The
left one may be extended if no operator is applied in it or it stops at braces; after a rotation it
is the left operand of an operator that was read later, and the right operand stays the last one, so
the tree stops at braces exactly if that does.
-/

set_option autoImplicit false

namespace ClosureLang

namespace Node

/-- The property holds at every place of the tree. -/
def Everywhere (P : Node → Prop) (n : Node) : Prop :=
  ∀ path m, n.at? path = some m → P m

/-- A property holds everywhere in a tree if it holds of the tree and everywhere in its children. -/
theorem everywhere_iff {P : Node → Prop} {n : Node} :
    n.Everywhere P ↔ P n ∧ ∀ child ∈ n.children, child.Everywhere P := by
  constructor
  · intro all
    refine ⟨all [] n rfl, fun child mem path m there => ?_⟩
    obtain ⟨i, isChild⟩ := List.mem_iff_getElem?.mp mem
    exact all (i :: path) m (by simp [at?, isChild, there])
  · rintro ⟨root, all⟩ path m there
    cases path with
    | nil =>
      cases there
      exact root
    | cons i path =>
      obtain ⟨child, isChild, below⟩ := Option.bind_eq_some_iff.mp there
      exact all child (List.mem_of_getElem? isChild) path m below

/-- Where a property holds everywhere, a weaker one does. -/
theorem Everywhere.mono {P Q : Node → Prop} {n : Node} (h : n.Everywhere P)
    (weaker : ∀ m, P m → Q m) : n.Everywhere Q :=
  fun path m there => weaker m (h path m there)

/-- Whether the tree is statements in braces. -/
def isBlock : Node → Bool
  | block _ => true
  | _ => false

/-- A lambda with its body in braces, or with such a lambda as its body. -/
def endsInBraces : Node → Bool
  | lambda _ body _ => body.isBlock || body.endsInBraces
  | _ => false

/-- The application of an operator to a right operand that ends in braces. -/
def stopsAtBraces : Node → Bool
  | operator _ _ right => right.endsInBraces
  | _ => false

/-- No operator is applied in the operand, or it stops at braces and something follows these. -/
def Extendable (resumed : Prop) (n : Node) : Prop :=
  n.isOperator = false ∨ n.stopsAtBraces = true ∧ resumed

/-- What stops at braces applies an operator. -/
theorem isOperator_of_stopsAtBraces {n : Node} (h : n.stopsAtBraces = true) :
    n.isOperator = true := by
  cases n with
  | operator => rfl
  | _ => cases h

end Node

namespace Precedence

/-- The left operand of an operator binds more tightly, if it applies an operator itself. The
receiver of a call or of an attribute does not apply an operator. -/
def BindsOperands (p : Precedence) : Node → Prop
  | .operator name left _ => ∀ level ∈ p.rootLevel? left, p.of name < level
  | .attr _ receiver | .attrAssign _ receiver _ | .call _ receiver _ => receiver.isOperator = false
  | _ => True

/-- What follows a brace goes on from an operator that stops there. For an operator that follows,
this only matters if it binds at least as tightly. -/
def ResumesAfterBraces (p : Precedence) : Node → Prop
  | .operator name left _ =>
    left.stopsAtBraces = true ∧ ∀ level ∈ p.rootLevel? left, level ≤ p.of name
  | .attr _ receiver | .attrAssign _ receiver _ | .call _ receiver _ =>
    receiver.stopsAtBraces = true
  | _ => False

/-- The operands are bound as they should be, unless something goes on after braces. -/
def BindsUnless (p : Precedence) (resumed : Prop) (n : Node) : Prop :=
  p.BindsOperands n ∨ p.ResumesAfterBraces n ∧ resumed

/-- So are the operands everywhere in the tree. -/
def Tidy (p : Precedence) (resumed : Prop) (n : Node) : Prop := n.Everywhere (p.BindsUnless resumed)

variable {p : Precedence} {left right n : Node} {name : String} {resumed : Prop}

/-- What stops at braces has the level of its operator. -/
theorem rootLevel?_of_stopsAtBraces (h : n.stopsAtBraces = true) :
    ∃ level, p.rootLevel? n = some level := by
  cases n with
  | operator name => exact ⟨p.of name, rfl⟩
  | _ => cases h

/-- What goes on after braces is not bound as it should be. -/
theorem ResumesAfterBraces.not_bindsOperands (h : p.ResumesAfterBraces n) :
    ¬ p.BindsOperands n := by
  have receiver {m : Node} (stops : m.stopsAtBraces = true) : ¬ m.isOperator = false :=
    fun plain => by simp [m.isOperator_of_stopsAtBraces stops] at plain
  match n, h with
  | .operator _ left _, ⟨stops, notHigher⟩ =>
    intro higher
    obtain ⟨level, root⟩ := rootLevel?_of_stopsAtBraces (p := p) stops
    exact absurd (higher level root) (Nat.not_lt_of_le (notHigher level root))
  | .attr .., stops => exact receiver stops
  | .attrAssign .., stops => exact receiver stops
  | .call .., stops => exact receiver stops

/-- A tree is tidy if its node is bound as it should be, or goes on after braces, and its children
are tidy. -/
theorem tidy_iff : p.Tidy resumed n ↔
    p.BindsUnless resumed n ∧ ∀ child ∈ n.children, p.Tidy resumed child :=
  Node.everywhere_iff

/-- At nodes that are neither operators nor have receivers, there is nothing to bind. -/
theorem tidy_of_children (free : p.BindsOperands n)
    (below : ∀ child ∈ n.children, p.Tidy resumed child) : p.Tidy resumed n :=
  tidy_iff.mpr ⟨.inl free, below⟩

/-- Rotated or not, the application of an operator to tidy operands is tidy, if the operator may
extend the left one. -/
theorem tidy_operator (hleft : p.Tidy resumed left) (extendable : left.Extendable resumed)
    (hright : p.Tidy resumed right) : p.Tidy resumed (.operator name left right) := by
  refine tidy_iff.mpr ⟨?_, by simp [Node.children, hleft, hright]⟩
  rcases extendable with plain | ⟨stops, follows⟩
  · left
    intro level root
    rw [rootLevel?_eq_none plain] at root
    cases root
  · obtain ⟨inner, root⟩ := rootLevel?_of_stopsAtBraces (p := p) stops
    by_cases higher : p.of name < inner
    · left
      intro level root'
      cases root.symm.trans root'
      exact higher
    · right
      refine ⟨⟨stops, fun level root' => ?_⟩, follows⟩
      cases root.symm.trans root'
      exact Nat.le_of_not_lt higher

/-- A rotation puts the operator with the higher level to the left. -/
theorem tidy_reassociate (hleft : p.Tidy resumed left) (extendable : left.Extendable resumed)
    (hright : p.Tidy resumed right) : p.Tidy resumed (p.reassociate left name right) := by
  unfold reassociate
  split
  · next inner innerLeft innerRight =>
    obtain ⟨-, below⟩ := tidy_iff.mp hright
    have hinnerLeft : p.Tidy resumed innerLeft := below _ (by simp [Node.children])
    have hinnerRight : p.Tidy resumed innerRight := below _ (by simp [Node.children])
    split
    · next lower =>
      refine tidy_of_children (fun level root => ?_) ?_
      · cases root
        exact lower
      · have rotated : p.Tidy resumed (.operator name left innerLeft) :=
          tidy_operator hleft extendable hinnerLeft
        simp [Node.children, rotated, hinnerRight]
    · exact tidy_operator hleft extendable hright
  · exact tidy_operator hleft extendable hright

/-- A lambda stays the right operand. -/
theorem stopsAtBraces_reassociate (h : right.endsInBraces = true) :
    (p.reassociate left name right).stopsAtBraces = true := by
  cases right with
  | lambda => exact h
  | _ => cases h

/-- What can be extended can be a receiver. -/
theorem bindsUnless_of_receiver {receiver : Node} (extendable : receiver.Extendable resumed)
    (binds : p.BindsOperands n ↔ receiver.isOperator = false)
    (resumes : p.ResumesAfterBraces n ↔ receiver.stopsAtBraces = true) :
    p.BindsUnless resumed n :=
  extendable.imp binds.mpr (And.imp_left resumes.mpr)

end Precedence

end ClosureLang
