import ClosureLang.Grammar.Reassociate

/-!
# Chains of operators

A chain is an operand followed by operators with one operand each. Reading puts it together from the
right and corrects the tree by at most one rotation for every operator. What comes out of these
single rotations has a closed form: the chain is split at the leftmost operator of the lowest level;
what is left of it is nested to the right whatever the levels there, and what is right of it is
split again.

A rotation looks at the root of the right operand and no deeper. By induction that root is the
leftmost operator of lowest level in the rest of the chain. An operator in front of it stays in
front if its level is lower or the same; then it is itself the leftmost one of lowest level.
Otherwise it moves to the left of the root, in front of everything that is there already: this is
how the left part comes to be nested to the right. That no further rotation takes place in the left
part is why a chain with three levels may be put together in an unexpected way.

Operands are taken as they are. None of them is the application of an operator, so the root of an
operand is never taken for one of the chain.
-/

set_option autoImplicit false

namespace ClosureLang

/-- An operator in a chain, with the operand to its right. -/
structure Link where
  name : String
  operand : Node

/-- Whether the tree is the application of an operator. -/
def Node.isOperator : Node → Bool
  | .operator .. => true
  | _ => false

/-- The chain in which every operator takes all that is to its right. -/
def Node.rightNested (first : Node) : List Link → Node
  | [] => first
  | l :: links => .operator l.name first (rightNested l.operand links)

namespace Precedence

variable (p : Precedence)

/-- The chain, put together from the right. -/
def combine (first : Node) : List Link → Node
  | [] => first
  | l :: links => p.reassociate first l.name (combine l.operand links)

/-- Whether no operator of the chain has a lower level than the one of `l`. -/
def isLowest (links : List Link) (l : Link) : Bool :=
  links.all fun m => p.of l.name ≤ p.of m.name

/-- The chain split at its leftmost operator of lowest level: what is before that operator is nested
to the right, and what is after it is split in the same way. -/
def splitAtLowest (first : Node) (links : List Link) : Node :=
  match _rest : links.dropWhile fun l => !p.isLowest links l with
  | [] => first
  | l :: after =>
    .operator l.name (first.rightNested (links.takeWhile fun l => !p.isLowest links l))
      (splitAtLowest l.operand after)
termination_by links.length
decreasing_by
  have le := (List.dropWhile_sublist (l := links) fun l => !p.isLowest links l).length_le
  rw [_rest, List.length_cons] at le
  omega

variable {p} {first : Node} {links front back : List Link} {l : Link}

/-! ## The closed form -/

/-- An operator of lower level than those before it and of no higher level than those after it has
the lowest level. -/
theorem le_of_leftmostLowest (higher : ∀ m ∈ front, p.of l.name < p.of m.name)
    (least : ∀ m ∈ back, p.of l.name ≤ p.of m.name) :
    ∀ m ∈ front ++ l :: back, p.of l.name ≤ p.of m.name := by
  intro m mem
  rcases List.mem_append.mp mem with mem | mem
  · exact Nat.le_of_lt (higher m mem)
  · rcases List.mem_cons.mp mem with rfl | mem
    · exact Nat.le_refl _
    · exact least m mem

/-- Every chain with an operator has a leftmost one of lowest level. -/
theorem exists_leftmostLowest (p : Precedence) (l : Link) (links : List Link) :
    ∃ front lowest back, l :: links = front ++ lowest :: back ∧
      (∀ m ∈ front, p.of lowest.name < p.of m.name) ∧
        ∀ m ∈ back, p.of lowest.name ≤ p.of m.name := by
  induction links generalizing l with
  | nil => exact ⟨[], l, [], rfl, by simp, by simp⟩
  | cons l' links ih =>
    obtain ⟨front, lowest, back, split, higher, least⟩ := ih l'
    by_cases lower : p.of lowest.name < p.of l.name
    · refine ⟨l :: front, lowest, back, by rw [split, List.cons_append], ?_, least⟩
      exact List.forall_mem_cons.mpr ⟨lower, higher⟩
    · refine ⟨[], l, l' :: links, rfl, by simp, fun m mem => ?_⟩
      exact Nat.le_trans (Nat.le_of_not_lt lower)
        (le_of_leftmostLowest higher least m (split ▸ mem))

/-- A chain splits at an operator that is lower than all before it and not higher than any after
it. -/
theorem splitAtLowest_append (higher : ∀ m ∈ front, p.of l.name < p.of m.name)
    (least : ∀ m ∈ back, p.of l.name ≤ p.of m.name) :
    p.splitAtLowest first (front ++ l :: back) =
      .operator l.name (first.rightNested front) (p.splitAtLowest l.operand back) := by
  have lowest : p.isLowest (front ++ l :: back) l = true := by
    simpa only [isLowest, List.all_eq_true, decide_eq_true_eq] using
      le_of_leftmostLowest higher least
  have passed : ∀ m ∈ front, (!p.isLowest (front ++ l :: back) m) = true := by
    intro m mem
    simp only [isLowest, Bool.not_eq_true', List.all_eq_false, decide_eq_true_eq]
    exact ⟨l, by simp, Nat.not_le.mpr (higher m mem)⟩
  have before : (front ++ l :: back).takeWhile (fun m => !p.isLowest (front ++ l :: back) m) =
      front := by
    rw [List.takeWhile_append_of_pos passed, List.takeWhile_cons_of_neg (by simp [lowest]),
      List.append_nil]
  have after : (front ++ l :: back).dropWhile (fun m => !p.isLowest (front ++ l :: back) m) =
      l :: back := by
    rw [List.dropWhile_append_of_pos passed, List.dropWhile_cons_of_neg (by simp [lowest])]
  rw [splitAtLowest]
  split
  · next none => cases after.symm.trans none
  · next some =>
    cases after.symm.trans some
    rw [before]

theorem splitAtLowest_nil : p.splitAtLowest first [] = first := by
  rw [splitAtLowest]
  rfl

/-- An operator in front of an operand that applies none. -/
theorem reassociate_of_not_operator {right : Node} {name : String}
    (plain : right.isOperator = false) :
    p.reassociate first name right = .operator name first right := by
  unfold reassociate
  split
  · cases plain
  · rfl

/-- The single rotations split the chain at its leftmost operator of lowest level, again and
again. -/
theorem combine_eq_splitAtLowest (plain : ∀ l ∈ links, l.operand.isOperator = false) :
    p.combine first links = p.splitAtLowest first links := by
  induction links generalizing first with
  | nil => exact splitAtLowest_nil.symm
  | cons l links ih =>
    obtain ⟨plainHere, plainAfter⟩ := List.forall_mem_cons.mp plain
    rw [combine, ih plainAfter]
    cases links with
    | nil =>
      have alone : p.splitAtLowest first ([] ++ l :: []) = _ :=
        splitAtLowest_append (by simp) (by simp)
      rw [List.nil_append] at alone
      rw [alone, splitAtLowest_nil]
      exact reassociate_of_not_operator plainHere
    | cons l' links =>
      obtain ⟨front, lowest, back, split, higher, least⟩ := exists_leftmostLowest p l' links
      rw [split, splitAtLowest_append higher least, reassociate]
      by_cases lower : p.of lowest.name < p.of l.name
      · -- the rotation puts `l` in front of what is nested to the right
        rw [if_pos lower, ← List.cons_append,
          splitAtLowest_append (List.forall_mem_cons.mpr ⟨lower, higher⟩) least]
        rfl
      · -- `l` is the leftmost operator of lowest level itself
        have leastOfAll : ∀ m ∈ front ++ lowest :: back, p.of l.name ≤ p.of m.name := fun m mem =>
          Nat.le_trans (Nat.le_of_not_lt lower) (le_of_leftmostLowest higher least m mem)
        have here : p.splitAtLowest first ([] ++ l :: (front ++ lowest :: back)) = _ :=
          splitAtLowest_append (by simp) leastOfAll
        rw [List.nil_append, splitAtLowest_append higher least] at here
        rw [if_neg lower, here]
        rfl

end Precedence

end ClosureLang
