import ClosureLang.Proofs.Operators.Chain

/-!
# Chains that bind as the levels ask

The tree of a chain binds as the levels ask if no operator has an operand that binds less tightly
than it does, nor a left operand that binds equally tightly. From the closed form of the chain it
can be told when that fails: exactly when three operators follow one another at lower and lower
levels, and the third is lower than all that stand between it and the first. Then the first two end
up in the left operand of an operator, nested to the right.

The closed form splits a chain at the leftmost operator of lowest level. What is after it is split
again, so nothing goes wrong there that does not go wrong in a shorter chain. What is before it is
nested to the right whatever the levels are, and a chain that is nested to the right binds as the
levels ask only if the levels never go down (`respects_rightNested_iff`). So the tree misbinds where
the levels go down before an operator that is lower than all before it. Such a step down and that
operator are the three of `EntangledAt`, and `entangled_append_iff` says that looking before and
after the split finds all of them.

With two levels no three operators are at lower and lower levels. That is why a table of two levels
is read as one would expect, and a table of three is not.
-/

set_option autoImplicit false

namespace ClosureLang

namespace Precedence

variable (p : Precedence)

/-- The level of the operator that the tree applies, if it applies one. -/
def rootLevel? : Node → Option Nat
  | .operator name _ _ => some (p.of name)
  | _ => none

/-- Every operator of the tree has a left operand that binds more tightly and a right operand that
binds at least as tightly, as far as these apply operators themselves. Other operands are taken as
they are. -/
def Respects : Node → Prop
  | .operator name left right =>
    (∀ level ∈ p.rootLevel? left, p.of name < level) ∧
      (∀ level ∈ p.rootLevel? right, p.of name ≤ level) ∧ Respects left ∧ Respects right
  | _ => True

/-- The operators `i`, `j` and `k` follow one another in the chain, at lower and lower levels, and
`k` is lower than every operator between `i` and itself. -/
def EntangledAt (links : List Link) (i j k : Nat) : Prop :=
  ∃ (_ : i < j) (_ : j < k) (_ : k < links.length),
    p.of links[j].name < p.of links[i].name ∧ p.of links[k].name < p.of links[j].name ∧
      ∀ m, ∀ (_ : i < m) (_ : m < k), p.of links[k].name < p.of links[m].name

/-- Some three operators of the chain are so. -/
def Entangled (links : List Link) : Prop := ∃ i j k, p.EntangledAt links i j k

variable {p} {first : Node} {links front back : List Link} {l : Link}

/-- An operand that applies no operator has no level. -/
theorem rootLevel?_eq_none {n : Node} (plain : n.isOperator = false) : p.rootLevel? n = none := by
  unfold rootLevel?
  split
  · cases plain
  · rfl

/-- An operand that applies no operator binds as the levels ask. -/
theorem respects_of_not_operator {n : Node} (plain : n.isOperator = false) : p.Respects n := by
  unfold Respects
  split
  · cases plain
  · trivial

/-- The level of a chain nested to the right is that of one of its operators. -/
theorem mem_rootLevel?_rightNested {level : Nat} (plain : first.isOperator = false)
    (root : level ∈ p.rootLevel? (first.rightNested links)) : ∃ l ∈ links, p.of l.name = level := by
  cases links with
  | nil =>
    rw [Node.rightNested, rootLevel?_eq_none plain] at root
    cases root
  | cons l links => exact ⟨l, List.mem_cons_self, Option.some.inj root⟩

/-- The root of the tree of a chain applies an operator of the chain. -/
theorem mem_rootLevel?_splitAtLowest {level : Nat} (plain : first.isOperator = false)
    (root : level ∈ p.rootLevel? (p.splitAtLowest first links)) :
    ∃ l ∈ links, p.of l.name = level := by
  cases links with
  | nil =>
    rw [splitAtLowest_nil, rootLevel?_eq_none plain] at root
    cases root
  | cons l links =>
    obtain ⟨front, lowest, back, split, higher, least⟩ := exists_leftmostLowest p l links
    rw [split, splitAtLowest_append higher least] at root
    exact ⟨lowest, by simp [split], Option.some.inj root⟩

/-- What is nested to the right binds as the levels ask exactly if they never go down. -/
theorem respects_rightNested_iff (plain : first.isOperator = false)
    (plainAll : ∀ l ∈ links, l.operand.isOperator = false) :
    p.Respects (first.rightNested links) ↔
      links.Pairwise fun l m => p.of l.name ≤ p.of m.name := by
  induction links generalizing first with
  | nil => exact iff_of_true (respects_of_not_operator plain) .nil
  | cons l links ih =>
    obtain ⟨plainHere, plainAfter⟩ := List.forall_mem_cons.mp plainAll
    rw [Node.rightNested, Respects, ih plainHere plainAfter, List.pairwise_cons,
      rootLevel?_eq_none plain]
    constructor
    · rintro ⟨-, root, -, sorted⟩
      refine ⟨fun m mem => ?_, sorted⟩
      cases links with
      | nil => cases mem
      | cons l' links =>
        have le : p.of l.name ≤ p.of l'.name := root _ rfl
        rcases List.mem_cons.mp mem with rfl | mem
        · exact le
        · exact Nat.le_trans le ((List.pairwise_cons.mp sorted).1 m mem)
    · rintro ⟨least, sorted⟩
      refine ⟨by simp, fun level root => ?_, respects_of_not_operator plain, sorted⟩
      obtain ⟨m, mem, rfl⟩ := mem_rootLevel?_rightNested plainHere root
      exact least m mem

/-- Three operators of the later part of a chain are entangled in the part if they are in the chain:
only what stands between them matters. -/
theorem entangledAt_append_iff (before : List Link) {i j k : Nat} :
    p.EntangledAt (before ++ links) (before.length + i) (before.length + j) (before.length + k) ↔
      p.EntangledAt links i j k := by
  have length : (before ++ links).length = before.length + links.length := List.length_append
  have shifted : ∀ m (h : m < links.length), (before ++ links)[before.length + m] = links[m] := by
    simp
  constructor
  · rintro ⟨lt, lt', inside, down, down', between⟩
    have inside' : k < links.length := by omega
    rw [shifted j (by omega), shifted i (by omega)] at down
    rw [shifted k inside', shifted j (by omega)] at down'
    refine ⟨by omega, by omega, inside', down, down', fun m lt lt' => ?_⟩
    have low := between (before.length + m) (by omega) (by omega)
    rwa [shifted k inside', shifted m (by omega)] at low
  · rintro ⟨lt, lt', inside, down, down', between⟩
    refine ⟨by omega, by omega, by omega, ?_, ?_, fun m lt lt' => ?_⟩
    · rwa [shifted j (by omega), shifted i (by omega)]
    · rwa [shifted k inside, shifted j (by omega)]
    · obtain ⟨m, rfl⟩ := Nat.exists_eq_add_of_le (show before.length ≤ m by omega)
      rw [shifted k inside, shifted m (by omega)]
      exact between m (by omega) (by omega)

/-- Where the levels go down before an operator that is lower than all before it, the chain is
entangled. -/
theorem entangled_of_not_pairwise (higher : ∀ m ∈ front, p.of l.name < p.of m.name)
    (unsorted : ¬ front.Pairwise fun l m => p.of l.name ≤ p.of m.name) :
    p.Entangled (front ++ l :: back) := by
  have length : (front ++ l :: back).length = front.length + (back.length + 1) :=
    List.length_append
  have here : (front ++ l :: back)[front.length] = l := by simp
  have before : ∀ i (h : i < front.length), (front ++ l :: back)[i] = front[i] :=
    fun i h => List.getElem_append_left h
  have above : ∀ i (h : i < front.length), p.of l.name < p.of front[i].name :=
    fun i h => higher _ (List.getElem_mem h)
  simp only [List.pairwise_iff_getElem, Classical.not_forall, Nat.not_le] at unsorted
  obtain ⟨i, j, hi, hj, lt, down⟩ := unsorted
  refine ⟨i, j, front.length, lt, hj, by omega, ?_, ?_, fun m _ hm => ?_⟩
  · rwa [before j hj, before i hi]
  · rw [here, before j hj]
    exact above j hj
  · rw [here, before m hm]
    exact above m hm

/-- Around the leftmost operator of lowest level, what is entangled is so before that operator or
after it. -/
theorem entangled_append_iff (higher : ∀ m ∈ front, p.of l.name < p.of m.name)
    (least : ∀ m ∈ back, p.of l.name ≤ p.of m.name) :
    p.Entangled (front ++ l :: back) ↔
      (¬ front.Pairwise fun l m => p.of l.name ≤ p.of m.name) ∨ p.Entangled back := by
  have apart : front ++ l :: back = (front ++ [l]) ++ back := by simp
  have here : (front ++ l :: back)[front.length] = l := by simp
  have lowest : ∀ i (h : i < (front ++ l :: back).length),
      p.of l.name ≤ p.of (front ++ l :: back)[i].name :=
    fun i h => le_of_leftmostLowest higher least _ (List.getElem_mem h)
  constructor
  · rintro ⟨i, j, k, entangled⟩
    obtain ⟨lt, lt', inside, down, down', between⟩ := id entangled
    rcases Nat.lt_trichotomy i front.length with early | rfl | late
    · -- nothing below `l` comes after it, so `k` is not beyond it
      have within : k ≤ front.length := by
        refine Nat.le_of_not_lt fun beyond => ?_
        have low := between front.length early beyond
        rw [here] at low
        exact absurd (lowest k inside) (Nat.not_le.mpr low)
      rw [List.getElem_append_left (by omega), List.getElem_append_left (by omega)] at down
      refine .inl fun sorted => absurd down (Nat.not_lt.mpr ?_)
      exact List.pairwise_iff_getElem.mp sorted i j (by omega) (by omega) lt
    · rw [here] at down
      exact absurd (lowest j (by omega)) (Nat.not_le.mpr down)
    · have length : (front ++ [l]).length = front.length + 1 := by simp
      obtain ⟨i, rfl⟩ := Nat.exists_eq_add_of_le (show (front ++ [l]).length ≤ i by omega)
      obtain ⟨j, rfl⟩ := Nat.exists_eq_add_of_le (show (front ++ [l]).length ≤ j by omega)
      obtain ⟨k, rfl⟩ := Nat.exists_eq_add_of_le (show (front ++ [l]).length ≤ k by omega)
      rw [apart] at entangled
      exact .inr ⟨i, j, k, (entangledAt_append_iff _).mp entangled⟩
  · rintro (unsorted | ⟨i, j, k, entangled⟩)
    · exact entangled_of_not_pairwise higher unsorted
    · rw [apart]
      exact ⟨_, _, _, (entangledAt_append_iff _).mpr entangled⟩

/-- An operator is entangled only with operators of two other levels. -/
theorem not_entangled_of_two {a b : Nat} (two : ∀ l ∈ links, p.of l.name = a ∨ p.of l.name = b) :
    ¬ p.Entangled links := by
  rintro ⟨i, j, k, lt, lt', inside, down, down', -⟩
  have first := two links[i] (List.getElem_mem _)
  have second := two links[j] (List.getElem_mem _)
  have third := two links[k] (List.getElem_mem _)
  omega

/-- The closed form of a chain binds as the levels ask exactly if no three operators of the chain
are entangled. -/
theorem respects_splitAtLowest_iff (plain : first.isOperator = false)
    (plainAll : ∀ l ∈ links, l.operand.isOperator = false) :
    p.Respects (p.splitAtLowest first links) ↔ ¬ p.Entangled links := by
  induction hn : links.length using Nat.strongRecOn generalizing first links with
  | ind n ih =>
    cases links with
    | nil =>
      rw [splitAtLowest_nil]
      refine iff_of_true (respects_of_not_operator plain) ?_
      rintro ⟨i, j, k, -, -, inside, -⟩
      exact absurd inside (Nat.not_lt_zero k)
    | cons l links =>
      obtain ⟨front, lowest, back, split, higher, least⟩ := exists_leftmostLowest p l links
      rw [split] at plainAll hn ⊢
      obtain ⟨plainFront, plainRest⟩ := List.forall_mem_append.mp plainAll
      obtain ⟨plainHere, plainBack⟩ := List.forall_mem_cons.mp plainRest
      have shorter : back.length < n := by
        rw [← hn, List.length_append, List.length_cons]
        omega
      have left : ∀ level ∈ p.rootLevel? (first.rightNested front), p.of lowest.name < level := by
        intro level root
        obtain ⟨m, mem, rfl⟩ := mem_rootLevel?_rightNested plain root
        exact higher m mem
      have right : ∀ level ∈ p.rootLevel? (p.splitAtLowest lowest.operand back),
          p.of lowest.name ≤ level := by
        intro level root
        obtain ⟨m, mem, rfl⟩ := mem_rootLevel?_splitAtLowest plainHere root
        exact least m mem
      rw [splitAtLowest_append higher least, Respects, entangled_append_iff higher least, not_or,
        Classical.not_not, respects_rightNested_iff plain plainFront,
        ih _ shorter plainHere plainBack rfl]
      exact ⟨fun h => h.2.2, fun h => ⟨left, right, h⟩⟩

/-- A chain of operands comes out as the levels ask exactly if it is not entangled; with two levels
it always does. -/
theorem respects_combine_iff (p : Precedence) {first : Node} {links : List Link}
    (plain : first.isOperator = false) (plainAll : ∀ l ∈ links, l.operand.isOperator = false) :
    (p.Respects (p.combine first links) ↔ ¬ p.Entangled links) ∧
      ((∃ a b, ∀ l ∈ links, p.of l.name = a ∨ p.of l.name = b) →
        p.Respects (p.combine first links)) := by
  have exactly : p.Respects (p.combine first links) ↔ ¬ p.Entangled links := by
    rw [combine_eq_splitAtLowest plainAll, respects_splitAtLowest_iff plain plainAll]
  exact ⟨exactly, fun ⟨_, _, two⟩ => exactly.mpr (not_entangled_of_two two)⟩

/-- Three levels that go down are put together wrongly, while the same operators in another order
are not, nor are two levels in whatever order. -/
theorem downwardChain_misbinds :
    let x : Node := .var "x" none
    let downward : List Link := [⟨"*", x⟩, ⟨"+", x⟩, ⟨"<", x⟩]
    let upward : List Link := [⟨"<", x⟩, ⟨"+", x⟩, ⟨"*", x⟩]
    let mixed : List Link := [⟨"*", x⟩, ⟨"+", x⟩, ⟨"*", x⟩, ⟨"+", x⟩]
    x.isOperator = false ∧ (∀ l ∈ downward, l.operand.isOperator = false) ∧
      (∀ l ∈ upward, l.operand.isOperator = false) ∧
      (∀ l ∈ mixed, l.operand.isOperator = false) ∧
        ¬ default.Respects (default.combine x downward) ∧
          default.Respects (default.combine x upward) ∧
            default.Respects (default.combine x mixed) := by
  intro x downward upward mixed
  have plain : x.isOperator = false := rfl
  have plainDown : ∀ l ∈ downward, l.operand.isOperator = false := by simp [downward, plain]
  have plainUp : ∀ l ∈ upward, l.operand.isOperator = false := by simp [upward, plain]
  have plainMixed : ∀ l ∈ mixed, l.operand.isOperator = false := by simp [mixed, plain]
  have entangled : default.Entangled downward := by
    have down : default.of "+" < default.of "*" := by decide
    have down' : default.of "<" < default.of "+" := by decide
    refine ⟨0, 1, 2, by decide, by decide, Nat.lt_succ_self 2, down, down', fun m lt lt' => ?_⟩
    obtain rfl : m = 1 := by omega
    exact down'
  refine ⟨plain, plainDown, plainUp, plainMixed, ?_, ?_, ?_⟩
  · rw [(respects_combine_iff default plain plainDown).1]
    exact fun free => free entangled
  · refine (respects_combine_iff default plain plainUp).1.mpr ?_
    rintro ⟨i, j, k, lt, lt', inside, down, -⟩
    have sizes : k < 3 := inside
    obtain ⟨rfl, rfl⟩ : i = 0 ∧ j = 1 := by omega
    exact absurd down (show ¬ default.of "+" < default.of "<" by decide)
  · exact (respects_combine_iff default plain plainMixed).2
      ⟨default.of "*", default.of "+", by simp [mixed]⟩

end Precedence

end ClosureLang
