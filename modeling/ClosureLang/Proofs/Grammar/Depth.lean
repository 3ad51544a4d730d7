import ClosureLang.Proofs.Grammar.Finding

/-!
# Readers that are deep enough

Once the depth covers the tokens from a position on, it makes no difference there: the rules of the
grammar have one answer for the position, and every reader that is deep enough gives it. So readers
that are deep enough for the whole token list are made of themselves, and what holds of all that
they find can be shown from the last position to the first.
-/

set_option autoImplicit false

namespace ClosureLang

open Matching Rule

variable {precedence : Precedence} {tokens : Array Token} {pos : Nat}

/-- Readers of expressions or of statements that are deep enough for a position have one answer
there. -/
theorem Grammar.reader_settled (precedence : Precedence) {id : Nat} (known : id ≤ 1)
    (inside : pos ≤ tokens.size) : ∃ answer, ∀ depth, Place.depth tokens.size ⟨id, pos⟩ ≤ depth →
      (Descent.reader precedence id depth tokens pos).result = answer := by
  obtain ⟨fuel, enough⟩ : ∃ fuel, 2 * (({0, 1} : Finset Nat).card * (tokens.size + 1)) *
      (sizes (programRule statement :: (builder precedence).definitions) + 1) +
        (Rule.forward ⟨0, id⟩).size + tokens.size + 1 < fuel := ⟨_, Nat.lt_succ_self _⟩
  have agrees (depth : Nat) (deep : Place.depth tokens.size ⟨id, pos⟩ ≤ depth) :=
    Grammar.follows precedence tokens (fuel + 1) ⟨0, id⟩ rfl known pos inside depth deep fuel
      (Nat.lt_succ_self fuel) .start clean_start
  cases run : (Rule.forward ⟨0, id⟩).match? (definitions precedence) tokens fuel pos .start with
  | error halt s =>
    cases halt with
    | outOfFuel =>
      exact absurd rfl (match?_ends (definitions_bounded precedence) definitions_emptyWithin
        definitions_anchored inside enough run)
    | failed e =>
      exact ⟨.error e, fun depth deep => (agrees depth deep).failed run⟩
  | ok m s =>
    obtain ⟨answer, -, -, shown, -⟩ := (agrees _ (Nat.le_refl _)).ok run
    refine ⟨.ok answer, fun depth deep => ?_⟩
    obtain ⟨answer', result, -, shown', -⟩ := (agrees depth deep).ok run
    rw [result]
    cases shown <;> cases shown' <;> rfl

namespace Descent

variable {depth : Nat}

/-- An expression that is read deep enough is made of such expressions and statements. -/
theorem expression_result (deep : 2 * tokens.size + 2 ≤ depth) (inside : pos ≤ tokens.size) :
    (expression precedence depth tokens pos).result =
      (expressionWith precedence (expression precedence depth) (statement precedence depth) tokens
        pos).result := by
  obtain ⟨answer, settled⟩ := Grammar.reader_settled precedence (Nat.zero_le 1) inside
  have enough : Place.depth tokens.size ⟨0, pos⟩ ≤ depth := by
    change 2 * (tokens.size - pos) + 1 ≤ depth
    omega
  exact (settled depth enough).trans (settled (depth + 1) (Nat.le_succ_of_le enough)).symm

/-- Statements are made of expressions and statements of the same depth, if that covers the
tokens. -/
theorem statement_result (deep : 2 * tokens.size + 2 ≤ depth) (inside : pos ≤ tokens.size) :
    (statement precedence depth tokens pos).result =
      (statementWith (expression precedence depth) (statement precedence depth) tokens
        pos).result := by
  obtain ⟨answer, settled⟩ := Grammar.reader_settled precedence (Nat.le_refl 1) inside
  have enough : Place.depth tokens.size ⟨1, pos⟩ ≤ depth := by
    change 2 * (tokens.size - pos) + 2 ≤ depth
    omega
  exact (settled depth enough).trans (settled (depth + 1) (Nat.le_succ_of_le enough)).symm

end Descent

end ClosureLang
