import ClosureLang.Proofs.Grammar.Reading
import ClosureLang.Proofs.Rule.Furthest

/-!
# Syntax errors

A token list that cannot be read is reported with a position. The tokens up to that position decide:
whatever follows them, the list cannot be read, and the report is the same. So a reader who corrects
only what comes after the reported token gets the same report again.
-/

set_option autoImplicit false

namespace ClosureLang

/-- The report is about the token at its position, or about the end of the tokens. Every token list
that is the same up to there gets the same report, with any fuel that is enough. -/
theorem unexpected_of_agree {definitions : Definitions} {fuel : Nat} {root : Rule}
    {tokens : List Token} {p : Nat} {found : Option TokenKind} {span : Option Span}
    (fails : readAll definitions fuel root tokens = .error (.failed (.unexpected p found span))) :
    p ≤ tokens.length ∧ found = (tokens[p]?).map (·.kind) ∧ span = (tokens[p]?).map (·.span) ∧
      (found = none ↔ p = tokens.length) ∧ (span = none ↔ p = tokens.length) ∧
      ∀ tokens' : List Token, (∀ i ≤ p, tokens'[i]? = tokens[i]?) →
        ∀ fuel', fuel ≤ fuel' ∨ readAll definitions fuel' root tokens' ≠ .error .outOfFuel →
          readAll definitions fuel' root tokens' =
            .error (.failed (.unexpected p found span)) := by
  have inside := le_length_of_unexpected fails
  have missing : tokens[p]? = none ↔ p = tokens.length := by
    rw [List.getElem?_eq_none_iff]
    exact ⟨Nat.le_antisymm inside, Nat.le_of_eq ∘ Eq.symm⟩
  obtain ⟨_, _, _, here, _⟩ := readAll_unexpected fails
  simp only [unexpectedAt, spanAt?, List.getElem?_toArray, ParseError.unexpected.injEq] at here
  obtain ⟨-, rfl, rfl⟩ := here
  refine ⟨inside, rfl, rfl, ?_, ?_, fun tokens' agree fuel' enough => ?_⟩
  · rw [Option.map_eq_none_iff, missing]
  · rw [Option.map_eq_none_iff, missing]
  · exact readAll_eq_of_agree_of_fuel fails agree enough

/-! ## The language -/

/-- A report of the grammar comes from its rules: a root value that is not a tree is reported in
another way. -/
theorem Grammar.eq_unexpected_of_treeOf {outcome : Except Halt Value} {p : Nat}
    {found : Option TokenKind} {span : Option Span}
    (fails : (outcome >>= treeOf) = .error (.failed (.unexpected p found span))) :
    outcome = .error (.failed (.unexpected p found span)) := by
  cases outcome with
  | error halt =>
    cases fails
    rfl
  | ok value =>
    change treeOf value = _ at fails
    unfold treeOf at fails
    split at fails <;> cases fails

/-- An assignment without its value: `a = ; 3`. -/
theorem unexpected_semicolon :
    let mark (kind : TokenKind) (start : Nat) : Token := ⟨kind, .none, ⟨start, start + 1⟩⟩
    let set : RuleSet := ⟨Grammar.builder .default, Grammar.programRule Grammar.statement⟩
    let start : List Token := [⟨.word, .text "a", ⟨0, 1⟩⟩, mark .equal 2, mark .semicolon 4]
    let tokens := start ++ [⟨.integer, .number 3, ⟨6, 7⟩⟩, mark .terminator 7]
    let report := ParseError.unexpected 2 (some .semicolon) (some ⟨4, 5⟩)
    set.read tokens = .error (.failed report) ∧
      ∀ rest, ∀ fuel ≥ set.fuel tokens.length,
        readAll set.definition? fuel set.root (start ++ rest) = .error (.failed report) := by
  intro mark set start tokens report
  have stops : (descend .default 12 tokens).map (fun _ => ()) = .error report := by decide +kernel
  have descends : descend .default 12 tokens = .error report := by
    cases attempt : descend .default 12 tokens with
    | ok n =>
      rw [attempt] at stops
      cases stops
    | error cause =>
      rw [attempt] at stops
      cases stops
      rfl
  have agrees :
      (set.read tokens >>= Grammar.treeOf) = (descend .default 12 tokens).mapError .failed :=
    (Grammar.readAll_program (by decide) _).resolve_left (Grammar.read_ne_outOfFuel .default tokens)
  rw [descends] at agrees
  have fails : set.read tokens = .error (.failed report) := Grammar.eq_unexpected_of_treeOf agrees
  refine ⟨fails, ?_⟩
  rw [RuleSet.read] at fails
  generalize set.fuel tokens.length = enough at fails ⊢
  obtain ⟨-, -, -, -, -, same⟩ := unexpected_of_agree fails
  refine fun rest fuel le => same (start ++ rest) (fun i here => ?_) fuel (.inl le)
  have short : i < start.length := Nat.lt_succ_of_le here
  rw [List.getElem?_append_left short, List.getElem?_append_left short]

/-- The language needs no regard to fuel. -/
theorem parse_unexpected_of_agree {precedence : Precedence} {tokens tokens' : List Token} {p : Nat}
    {found : Option TokenKind} {span : Option Span}
    (fails : parse precedence tokens = .error (.failed (.unexpected p found span)))
    (agree : ∀ i ≤ p, tokens'[i]? = tokens[i]?) :
    parse precedence tokens' = .error (.failed (.unexpected p found span)) := by
  unfold parse Grammar.new at fails ⊢
  rw [Grammar.ruleSet_eq] at fails ⊢
  have same := readAll_eq_of_agree_of_fuel (Grammar.eq_unexpected_of_treeOf fails) agree
    (.inr (Grammar.read_ne_outOfFuel precedence tokens'))
  change (readAll _ _ _ tokens' >>= Grammar.treeOf) = _
  rw [same]
  rfl

end ClosureLang
