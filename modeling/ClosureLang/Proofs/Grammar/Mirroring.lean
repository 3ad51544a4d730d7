import ClosureLang.Proofs.Grammar.Separating

/-!
# Two token lists side by side

A part of a program is found in the same way wherever it stands, as long as the tokens that matter
are the same. To say so, positions of two token lists are related: where a reader finds something at
a position of the one, it finds the same at a related position of the other and stops at related
positions again, and where it misses its part, it misses it there, too. Readers that are put
together of such readers are such readers.

`Mirrors` has a relation for where the readers start and one for where they stop, and the two need
not be the same: behind an opening brace other positions correspond than before it. It also says how
many tokens are taken at least on both sides, since a repetition has as many rounds as there are
tokens left, and the two lists need not be equally long. The errors of actions are not compared, as
these name positions.

There are two readers in it, one for each list. They are the same function in the end, but a reader
that asks for its position is given different ones on the two sides.
-/

set_option autoImplicit false

namespace ClosureLang

namespace Descent

variable {α β : Type} {tokens tokens' : Array Token}

/-- At positions related by `R` of two token lists, the second reader finds what the first one
finds, up to positions related by `S` and at least `n` tokens further on, and misses what that
misses. -/
structure Mirrors (tokens tokens' : Array Token) (n : Nat) (R S : Nat → Nat → Prop)
    (p p' : Descent α) : Prop where
  finds {i j k : Nat} {a : α} : R i j → p.Finds tokens i a k →
    ∃ l, p'.Finds tokens' j a l ∧ S k l ∧ i + n ≤ k ∧ j + n ≤ l
  misses {i j : Nat} : R i j → p.Misses tokens i → p'.Misses tokens' j

namespace Mirrors

variable {n m : Nat} {R S U : Nat → Nat → Prop} {p p' q q' : Descent α} {f f' : α → Descent β}

/-- A reader that takes so many tokens takes fewer. -/
theorem weaken (h : Mirrors tokens tokens' n R S p p') (le : m ≤ n) :
    Mirrors tokens tokens' m R S p p' where
  finds related found := by
    obtain ⟨l, found', next, further, further'⟩ := h.finds related found
    exact ⟨l, found', next, by omega, by omega⟩
  misses := h.misses

/-- What holds at all related positions holds at some of them. -/
theorem restrict (h : Mirrors tokens tokens' n R S p p') (sub : ∀ i j, U i j → R i j) :
    Mirrors tokens tokens' n U S p p' where
  finds related found := h.finds (sub _ _ related) found
  misses related missed := h.misses (sub _ _ related) missed

/-- A reader that never finds anything mirrors itself. -/
theorem nothing : Mirrors tokens tokens' n R S (fun _ _ => Pure.pure none : Descent α)
    (fun _ _ => Pure.pure none) where
  finds _ found := by cases found
  misses _ _ := rfl

theorem pure {a : α} : Mirrors tokens tokens' 0 R R (Pure.pure a : Descent α) (Pure.pure a) where
  finds related found := by
    obtain ⟨rfl, rfl⟩ := finds_pure_iff.mp found
    exact ⟨_, finds_pure_iff.mpr ⟨rfl, rfl⟩, related, Nat.le_refl _, Nat.le_refl _⟩
  misses _ missed := absurd missed not_misses_pure

/-- The positions from which parts start are only kept for errors. -/
theorem accept {start start' : Nat} {computed : Except ActionError α} :
    Mirrors tokens tokens' 0 R R (accept start computed) (accept start' computed) where
  finds related found := by
    obtain ⟨same, rfl⟩ := finds_accept_iff.mp found
    exact ⟨_, finds_accept_iff.mpr ⟨same, rfl⟩, related, Nat.le_refl _, Nat.le_refl _⟩
  misses _ missed := absurd missed not_misses_accept

/-- A reader that asks for its position mirrors another one, if it does so whatever the position is:
positions enter errors, not results. -/
theorem here {f f' : Nat → Descent β}
    (h : ∀ start start', Mirrors tokens tokens' n R S (f start) (f' start')) :
    Mirrors tokens tokens' n R S (Descent.here >>= f) (Descent.here >>= f') where
  finds {i j _ _} related found := by
    obtain ⟨l, found', rest⟩ := (h i j).finds related (finds_here_bind_iff.mp found)
    exact ⟨l, finds_here_bind_iff.mpr found', rest⟩
  misses {i j} related missed :=
    misses_here_bind_iff.mpr ((h i j).misses related (misses_here_bind_iff.mp missed))

/-- A token is mirrored, if related positions hold the same tokens of its kind and the positions
after these are related. -/
theorem token {kind : TokenKind} (same : ∀ i j t, R i j → t.kind = kind →
      (tokens[i]? = some t ↔ tokens'[j]? = some t))
    (next : ∀ i j t, R i j → tokens[i]? = some t → t.kind = kind → S (i + 1) (j + 1)) :
    Mirrors tokens tokens' 1 R S (Descent.token kind) (Descent.token kind) where
  finds {i j _ t} related found := by
    obtain ⟨there, isKind, rfl⟩ := finds_token_iff.mp found
    exact ⟨j + 1, finds_token_iff.mpr ⟨(same i j t related isKind).mp there, isKind, rfl⟩,
      next i j t related there isKind, Nat.le_refl _, Nat.le_refl _⟩
  misses {i j} related missed := by
    refine misses_token_iff.mpr fun t there isKind => ?_
    exact misses_token_iff.mp missed t ((same i j t related isKind).mpr there) isKind

/-- Mirroring goes through composition, with the relation in between. -/
theorem bind (h : Mirrors tokens tokens' n R S p p')
    (later : ∀ a, Mirrors tokens tokens' m S U (f a) (f' a)) :
    Mirrors tokens tokens' n R U (p >>= f) (p' >>= f') where
  finds related found := by
    obtain ⟨a, mid, first, rest⟩ := finds_bind_iff.mp found
    obtain ⟨mid', first', between, further, further'⟩ := h.finds related first
    obtain ⟨l, rest', next, last, last'⟩ := (later a).finds between rest
    exact ⟨l, finds_bind_iff.mpr ⟨a, mid', first', rest'⟩, next, by omega, by omega⟩
  misses related missed := by
    rcases misses_bind_iff.mp missed with first | ⟨a, mid, found, rest⟩
    · exact misses_bind_iff.mpr (.inl (h.misses related first))
    · obtain ⟨mid', found', between, -⟩ := h.finds related found
      exact misses_bind_iff.mpr (.inr ⟨a, mid', found', (later a).misses between rest⟩)

/-- An alternative is mirrored, if both of its readers are with the same relations. -/
theorem orElse (h : Mirrors tokens tokens' n R S p p') (h' : Mirrors tokens tokens' n R S q q') :
    Mirrors tokens tokens' n R S (p <|> q) (p' <|> q') where
  finds related found := by
    rcases finds_orElse_iff.mp found with first | ⟨missed, second⟩
    · obtain ⟨l, found', rest⟩ := h.finds related first
      exact ⟨l, finds_orElse_iff.mpr (.inl found'), rest⟩
    · obtain ⟨l, found', rest⟩ := h'.finds related second
      exact ⟨l, (h.misses related missed).orElse found', rest⟩
  misses related missed := by
    obtain ⟨first, second⟩ := misses_orElse_iff.mp missed
    exact misses_orElse_iff.mpr ⟨h.misses related first, h'.misses related second⟩

/-- A part that may be missing is mirrored, if the part leads from related positions to such. -/
theorem optional (h : Mirrors tokens tokens' n R R p p') :
    Mirrors tokens tokens' 0 R R (Descent.optional p) (Descent.optional p') :=
  orElse ((h.weaken (Nat.zero_le n)).bind fun _ => pure) pure

/-- There are rounds enough on both sides, since every step takes a token on both. -/
theorem asLongAs {step step' : α → Descent α}
    (inside : ∀ {i j}, R i j → i ≤ tokens.size ∧ j ≤ tokens'.size)
    (h : ∀ a, Mirrors tokens tokens' 1 R R (step a) (step' a)) {a : α} :
    Mirrors tokens tokens' 0 R R (Descent.asLongAs step a) (Descent.asLongAs step' a) where
  finds {i j k c} related found := by
    have proceeds : ∀ rounds rounds' a i j, R i j → tokens.size < i + rounds →
        tokens'.size < j + rounds' → (proceed step rounds a).Finds tokens i c k →
          ∃ l, (proceed step' rounds' a).Finds tokens' j c l ∧ R k l ∧ i ≤ k ∧ j ≤ l := by
      intro rounds
      induction rounds with
      | zero =>
        intro rounds' a i j related enough
        have := (inside related).1
        omega
      | succ rounds ih =>
        intro rounds' a i j related enough enough' found
        rcases finds_proceed_succ_iff.mp found with ⟨missed, rfl, rfl⟩ | ⟨b, mid, first, rest⟩
        · exact ⟨j, ((h c).misses related missed).proceed, related, Nat.le_refl _, Nat.le_refl _⟩
        · obtain ⟨mid', first', between, further, further'⟩ := (h a).finds related first
          have within := (inside between).2
          obtain ⟨rounds', rfl⟩ := Nat.exists_eq_add_one_of_ne_zero (n := rounds') (by omega)
          obtain ⟨l, rest', next, last, last'⟩ :=
            ih rounds' b mid mid' between (by omega) (by omega) rest
          exact ⟨l, finds_proceed_succ_iff.mpr (.inr ⟨b, mid', first', rest'⟩), next, by omega,
            by omega⟩
    exact proceeds _ _ a i j related (by omega) (by omega) found
  misses _ missed := absurd missed not_misses_asLongAs

section

variable (inside : ∀ {i j}, R i j → i ≤ tokens.size ∧ j ≤ tokens'.size)

include inside

/-- A repetition is mirrored, if its part takes a token and leads from related positions to such. -/
theorem many (h : Mirrors tokens tokens' 1 R R p p') :
    Mirrors tokens tokens' 0 R R (Descent.many p) (Descent.many p') :=
  (asLongAs inside fun _ => h.bind fun _ => pure).bind fun _ => pure

/-- A list is mirrored, if its first part leads to related positions and the further parts stay at
them. -/
theorem listOf (h : Mirrors tokens tokens' n S R p p') (h' : Mirrors tokens tokens' 1 R R q q') :
    Mirrors tokens tokens' n S R (Descent.listOf p q) (Descent.listOf p' q') :=
  h.bind fun _ => (many inside h').bind fun _ => pure

end

end Mirrors

end Descent

end ClosureLang
