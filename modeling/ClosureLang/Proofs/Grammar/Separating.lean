import ClosureLang.Proofs.Grammar.Finding

/-!
# Reading separators

A separator is read up to the first token that is not a semicolon or a line end, so where reading
goes on after it depends on nothing but the tokens. More generally, what a repeated reader finds is
a series of parts one after the other, up to a position where there is no further one.

`MarksTo` says of two positions that only semicolons and line ends stand between them and none at
the second. There is exactly one such second position for each first one, so a separator that may be
missing always leads there (`finds_optional_separator_iff`), and one that may not be missing leads
there if it is further on. `Several` is the same for any reader in place of the marks: parts one
after the other from a position to another. The loop of a repetition has a bound on its rounds, and
`finds_many_iff` shows that it may be forgotten, because every part takes a token.
-/

set_option autoImplicit false

namespace ClosureLang

/-- A semicolon or a line end. -/
def TokenKind.isMark : TokenKind → Bool
  | .semicolon => true
  | .newline => true
  | _ => false

namespace Descent

variable {α : Type} {tokens : Array Token} {pos mid stop i k k' : Nat}

/-! ## Repeated parts -/

section

variable {p : Descent α} {a : α} {l l' : List α}

/-- Parts one after the other, from a position to another. -/
inductive Several (p : Descent α) (tokens : Array Token) : Nat → List α → Nat → Prop where
  | none {pos : Nat} : Several p tokens pos [] pos
  | next {pos mid stop : Nat} {a : α} {l : List α} : p.Finds tokens pos a mid →
      Several p tokens mid l stop → Several p tokens pos (a :: l) stop

/-- Parts up to a position and parts from there on are parts one after the other. -/
theorem Several.append (h : Several p tokens pos l mid) (h' : Several p tokens mid l' stop) :
    Several p tokens pos (l ++ l') stop := by
  induction h with
  | none => exact h'
  | next found _ ih => exact .next found (ih h')

/-- The reader takes a token wherever it finds something. -/
def Takes (p : Descent α) (tokens : Array Token) : Prop :=
  ∀ pos a stop, pos ≤ tokens.size → p.Finds tokens pos a stop → pos < stop ∧ stop ≤ tokens.size

/-- Going on as long as there is a next step is not missed: no step at all will do. -/
@[simp] theorem not_misses_asLongAs {step : α → Descent α} :
    ¬ (asLongAs step a).Misses tokens pos := by
  have never : ∀ rounds, ¬ (proceed step rounds a).Misses tokens pos := by
    intro rounds
    cases rounds with
    | zero => exact not_misses_pure
    | succ rounds => exact fun missed => not_misses_pure (misses_orElse_iff.mp missed).2
  exact never _

/-- A repetition is not missed, since it may be empty. -/
@[simp] theorem not_misses_many : ¬ (many p).Misses tokens pos := by
  intro missed
  rcases misses_bind_iff.mp missed with never | ⟨_, _, -, never⟩
  · exact not_misses_asLongAs never
  · exact not_misses_pure never

/-- A part that may be missing is not missed. -/
@[simp] theorem not_misses_optional : ¬ (optional p).Misses tokens pos := fun missed =>
  not_misses_pure (misses_orElse_iff.mp missed).2

/-- There are rounds enough for all parts, since every part takes a token. -/
theorem finds_many_iff (takes : p.Takes tokens) (inside : pos ≤ tokens.size) :
    (many p).Finds tokens pos l stop ↔ Several p tokens pos l stop ∧ p.Misses tokens stop := by
  -- the rounds collect the parts in reverse, in front of those that were collected before
  have proceeds : ∀ rounds pos before c, pos ≤ tokens.size → tokens.size < pos + rounds →
      ((proceed (fun before => do return (← p) :: before) rounds before).Finds tokens pos c stop ↔
        ∃ l, Several p tokens pos l stop ∧ p.Misses tokens stop ∧ c = l.reverse ++ before) := by
    intro rounds
    induction rounds with
    | zero =>
      intro pos before c inside enough
      omega
    | succ rounds ih =>
      intro pos before c inside enough
      simp only [finds_proceed_succ_iff, misses_bind_iff, not_misses_pure, and_false, exists_false,
        or_false, finds_bind_iff, finds_pure_iff]
      constructor
      · rintro (⟨missed, rfl, rfl⟩ | ⟨_, mid, ⟨a, _, found, rfl, rfl⟩, rest⟩)
        · exact ⟨[], .none, missed, rfl⟩
        · obtain ⟨further, within⟩ := takes _ _ _ inside found
          obtain ⟨l, several, missed, rfl⟩ := (ih mid (a :: before) c within (by omega)).mp rest
          exact ⟨a :: l, .next found several, missed, by simp⟩
      · rintro ⟨l, several, missed, rfl⟩
        cases several with
        | none => exact .inl ⟨missed, rfl, rfl⟩
        | @next _ mid _ a l found several =>
          obtain ⟨further, within⟩ := takes _ _ _ inside found
          refine .inr ⟨a :: before, mid, ⟨a, mid, found, rfl, rfl⟩, ?_⟩
          exact (ih mid (a :: before) _ within (by omega)).mpr ⟨l, several, missed, by simp⟩
  have rounds : tokens.size < pos + (tokens.size + 1 - pos) := by omega
  have whole (c : List α) := proceeds (tokens.size + 1 - pos) pos [] c inside rounds
  unfold many
  rw [finds_bind_iff]
  constructor
  · rintro ⟨c, mid, found, rest⟩
    obtain ⟨rfl, rfl⟩ := finds_pure_iff.mp rest
    obtain ⟨l, several, missed, rfl⟩ := (whole c).mp found
    simpa using ⟨several, missed⟩
  · rintro ⟨several, missed⟩
    refine ⟨l.reverse, stop, (whole _).mpr ⟨l, several, missed, by simp⟩, ?_⟩
    simp

end

/-! ## Separators -/

/-- There are only semicolons and line ends from a position to another, and none at that one. -/
structure MarksTo (tokens : Array Token) (i k : Nat) : Prop where
  le : i ≤ k
  marks : ∀ m, i ≤ m → m < k → ∃ t, tokens[m]? = some t ∧ t.kind.isMark = true
  ends : ∀ t, tokens[k]? = some t → t.kind.isMark = false

namespace MarksTo

/-- Where no separator is, the separators end at once. -/
theorem refl (ends : ∀ t, tokens[i]? = some t → t.kind.isMark = false) : MarksTo tokens i i :=
  ⟨Nat.le_refl i, fun _ le lt => absurd le (Nat.not_le_of_lt lt), ends⟩

/-- A separator in front of separators makes one more. -/
theorem cons {t : Token} (there : tokens[i]? = some t) (isMark : t.kind.isMark = true)
    (h : MarksTo tokens (i + 1) k) : MarksTo tokens i k := by
  refine ⟨Nat.le_of_succ_le h.le, fun m le lt => ?_, h.ends⟩
  rcases Nat.eq_or_lt_of_le le with rfl | further
  · exact ⟨t, there, isMark⟩
  · exact h.marks m further lt

/-- Separators that do not end at once begin with one, and the others come after it. -/
theorem tail (h : MarksTo tokens i k) (lt : i < k) :
    ∃ t, tokens[i]? = some t ∧ t.kind.isMark = true ∧ MarksTo tokens (i + 1) k := by
  obtain ⟨t, there, isMark⟩ := h.marks i (Nat.le_refl i) lt
  exact ⟨t, there, isMark, lt, fun m le => h.marks m (Nat.le_of_succ_le le), h.ends⟩

/-- Separators end at one position only. -/
theorem unique (h : MarksTo tokens i k) (h' : MarksTo tokens i k') : k = k' := by
  have no_less {k k' : Nat} (h : MarksTo tokens i k) (h' : MarksTo tokens i k') : k' ≤ k := by
    by_contra less
    obtain ⟨t, there, isMark⟩ := h'.marks k h.le (Nat.lt_of_not_le less)
    rw [h.ends t there] at isMark
    cases isMark
  exact Nat.le_antisymm (no_less h' h) (no_less h h')

/-- Separators end at once or further on. -/
theorem eq_or_lt (h : MarksTo tokens i k) : k = i ∨ i < k :=
  (Nat.eq_or_lt_of_le h.le).imp_left Eq.symm

/-- Separators that begin inside the tokens end inside them or right after the last one. -/
theorem inside (h : MarksTo tokens i k) (within : i ≤ tokens.size) : k ≤ tokens.size := by
  rcases h.eq_or_lt with rfl | lt
  · exact within
  · obtain ⟨t, there, -⟩ := h.marks (k - 1) (by omega) (by omega)
    have := (Array.getElem?_eq_some_iff.mp there).1
    omega

end MarksTo

/-- A semicolon or a line end is found where the token is one. -/
@[simp] theorem finds_mark_iff {t : Token} : mark.Finds tokens pos t stop ↔
    tokens[pos]? = some t ∧ t.kind.isMark = true ∧ stop = pos + 1 := by
  have kinds : t.kind.isMark = true ↔ t.kind = .semicolon ∨ t.kind = .newline := by
    cases t.kind <;> simp [TokenKind.isMark]
  simp only [mark, finds_orElse_iff, finds_token_iff, misses_token_iff, kinds]
  constructor
  · rintro (⟨there, isKind, rfl⟩ | ⟨-, there, isKind, rfl⟩)
    · exact ⟨there, .inl isKind, rfl⟩
    · exact ⟨there, .inr isKind, rfl⟩
  · rintro ⟨there, isKind | isKind, rfl⟩
    · exact .inl ⟨there, isKind, rfl⟩
    · refine .inr ⟨fun u other => ?_, there, isKind, rfl⟩
      rw [there] at other
      cases other
      simp [isKind]

/-- A semicolon or a line end is missed where the token is none. -/
@[simp] theorem misses_mark_iff :
    mark.Misses tokens pos ↔ ∀ t, tokens[pos]? = some t → t.kind.isMark = false := by
  have kinds (t : Token) : t.kind.isMark = false ↔ t.kind ≠ .semicolon ∧ t.kind ≠ .newline := by
    cases t.kind <;> simp [TokenKind.isMark]
  simp only [mark, misses_orElse_iff, misses_token_iff, kinds]
  exact ⟨fun h t there => ⟨h.1 t there, h.2 t there⟩,
    fun h => ⟨fun t there => (h t there).1, fun t there => (h t there).2⟩⟩

/-- A semicolon or a line end takes one token. -/
theorem mark_takes : mark.Takes tokens := by
  intro pos t stop _ found
  obtain ⟨there, -, rfl⟩ := finds_mark_iff.mp found
  exact ⟨Nat.lt_succ_self pos, (Array.getElem?_eq_some_iff.mp there).1⟩

/-- As many separators as there are stand one after the other exactly up to where they end. -/
theorem several_marks_iff : (∃ l, Several mark tokens i l k) ∧ mark.Misses tokens k ↔
    MarksTo tokens i k := by
  constructor
  · rintro ⟨⟨l, several⟩, missed⟩
    induction several with
    | none => exact .refl (misses_mark_iff.mp missed)
    | next found _ ih =>
      obtain ⟨there, isMark, rfl⟩ := finds_mark_iff.mp found
      exact (ih missed).cons there isMark
  · intro marks
    refine ⟨?_, misses_mark_iff.mpr marks.ends⟩
    obtain ⟨n, rfl⟩ := Nat.exists_eq_add_of_le marks.le
    induction n generalizing i with
    | zero => exact ⟨[], .none⟩
    | succ n ih =>
      obtain ⟨t, there, isMark, rest⟩ := marks.tail (by omega)
      rw [← Nat.succ_add_eq_add_succ i n] at rest ⊢
      obtain ⟨l, several⟩ := ih rest
      exact ⟨t :: l, .next (finds_mark_iff.mpr ⟨there, isMark, rfl⟩) several⟩

/-- A separator is found up to where the semicolons and line ends do end, if there is at least
one. -/
theorem finds_separator_iff :
    (∃ l, separator.Finds tokens i l k) ↔ MarksTo tokens i k ∧ i < k := by
  have further {t : Token} (there : tokens[i]? = some t) (l : List Token) :
      (many mark).Finds tokens (i + 1) l k ↔
        Several mark tokens (i + 1) l k ∧ mark.Misses tokens k :=
    finds_many_iff mark_takes (Array.getElem?_eq_some_iff.mp there).1
  constructor
  · rintro ⟨l, found⟩
    obtain ⟨t, _, first, rest⟩ := finds_bind_iff.mp found
    obtain ⟨there, isMark, rfl⟩ := finds_mark_iff.mp first
    obtain ⟨l', _, rest, last⟩ := finds_bind_iff.mp rest
    obtain ⟨-, rfl⟩ := finds_pure_iff.mp last
    obtain ⟨several, missed⟩ := (further there l').mp rest
    have marks := several_marks_iff.mp ⟨⟨l', several⟩, missed⟩
    exact ⟨marks.cons there isMark, marks.le⟩
  · rintro ⟨marks, lt⟩
    obtain ⟨t, there, isMark, rest⟩ := marks.tail lt
    obtain ⟨⟨l, several⟩, missed⟩ := several_marks_iff.mpr rest
    refine ⟨t :: l, finds_bind_iff.mpr ⟨t, i + 1, finds_mark_iff.mpr ⟨there, isMark, rfl⟩, ?_⟩⟩
    exact finds_bind_iff.mpr ⟨l, k, (further there l).mpr ⟨several, missed⟩, by simp⟩

/-- A separator is missed where there is neither semicolon nor line end. -/
theorem misses_separator_iff : separator.Misses tokens i ↔ MarksTo tokens i i := by
  have first : separator.Misses tokens i ↔ mark.Misses tokens i := by
    simp [separator, listOf, misses_bind_iff]
  rw [first, misses_mark_iff]
  exact ⟨.refl, MarksTo.ends⟩

/-- A separator that may be missing leads to where the semicolons and line ends do end. -/
theorem finds_optional_separator_iff :
    (∃ l, (optional separator).Finds tokens i l k) ↔ MarksTo tokens i k := by
  simp only [optional, finds_orElse_iff, finds_bind_iff, misses_bind_iff, finds_pure_iff,
    not_misses_pure, and_false, exists_false, or_false, misses_separator_iff]
  constructor
  · rintro ⟨_, ⟨l, _, found, rfl, rfl⟩ | ⟨marks, rfl, rfl⟩⟩
    · exact (finds_separator_iff.mp ⟨l, found⟩).1
    · exact marks
  · intro marks
    rcases marks.eq_or_lt with rfl | lt
    · exact ⟨none, .inr ⟨marks, rfl, rfl⟩⟩
    · obtain ⟨l, found⟩ := finds_separator_iff.mpr ⟨marks, lt⟩
      exact ⟨some l, .inl ⟨l, k, found, rfl, rfl⟩⟩

end Descent

end ClosureLang
