import ClosureLang.Proofs.Grammar.Parsed

/-!
# What readers find

A reader finds a part at a position, or it misses it there, or it fails. What a reader that is put
together of others finds follows from what these find, and the other way round: every combination of
readers has a rule for each.

`Finds` and `Misses` are the two outcomes without an error. A reader that is made of two
alternatives finds what the second one finds only where the first one misses, so the rules for
finding and for missing depend on each other; that a part is missing is a fact to be shown like any
other. Repetitions are taken round by round, and a bound on the rounds is part of the reader. Since
every step takes a token, the bound is never reached, but this has to be known of the step.

`Brings` is for what holds wherever something is found: from positions with one property, the reader
only gets to results and positions with another. Its rules put such facts together as the readers
are put together; a repeated step needs a property that every step keeps. Most of what is known of
parsed trees is shown in this way, by going along the readers once for each property.
-/

set_option autoImplicit false

namespace ClosureLang

namespace Token

variable {t : Token}

theorem text?_eq_some_iff {text : String} : t.text? = some text ↔ t.payload = .text text := by
  unfold text?
  split <;> simp_all

theorem number?_eq_some_iff {number : Int} :
    t.number? = some number ↔ t.payload = .number number := by
  unfold number?
  split <;> simp_all

end Token

namespace Descent

/-- A text is taken from the tokens that carry one. -/
theorem textOf_eq_ok_iff {t : Token} {text : String} :
    textOf t = .ok text ↔ t.text? = some text := by
  unfold textOf
  cases t.text? <;> simp

/-- A number is taken from the tokens that carry one. -/
theorem numberOf_eq_ok_iff {t : Token} {number : Int} :
    numberOf t = .ok number ↔ t.number? = some number := by
  unfold numberOf
  cases t.number? <;> simp

variable {α β : Type} {tokens : Array Token} {pos stop : Nat}

/-- The reader finds `a` at the position, up to `stop`. -/
def Finds (p : Descent α) (tokens : Array Token) (pos : Nat) (a : α) (stop : Nat) : Prop :=
  (p tokens pos).result = .ok (some (a, stop))

/-- The reader does not find its part at the position. -/
def Misses (p : Descent α) (tokens : Array Token) (pos : Nat) : Prop :=
  (p tokens pos).result = .ok none

/-! ## Single readers -/

section

variable {p q : Descent α} {f : α → Descent β} {a : α} {b : β}

/-- A reader does not both find and miss its part. -/
theorem Finds.not_misses (h : p.Finds tokens pos a stop) : ¬ p.Misses tokens pos := by
  intro h'
  cases h.symm.trans h'

@[simp] theorem finds_pure_iff {a' : α} :
    (pure a' : Descent α).Finds tokens pos a stop ↔ a = a' ∧ stop = pos := by
  constructor
  · intro found
    cases found
    exact ⟨rfl, rfl⟩
  · rintro ⟨rfl, rfl⟩
    rfl

@[simp] theorem not_misses_pure : ¬ (pure a : Descent α).Misses tokens pos := by
  intro missed
  cases missed

@[simp] theorem finds_here_iff {position : Nat} :
    here.Finds tokens pos position stop ↔ position = pos ∧ stop = pos := by
  constructor
  · intro found
    cases found
    exact ⟨rfl, rfl⟩
  · rintro ⟨rfl, rfl⟩
    rfl

@[simp] theorem not_misses_here : ¬ here.Misses tokens pos := by
  intro missed
  cases missed

/-- A token is found where there is one of the kind, and one position is taken. -/
@[simp] theorem finds_token_iff {kind : TokenKind} {t : Token} :
    (token kind).Finds tokens pos t stop ↔
      tokens[pos]? = some t ∧ t.kind = kind ∧ stop = pos + 1 := by
  unfold Finds token
  simp only [Except.ok.injEq, Option.map_eq_some_iff, Option.filter_eq_some_iff, beq_iff_eq,
    Prod.mk.injEq]
  constructor
  · rintro ⟨t', ⟨there, rfl⟩, rfl, rfl⟩
    exact ⟨there, rfl, rfl⟩
  · rintro ⟨there, rfl, rfl⟩
    exact ⟨t, ⟨there, rfl⟩, rfl, rfl⟩

/-- A token is missed where there is none or one of another kind. -/
@[simp] theorem misses_token_iff {kind : TokenKind} :
    (token kind).Misses tokens pos ↔ ∀ t, tokens[pos]? = some t → t.kind ≠ kind := by
  unfold Misses token
  simp [Option.filter_eq_none_iff]

/-- What was computed is found in place, if it was computed. -/
@[simp] theorem finds_accept_iff {start : Nat} {computed : Except ActionError α} :
    (accept start computed).Finds tokens pos a stop ↔ computed = .ok a ∧ stop = pos := by
  cases computed with
  | ok a' =>
    rw [Except.ok.injEq, eq_comm (a := a')]
    exact finds_pure_iff
  | error cause =>
    refine iff_of_false (fun found => ?_) (by simp)
    cases found

/-- Taking what was computed finds it or fails. -/
@[simp] theorem not_misses_accept {start : Nat} {computed : Except ActionError α} :
    ¬ (accept start computed).Misses tokens pos := by
  intro missed
  cases computed <;> cases missed

/-- Two readers one after the other find what the second finds from where the first one stops. -/
theorem finds_bind_iff : (p >>= f).Finds tokens pos b stop ↔
    ∃ a mid, p.Finds tokens pos a mid ∧ (f a).Finds tokens mid b stop := by
  unfold Finds
  rw [bind_run]
  cases first : (p tokens pos).result with
  | error e => simp [Attempt.bind_of_error first]
  | ok r =>
    rw [Attempt.bind_of_ok first]
    rcases r with _ | ⟨a, mid⟩ <;> simp [and_assoc]

/-- Two readers one after the other miss their part if the first one does, or the second one from
where the first one stops. Nothing is tried again between them. -/
theorem misses_bind_iff : (p >>= f).Misses tokens pos ↔
    p.Misses tokens pos ∨ ∃ a mid, p.Finds tokens pos a mid ∧ (f a).Misses tokens mid := by
  unfold Misses Finds
  rw [bind_run]
  cases first : (p tokens pos).result with
  | error e => simp [Attempt.bind_of_error first]
  | ok r =>
    rw [Attempt.bind_of_ok first]
    rcases r with _ | ⟨a, mid⟩ <;> simp [and_assoc]

/-- Of two alternatives the second counts only where the first one misses. -/
theorem finds_orElse_iff : (p <|> q).Finds tokens pos a stop ↔
    p.Finds tokens pos a stop ∨ p.Misses tokens pos ∧ q.Finds tokens pos a stop := by
  unfold Misses Finds
  rw [orElse_run]
  cases first : (p tokens pos).result with
  | error e => simp [Attempt.bind_of_error first]
  | ok r =>
    rw [Attempt.bind_of_ok first]
    rcases r with _ | ⟨a, mid⟩ <;> simp

/-- Where the first alternative misses, what the second one finds is found. -/
theorem Misses.orElse (h : p.Misses tokens pos) (h' : q.Finds tokens pos a stop) :
    (p <|> q).Finds tokens pos a stop :=
  finds_orElse_iff.mpr (.inr ⟨h, h'⟩)

/-- Two alternatives miss their part where both miss. -/
theorem misses_orElse_iff : (p <|> q).Misses tokens pos ↔
    p.Misses tokens pos ∧ q.Misses tokens pos := by
  unfold Misses
  rw [orElse_run]
  cases first : (p tokens pos).result with
  | error e => simp [Attempt.bind_of_error first]
  | ok r =>
    rw [Attempt.bind_of_ok first]
    rcases r with _ | ⟨a, mid⟩ <;> simp

/-- A reader that asks for its position finds what it finds with the position given. -/
@[simp] theorem finds_here_bind_iff {f : Nat → Descent β} :
    (here >>= f).Finds tokens pos b stop ↔ (f pos).Finds tokens pos b stop := by
  simp [finds_bind_iff, and_assoc]

/-- A reader that asks for its position misses its part if it does so with the position given. -/
@[simp] theorem misses_here_bind_iff {f : Nat → Descent β} :
    (here >>= f).Misses tokens pos ↔ (f pos).Misses tokens pos := by
  simp [misses_bind_iff, and_assoc]

/-- A token and what comes after it. -/
@[simp] theorem finds_token_bind_iff {kind : TokenKind} {f : Token → Descent β} :
    (token kind >>= f).Finds tokens pos b stop ↔
      ∃ t, tokens[pos]? = some t ∧ t.kind = kind ∧ (f t).Finds tokens (pos + 1) b stop := by
  simp [finds_bind_iff, and_assoc]

/-- A token and what comes after it are missed, if the token is not there or the rest is missed. -/
@[simp] theorem misses_token_bind_iff {kind : TokenKind} {f : Token → Descent β} :
    (token kind >>= f).Misses tokens pos ↔
      ∀ t, tokens[pos]? = some t → t.kind = kind → (f t).Misses tokens (pos + 1) := by
  cases there : tokens[pos]? with
  | none => simp [misses_bind_iff, there]
  | some t =>
    simp only [misses_bind_iff, misses_token_iff, finds_token_iff, there, Option.some.injEq,
      forall_eq', and_assoc, exists_eq_left', exists_eq_left, exists_and_left]
    exact ⟨fun h same => (h.resolve_left fun other => other same).2, fun h => by
      by_cases same : t.kind = kind
      · exact .inr ⟨same, h same⟩
      · exact .inl same⟩

@[simp] theorem finds_accept_bind_iff {start : Nat} {computed : Except ActionError α} :
    (accept start computed >>= f).Finds tokens pos b stop ↔
      ∃ a, computed = .ok a ∧ (f a).Finds tokens pos b stop := by
  simp [finds_bind_iff, and_assoc]

@[simp] theorem misses_accept_bind_iff {start : Nat} {computed : Except ActionError α} :
    (accept start computed >>= f).Misses tokens pos ↔
      ∃ a, computed = .ok a ∧ (f a).Misses tokens pos := by
  simp [misses_bind_iff, and_assoc]

end

/-! ## Repeated steps -/

section

variable {step : α → Descent α} {rounds : Nat} {a b c : α} {mid : Nat}

/-- A repetition with a round left stops where its step misses and goes on from where it is
found. -/
theorem finds_proceed_succ_iff : (proceed step (rounds + 1) a).Finds tokens pos c stop ↔
    (step a).Misses tokens pos ∧ c = a ∧ stop = pos ∨
      ∃ b mid, (step a).Finds tokens pos b mid ∧
        (proceed step rounds b).Finds tokens mid c stop := by
  unfold Misses Finds
  rw [proceed_succ]
  cases first : (step a tokens pos).result with
  | error e => simp [Attempt.bind_of_error first]
  | ok r =>
    rw [Attempt.bind_of_ok first]
    rcases r with _ | ⟨b, mid⟩
    · simp [eq_comm]
    · simp [and_assoc]

/-- Where there is no next step, nothing changes. -/
theorem Misses.proceed (h : (step a).Misses tokens pos) :
    (proceed step rounds a).Finds tokens pos a pos := by
  cases rounds with
  | zero => exact finds_pure_iff.mpr ⟨rfl, rfl⟩
  | succ rounds => exact finds_proceed_succ_iff.mpr (.inl ⟨h, rfl, rfl⟩)

/-- A first step and the last one. -/
theorem Finds.asLongAs_once (h : (step a).Finds tokens pos b stop) (inside : pos < tokens.size)
    (h' : (step b).Misses tokens stop) : (asLongAs step a).Finds tokens pos b stop := by
  have rounds : tokens.size + 1 - pos = (tokens.size - pos) + 1 := by omega
  show Descent.Finds (proceed step (tokens.size + 1 - pos) a) tokens pos b stop
  rw [rounds]
  exact finds_proceed_succ_iff.mpr (.inr ⟨b, stop, h, h'.proceed⟩)

/-- A repetition whose step misses at once is where it began. -/
theorem Misses.asLongAs (h : (step a).Misses tokens pos) :
    (asLongAs step a).Finds tokens pos a pos :=
  Misses.proceed h

/-- A part that is missing is no failure of the part that may be missing. -/
theorem Misses.optional {p : Descent α} (h : p.Misses tokens pos) :
    (optional p).Finds tokens pos none pos := by
  have missed : (do return some (← p) : Descent (Option α)).Misses tokens pos :=
    misses_bind_iff.mpr (.inl h)
  exact finds_orElse_iff.mpr (.inr ⟨missed, finds_pure_iff.mpr ⟨rfl, rfl⟩⟩)

/-- A repetition whose part is missing is empty. -/
theorem Misses.many {p : Descent α} (h : p.Misses tokens pos) :
    (many p).Finds tokens pos [] pos := by
  have missed : (do return (← p) :: [] : Descent (List α)).Misses tokens pos :=
    misses_bind_iff.mpr (.inl h)
  exact finds_bind_iff.mpr ⟨[], pos, Misses.asLongAs missed, finds_pure_iff.mpr ⟨rfl, rfl⟩⟩

end

/-! ## What holds of all that is found -/

/-- From positions with `I`, the reader only gets to results and positions with `P`. -/
def Brings (tokens : Array Token) (I : Nat → Prop) (p : Descent α) (P : α → Nat → Prop) : Prop :=
  ∀ pos a stop, I pos → p.Finds tokens pos a stop → P a stop

namespace Brings

variable {p q : Descent α} {f : α → Descent β} {I I' : Nat → Prop} {P P' : α → Nat → Prop}
  {R : β → Nat → Prop}

/-- A weaker property of results holds of them, too. -/
theorem mono (h : Brings tokens I p P) (weaker : ∀ a stop, P a stop → P' a stop) :
    Brings tokens I p P' :=
  fun pos a stop start found => weaker a stop (h pos a stop start found)

/-- A reader that takes nothing brings its value, if that has the property wherever it starts. -/
theorem pure {a : α} (h : ∀ pos, I pos → P a pos) :
    Brings tokens I (Pure.pure a : Descent α) P := by
  intro pos a' stop start found
  obtain ⟨rfl, rfl⟩ := finds_pure_iff.mp found
  exact h stop start

/-- A reader that finds nothing brings anything. -/
theorem nothing : Brings tokens I (fun _ _ => Pure.pure none : Descent α) P := by
  intro pos a stop start found
  cases found

/-- What was computed has the property, if it has it at every position that may be the start. -/
theorem accept {start : Nat} {computed : Except ActionError α}
    (h : ∀ a, computed = .ok a → ∀ pos, I pos → P a pos) :
    Brings tokens I (accept start computed) P := by
  intro pos a stop first found
  obtain ⟨same, rfl⟩ := finds_accept_iff.mp found
  exact h a same stop first

/-- What the first reader brings is what the second one starts with. -/
theorem bind (h : Brings tokens I p P) (h' : ∀ a, Brings tokens (P a) (f a) R) :
    Brings tokens I (p >>= f) R := by
  intro pos b stop start found
  obtain ⟨a, mid, first, rest⟩ := finds_bind_iff.mp found
  exact h' a mid b stop (h pos a mid start first) rest

/-- The position is only remembered for errors. -/
theorem here {f : Nat → Descent β} (h : ∀ start, Brings tokens I (f start) R) :
    Brings tokens I (Descent.here >>= f) R := by
  intro pos b stop start found
  exact h pos pos b stop start (finds_here_bind_iff.mp found)

/-- A reader that goes on only if the text or the number is there. -/
theorem accept_bind {start : Nat} {computed : Except ActionError α}
    (h : ∀ a, computed = .ok a → Brings tokens I (f a) R) :
    Brings tokens I (Descent.accept start computed >>= f) R := by
  intro pos b stop first found
  obtain ⟨a, same, rest⟩ := finds_accept_bind_iff.mp found
  exact h a same pos b stop first rest

/-- Both alternatives have to bring the property. -/
theorem orElse (h : Brings tokens I p P) (h' : Brings tokens I q P) :
    Brings tokens I (p <|> q) P := by
  intro pos a stop start found
  rcases finds_orElse_iff.mp found with first | ⟨-, second⟩
  · exact h pos a stop start first
  · exact h' pos a stop start second

/-- A part that may be missing brings a property that its results have and that its absence has. -/
theorem optional {P : Option α → Nat → Prop} (h : Brings tokens I p fun a => P (some a))
    (absent : ∀ pos, I pos → P none pos) : Brings tokens I (Descent.optional p) P :=
  .orElse (h.bind fun _ => pure fun _ here => here) (pure absent)

/-- What every step keeps holds in the end. -/
theorem asLongAs {step : α → Descent α} (h : ∀ a, Brings tokens (P a) (step a) P) {a : α} :
    Brings tokens (P a) (Descent.asLongAs step a) P := by
  have proceeds : ∀ rounds a, Brings tokens (P a) (Descent.proceed step rounds a) P := by
    intro rounds
    induction rounds with
    | zero => exact fun a => pure fun _ here => here
    | succ rounds ih =>
      intro a pos c stop start found
      rcases finds_proceed_succ_iff.mp found with ⟨-, rfl, rfl⟩ | ⟨b, mid, first, rest⟩
      · exact start
      · exact ih b mid c stop (h a pos b mid start first) rest
  exact fun pos => proceeds _ a pos

/-- If every step takes a token, there is no further step in the end. -/
theorem asLongAs_misses {step : α → Descent α} (inside : ∀ a pos, P a pos → pos ≤ tokens.size)
    (h : ∀ a pos b stop, P a pos → (step a).Finds tokens pos b stop → P b stop ∧ pos < stop)
    {a : α} :
    Brings tokens (P a) (Descent.asLongAs step a) fun c stop =>
      P c stop ∧ (step c).Misses tokens stop := by
  have proceeds : ∀ rounds a pos c stop, P a pos → tokens.size < pos + rounds →
      (Descent.proceed step rounds a).Finds tokens pos c stop →
        P c stop ∧ (step c).Misses tokens stop := by
    intro rounds
    induction rounds with
    | zero =>
      intro a pos c stop start enough
      have := inside a pos start
      omega
    | succ rounds ih =>
      intro a pos c stop start enough found
      rcases finds_proceed_succ_iff.mp found with ⟨missed, rfl, rfl⟩ | ⟨b, mid, first, rest⟩
      · exact ⟨start, missed⟩
      · obtain ⟨next, further⟩ := h a pos b mid start first
        exact ih b mid c stop next (by omega) rest
  intro pos c stop start found
  have := inside a pos start
  exact proceeds _ a pos c stop start (by omega) found

/-! The property of a list may depend on all that was found before. -/

/-- A repetition brings a property of the list so far that holds of the empty one and that each
further part keeps. -/
theorem many {P : List α → Nat → Prop}
    (h : ∀ before, Brings tokens (P before) p fun a => P (before ++ [a])) :
    Brings tokens (P []) (Descent.many p) P := by
  refine bind (asLongAs (P := fun before => P before.reverse) (a := []) fun before => ?_)
    fun found => ?_
  · exact (h before.reverse).bind fun a => pure fun _ found => by
      rwa [List.reverse_cons]
  · exact pure fun _ found => found

/-- A list brings a property of the list so far that holds after the first part and that each
further part keeps. -/
theorem listOf {P : List α → Nat → Prop} (first : Brings tokens I p fun a => P [a])
    (further : ∀ before, Brings tokens (P before) q fun a => P (before ++ [a])) :
    Brings tokens I (Descent.listOf p q) P := by
  refine first.bind fun a => bind (P := fun rest => P (a :: rest)) ?_ fun rest => ?_
  · exact many fun before => further (a :: before)
  · exact pure fun _ found => found

end Brings

/-! ## Whole programs -/

end Descent

/-- A token list is read to a tree if that is the program that is found from its beginning to its
end. -/
theorem parse_ok_iff_finds_of_deep {precedence : Precedence} {tokens : List Token} {program : Node}
    {depth : Nat} (deep : 2 * tokens.length + 2 ≤ depth) :
    parse precedence tokens = .ok program ↔
      (Descent.program precedence depth).Finds tokens.toArray 0 program tokens.length := by
  rw [Grammar.parse_ok_iff_of_deep deep]
  unfold descend Descent.Finds
  simp only
  split
  · next failed => simp [failed]
  · next missed => simp [missed]
  · next node stop found =>
    by_cases whole : stop = tokens.length
    · simp [found, whole]
    · simp [found, whole]

/-- A program is read exactly if the reader of programs finds it in the whole token list, given the
depth that covers the list. -/
theorem parse_ok_iff_finds {precedence : Precedence} {tokens : List Token} {program : Node} :
    parse precedence tokens = .ok program ↔
      (Descent.program precedence (2 * tokens.length + 2)).Finds tokens.toArray 0 program
        tokens.length :=
  parse_ok_iff_finds_of_deep (Nat.le_refl _)

end ClosureLang
