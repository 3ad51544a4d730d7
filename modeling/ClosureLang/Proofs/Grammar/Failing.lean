import ClosureLang.Proofs.Grammar.Moving

/-!
# How readers fail

A reader fails at a position if an action fails on what was read from there on; that it finds
nothing is no failure. A reader that is put together of others fails where one of these does, and
there is a rule for each combination.

`FailsOnly` is for what all failures have in common: from positions with one property, the reader
fails with errors of one sort only. Its rules put such facts together as the readers are put
together.

Where a second reader starts is where the first one stops, so it takes facts about what readers find
to say how they fail, and not the other way round: a reader that fails has found nothing that
anything else would go on from. This is why `FailsOnly.bind` asks for what the first reader brings,
and why the property of positions has to be one that the readers on the way keep.
-/

set_option autoImplicit false

namespace ClosureLang

namespace Descent

variable {α β : Type} {tokens : Array Token} {pos k k' : Nat}

/-- The reader fails at the position with an error. -/
def Fails (p : Descent α) (tokens : Array Token) (pos : Nat) (e : ParseError) : Prop :=
  (p tokens pos).result = .error e

section

variable {p q : Descent α} {f : α → Descent β} {e : ParseError}

theorem not_fails_pure {a : α} : ¬ (pure a : Descent α).Fails tokens pos e := nofun

theorem not_fails_here : ¬ here.Fails tokens pos e := nofun

theorem not_fails_token {kind : TokenKind} : ¬ (token kind).Fails tokens pos e := nofun

/-- A computation fails with the error of an action, which names the start of the part. -/
theorem fails_accept_iff {start : Nat} {computed : Except ActionError α} :
    (accept start computed).Fails tokens pos e ↔
      ∃ cause, computed = .error cause ∧ e = .action start (spanAt? tokens start) cause := by
  cases computed with
  | ok a => exact iff_of_false not_fails_pure (by simp)
  | error cause =>
    constructor
    · intro failed
      cases failed
      exact ⟨cause, rfl, rfl⟩
    · rintro ⟨_, same, rfl⟩
      cases same
      rfl

/-- Two readers one after the other fail where the first does, or the second from where the first
one stops. -/
theorem fails_bind_iff : (p >>= f).Fails tokens pos e ↔
    p.Fails tokens pos e ∨ ∃ a mid, p.Finds tokens pos a mid ∧ (f a).Fails tokens mid e := by
  unfold Fails Finds
  rw [bind_run]
  cases first : (p tokens pos).result with
  | error e' => simp [Attempt.bind_of_error first]
  | ok r =>
    rw [Attempt.bind_of_ok first]
    rcases r with _ | ⟨a, mid⟩ <;> simp [and_assoc]

/-- Of two alternatives the second one fails the reading only where the first one misses. -/
theorem fails_orElse_iff : (p <|> q).Fails tokens pos e ↔
    p.Fails tokens pos e ∨ p.Misses tokens pos ∧ q.Fails tokens pos e := by
  unfold Fails Misses
  rw [orElse_run]
  cases first : (p tokens pos).result with
  | error e' => simp [Attempt.bind_of_error first]
  | ok r =>
    rw [Attempt.bind_of_ok first]
    rcases r with _ | ⟨a, mid⟩ <;> simp

/-- A repetition fails where its step does, or later. -/
theorem fails_proceed_succ_iff {step : α → Descent α} {rounds : Nat} {a : α} :
    (proceed step (rounds + 1) a).Fails tokens pos e ↔ (step a).Fails tokens pos e ∨
      ∃ b mid, (step a).Finds tokens pos b mid ∧ (proceed step rounds b).Fails tokens mid e := by
  unfold Fails Finds
  rw [proceed_succ]
  cases first : (step a tokens pos).result with
  | error e' => simp [Attempt.bind_of_error first]
  | ok r =>
    rw [Attempt.bind_of_ok first]
    rcases r with _ | ⟨b, mid⟩ <;> simp [and_assoc]

end

/-- From positions with `I`, the reader fails with errors of one sort only. -/
def FailsOnly (tokens : Array Token) (I : Nat → Prop) (p : Descent α) (E : ParseError → Prop) :
    Prop :=
  ∀ pos e, I pos → p.Fails tokens pos e → E e

namespace FailsOnly

variable {p q : Descent α} {f : α → Descent β} {I I' : Nat → Prop} {P : α → Nat → Prop}
  {E : ParseError → Prop}

/-- What all failures from some positions have in common those from fewer positions have, too. -/
theorem weaken (h : FailsOnly tokens I p E) (stronger : ∀ pos, I' pos → I pos) :
    FailsOnly tokens I' p E :=
  fun pos e start failed => h pos e (stronger pos start) failed

/-- A reader that takes nothing does not fail. -/
theorem pure {a : α} : FailsOnly tokens I (Pure.pure a : Descent α) E :=
  fun _ _ _ failed => absurd failed not_fails_pure

/-- A token does not fail. -/
theorem token {kind : TokenKind} : FailsOnly tokens I (Descent.token kind) E :=
  fun _ _ _ failed => absurd failed not_fails_token

/-- A computation fails with errors of the sort, if its own errors are of it. -/
theorem accept {start : Nat} {computed : Except ActionError α}
    (h : ∀ cause, computed = .error cause → E (.action start (spanAt? tokens start) cause)) :
    FailsOnly tokens I (Descent.accept start computed) E := by
  rintro pos e - failed
  obtain ⟨cause, same, rfl⟩ := fails_accept_iff.mp failed
  exact h cause same

/-- Two readers one after the other fail with errors of the sort, if the second does from wherever
the first one gets to. -/
theorem bind (h : FailsOnly tokens I p E) (brings : Brings tokens I p P)
    (h' : ∀ a, FailsOnly tokens (P a) (f a) E) : FailsOnly tokens I (p >>= f) E := by
  intro pos e start failed
  rcases fails_bind_iff.mp failed with first | ⟨a, mid, found, rest⟩
  · exact h pos e start first
  · exact h' a mid e (brings pos a mid start found) rest

/-- What comes after the reader fails with such errors wherever it starts. -/
theorem andThen (h : FailsOnly tokens I p E)
    (h' : ∀ a, FailsOnly tokens (fun _ => True) (f a) E) : FailsOnly tokens I (p >>= f) E :=
  h.bind (P := fun _ _ => True) (fun _ _ _ _ _ => trivial) h'

/-- A reader that asks for its position may use that it starts there. -/
theorem hereAt {f : Nat → Descent β} (h : ∀ start, FailsOnly tokens (fun pos => I pos ∧ pos = start)
    (f start) E) : FailsOnly tokens I (Descent.here >>= f) E := by
  intro pos e start failed
  rcases fails_bind_iff.mp failed with first | ⟨a, mid, found, rest⟩
  · exact absurd first not_fails_here
  · obtain ⟨rfl, rfl⟩ := finds_here_iff.mp found
    exact h mid mid e ⟨start, rfl⟩ rest

/-- The position is only remembered for errors. -/
theorem here {f : Nat → Descent β} (h : ∀ start, FailsOnly tokens I (f start) E) :
    FailsOnly tokens I (Descent.here >>= f) E :=
  hereAt fun start => (h start).weaken fun _ here => here.1

/-- Both alternatives have to fail with errors of the sort only. -/
theorem orElse (h : FailsOnly tokens I p E) (h' : FailsOnly tokens I q E) :
    FailsOnly tokens I (p <|> q) E := by
  intro pos e start failed
  rcases fails_orElse_iff.mp failed with first | ⟨-, second⟩
  · exact h pos e start first
  · exact h' pos e start second

/-- A part that may be missing fails as the part does. -/
theorem optional (h : FailsOnly tokens I p E) : FailsOnly tokens I (Descent.optional p) E :=
  .orElse (h.andThen fun _ => pure) pure

/-- A repetition fails as its step does, if the step stays at positions with the property. -/
theorem asLongAs {step : α → Descent α} (fails : ∀ a, FailsOnly tokens I (step a) E)
    (keeps : ∀ a, Brings tokens I (step a) fun _ => I) (a : α) :
    FailsOnly tokens I (Descent.asLongAs step a) E := by
  have proceeds : ∀ rounds a, FailsOnly tokens I (Descent.proceed step rounds a) E := by
    intro rounds
    induction rounds with
    | zero => exact fun a => pure
    | succ rounds ih =>
      intro a pos e start failed
      rcases fails_proceed_succ_iff.mp failed with first | ⟨b, mid, found, rest⟩
      · exact fails a pos e start first
      · exact ih b mid e (keeps a pos b mid start found) rest
  exact fun pos => proceeds _ a pos

/-- A list fails as its parts do, if both kinds of parts lead to positions with the property. -/
theorem listOf (first : FailsOnly tokens I p E) (brings : Brings tokens I p fun _ => I')
    (further : FailsOnly tokens I' q E) (keeps : Brings tokens I' q fun _ => I') :
    FailsOnly tokens I (Descent.listOf p q) E := by
  have many : FailsOnly tokens I' (Descent.many q) E := by
    refine FailsOnly.andThen (asLongAs (fun before => further.andThen fun _ => pure)
      (fun before => ?_) []) fun _ => pure
    exact keeps.bind fun _ => .pure fun _ kept => kept
  exact first.bind brings fun _ => many.andThen fun _ => pure

/-! Positions that are reached from others on. -/

/-- What comes after a part is read from where that stops. -/
theorem go {Q : α → Prop} (h : FailsOnly tokens (From tokens k) p E) (moves : Moves tokens k k' p Q)
    (h' : ∀ a, Q a → FailsOnly tokens (From tokens k') (f a) E) :
    FailsOnly tokens (From tokens k) (p >>= f) E :=
  h.bind moves fun a pos e ⟨reached, ha⟩ failed => h' a ha pos e reached failed

/-- The first token of a part. -/
theorem take {kind : TokenKind} {f : Token → Descent β}
    (h : ∀ t ∈ tokens, t.kind = kind → FailsOnly tokens (From tokens (k + 1)) (f t) E) :
    FailsOnly tokens (From tokens k) (Descent.token kind >>= f) E :=
  token.bind token_steps fun t pos e ⟨further, _, _, there, isKind⟩ failed =>
    h t (Array.mem_of_getElem? there) isKind pos e further failed

/-- A further token of a part. -/
theorem pass {kind : TokenKind} {f : Token → Descent β}
    (h : ∀ t ∈ tokens, t.kind = kind → FailsOnly tokens (From tokens k) (f t) E) :
    FailsOnly tokens (From tokens k) (Descent.token kind >>= f) E :=
  take fun t written isKind =>
    (h t written isKind).weaken fun _ start => start.sooner (Nat.le_succ k)

/-- A list with separators fails as its part does, if the part never goes back. -/
theorem listWith {between : TokenKind} (h : FailsOnly tokens (From tokens k) p E)
    (moves : Moves tokens k k p fun _ => True) :
    FailsOnly tokens (From tokens k) (Descent.listWith between p) E :=
  have keeps : Brings tokens (From tokens k) p fun _ => From tokens k :=
    Brings.mono moves fun _ _ reached => reached.1
  listOf h keeps (pass fun _ _ _ => h) (Moves.pass fun _ => keeps)

end FailsOnly

end Descent

end ClosureLang
