import ClosureLang.Proofs.Rule.Congruence

/-!
# Where matches end

A rule that is tried at a position finds nothing before it, and does not go beyond the tokens: a
match ends within them, unless it starts past them, where it is empty. That holds of every rule and
every set of definitions, as long as it holds of what is remembered, and no token is looked at any
further on either.

`Match.Spans` says it of a match, `MemoTable.Spanning` of all that is remembered, and
`Progress.Within` of what happened between two states: the furthest position only grew, and it did
not leave the tokens. `Rule.Stays` puts these together for a rule. It speaks of answers only; a
computation that fails or runs out of fuel is left to others. Parts of a rule hand their states on,
so the three go through sequences, alternatives and repetitions by `Progress.Within.trans` and
`further`. A grown match ends where the last planted one did, and each of these was found by the
body at the same position.
-/

set_option autoImplicit false

namespace ClosureLang

/-- The match starts at `pos` and ends within `n` tokens, or where it starts if that is past
them. -/
structure Match.Spans (n pos : Nat) (m : Match) : Prop where
  start : pos ≤ m.stop
  stop : m.stop ≤ max pos n

/-- The remembered matches start at their positions and end within `n` tokens. -/
def MemoTable.Spanning (n : Nat) (t : MemoTable) : Prop :=
  ∀ place m, t.find? place = some (.resolved (some m)) → m.Spans n place.position

namespace MemoTable.Spanning

variable {n : Nat} {t : MemoTable} {place : Place}

/-- Where nothing is remembered, nothing is remembered wrongly. -/
theorem empty : (∅ : MemoTable).Spanning n := fun _ _ found => by cases found

/-- Remembering a match that spans its place keeps the table so. -/
theorem insert (h : t.Spanning n) {memo : Memo}
    (spans : ∀ m, memo = .resolved (some m) → m.Spans n place.position) :
    (t.insert place memo).Spanning n := by
  intro other m found
  by_cases same : other = place
  · subst same
    rw [find?_insert_self] at found
    exact spans m (Option.some.inj found)
  · rw [find?_insert_of_ne t memo same] at found
    exact h other m found

/-- Dropping results keeps the table so. -/
theorem forget (h : t.Spanning n) : (t.forget place).Spanning n := by
  intro other m found
  rw [find?_forget] at found
  exact h other m (Option.filter_eq_some_iff.mp found).1

end MemoTable.Spanning

/-- Between two states nothing was done outside the tokens from `pos` on. -/
structure Progress.Within (n pos : Nat) (s s' : Progress) : Prop where
  spanning : s'.memo.Spanning n
  furthest : s'.furthest ≤ max s.furthest (max pos n)

namespace Progress.Within

variable {n pos : Nat} {s s₁ s' : Progress}

/-- A state from which nothing was done stays within any tokens. -/
theorem refl (h : s.memo.Spanning n) : Within n pos s s := ⟨h, Nat.le_max_left ..⟩

/-- Two steps from the same position stay within what each of them does. -/
theorem trans (h : Within n pos s s₁) (h' : Within n pos s₁ s') : Within n pos s s' :=
  ⟨h'.spanning, by have := h.furthest; have := h'.furthest; omega⟩

/-- From the end of a match on. -/
theorem further {m : Match} (h : Within n pos s s₁) (spans : m.Spans n pos)
    (h' : Within n m.stop s₁ s') : Within n pos s s' :=
  ⟨h'.spanning, by
    have := h.furthest; have := h'.furthest; have := spans.stop
    omega⟩

end Progress.Within

/-- A match that begins where another one ends ends within the same tokens. -/
theorem Match.Spans.trans {n pos : Nat} {m m' : Match} (h : m.Spans n pos)
    (h' : m'.Spans n m.stop) : m'.Spans n pos :=
  ⟨Nat.le_trans h.start h'.start, by have := h.stop; have := h'.stop; omega⟩

namespace Matching

variable {α β : Type} {x : Matching α} {s : Progress} {post post' : α → Progress → Prop}

/-- If the computation answers, its answer satisfies the postcondition. -/
def Answers (x : Matching α) (s : Progress) (post : α → Progress → Prop) : Prop :=
  ∀ a s', x s = .ok a s' → post a s'

namespace Answers

/-- An answer that satisfies a postcondition satisfies a weaker one. -/
theorem mono (h : x.Answers s post) (weaker : ∀ a s', post a s' → post' a s') :
    x.Answers s post' :=
  fun a s' run => weaker a s' (h a s' run)

/-- What the first computation answers is where the rest begins. -/
theorem bind {f : α → Matching β} {post : β → Progress → Prop}
    (h : x.Answers s fun a s' => (f a).Answers s' post) : (x >>= f).Answers s post := by
  intro b s' run
  cases first : x s with
  | ok a s₁ =>
    rw [bind_run_of_ok first] at run
    exact h a s₁ first b s' run
  | error halt s₁ =>
    rw [bind_run_of_error first] at run
    cases run

/-- A computation that does nothing answers with its value. -/
theorem pure {a : α} (h : post a s) : (Pure.pure a : Matching α).Answers s post := by
  intro b s' run
  cases run
  exact h

/-- A computation that halts has no answer. -/
theorem throw {halt : Halt} : (throw halt : Matching α).Answers s post := by
  intro a s' run
  cases run

/-- Looking up a place answers with what is remembered there. -/
theorem remembered? {place : Place} {post : Option Memo → Progress → Prop}
    (h : post (s.memo.find? place) s) : (remembered? place).Answers s post := by
  intro memo s' run
  cases run
  exact h

/-- Remembering something enters it. -/
theorem remember {place : Place} {memo : Memo} {post : Unit → Progress → Prop}
    (h : post () { s with memo := s.memo.insert place memo }) :
    (remember place memo).Answers s post := by
  intro _ s' run
  cases run
  exact h

/-- Planting a seed enters it and drops what else is known at its position. -/
theorem plant {place : Place} {seed : Match} {post : Unit → Progress → Prop}
    (h : post () { s with memo := (s.memo.insert place (.resolved (some seed))).forget place }) :
    (plant place seed).Answers s post := by
  intro _ s' run
  cases run
  exact h

end Answers

/-! ## Trying rules -/

variable {n : Nat}

/-- What is known of the answer of a rule that is tried at `pos`. -/
def Bounded (n pos : Nat) (s : Progress) (found : Option Match) (s' : Progress) : Prop :=
  Progress.Within n pos s s' ∧ ∀ m ∈ found, m.Spans n pos

/-- Wherever it is tried, the rule stays within the tokens. -/
def Stays (n : Nat) (attempt : Nat → Matching (Option Match)) : Prop :=
  ∀ pos s, s.memo.Spanning n → (attempt pos).Answers s (Bounded n pos s)

/-- That nothing matched is an answer within the tokens, if the state is. -/
theorem bounded_none {pos : Nat} {s s' : Progress} (h : Progress.Within n pos s s') :
    Bounded n pos s none s' :=
  ⟨h, fun m hm => by cases hm⟩

/-- A match that spans the tokens is an answer within them, if the state is. -/
theorem bounded_some {pos : Nat} {s s' : Progress} {m : Match} (h : Progress.Within n pos s s')
    (spans : m.Spans n pos) : Bounded n pos s (some m) s' :=
  ⟨h, fun _ same => Option.some.inj same ▸ spans⟩

/-- A token is looked at where the rule is tried, and taken only if it is there. -/
theorem terminal_stays {tokens : Array Token} {kind : TokenKind} :
    Stays tokens.size (terminal tokens kind) := by
  intro pos s spanning found s' run
  cases run
  refine ⟨⟨spanning, by simp only; omega⟩, fun m hm => ?_⟩
  obtain ⟨t, there, rfl⟩ := Option.map_eq_some_iff.mp hm
  have inside := (Array.getElem?_eq_some_iff.mp (Option.filter_eq_some_iff.mp there).1).1
  exact ⟨Nat.le_succ pos, by simp only; omega⟩

/-- A sequence stays within the tokens if its rules do: each of them starts where the one before it
ended. -/
theorem sequence_stays {attempt : Rule → Nat → Matching (Option Match)}
    (each : ∀ rule, Stays n (attempt rule)) (rules : List Rule) (before : List Value) :
    Stays n (sequence attempt rules before) := by
  induction rules generalizing before with
  | nil =>
    intro pos s spanning
    exact .pure (bounded_some (.refl spanning) ⟨Nat.le_refl pos, Nat.le_max_left ..⟩)
  | cons rule rules ih =>
    intro pos s spanning
    refine ((each rule pos s spanning).mono ?_).bind
    rintro (_ | m) s₁ ⟨within, spans⟩
    · exact .pure (bounded_none within)
    have here := spans m rfl
    refine (ih (m.value :: before) m.stop s₁ within.spanning).mono ?_
    rintro found s' ⟨within', spans'⟩
    exact ⟨within.further here within', fun m' hm' => here.trans (spans' m' hm')⟩

/-- Alternatives stay within the tokens if each of them does. -/
theorem alternation_stays {attempt : Rule → Nat → Matching (Option Match)}
    (each : ∀ rule, Stays n (attempt rule)) (rules : List Rule) :
    Stays n (alternation attempt rules) := by
  induction rules with
  | nil =>
    intro pos s spanning
    exact .pure (bounded_none (.refl spanning))
  | cons rule rules ih =>
    intro pos s spanning
    refine ((each rule pos s spanning).mono ?_).bind
    rintro (_ | m) s₁ ⟨within, spans⟩
    · refine (ih pos s₁ within.spanning).mono ?_
      rintro found s' ⟨within', spans'⟩
      exact ⟨within.trans within', spans'⟩
    · exact .pure (bounded_some within (spans m rfl))

/-- The rounds of a repetition start where the one before ended, so all of them stay within the
tokens. -/
theorem rounds_stay {attempt : Nat → Matching (Option Match)} (each : Stays n attempt)
    (most : Option Nat) (fuel : Nat) (before : List Value) (pos : Nat) {s : Progress}
    (spanning : s.memo.Spanning n) :
    (rounds attempt fuel most before pos).Answers s fun result s' =>
      Progress.Within n pos s s' ∧ ∀ value, (⟨value, result.2⟩ : Match).Spans n pos := by
  have stopped (s : Progress) (spanning : s.memo.Spanning n) (pos : Nat) :
      Progress.Within n pos s s ∧ ∀ value, (⟨value, pos⟩ : Match).Spans n pos :=
    ⟨.refl spanning, fun _ => ⟨Nat.le_refl pos, Nat.le_max_left ..⟩⟩
  induction fuel generalizing before pos s with
  | zero => exact .throw
  | succ fuel ih =>
    unfold rounds
    split
    · exact .pure (stopped s spanning pos)
    refine ((each pos s spanning).mono ?_).bind
    rintro (_ | m) s₁ ⟨within, spans⟩
    · exact .pure ⟨within, (stopped s₁ within.spanning pos).2⟩
    have here := spans m rfl
    simp only
    split
    · refine (ih (m.value :: before) m.stop within.spanning).mono ?_
      rintro result s' ⟨within', spans'⟩
      exact ⟨within.further here within', fun value => here.trans (spans' value)⟩
    · exact .pure ⟨within, fun _ => ⟨here.start, here.stop⟩⟩

/-- A repetition stays within the tokens if its rule does. -/
theorem repetition_stays {attempt : Nat → Matching (Option Match)} (each : Stays n attempt)
    (fuel least : Nat) (most : Option Nat) : Stays n (repetition attempt fuel least most) := by
  intro pos s spanning
  refine ((rounds_stay each most fuel [] pos spanning).mono ?_).bind
  rintro ⟨values, stop⟩ s₁ ⟨within, spans⟩
  simp only
  split
  · exact .pure (bounded_none within)
  · exact .pure (bounded_some within (spans _))

/-- An action takes no tokens. -/
theorem map_stays {tokens : Array Token} {attempt : Nat → Matching (Option Match)}
    (each : Stays n attempt) (action : Action) :
    Stays n (fun pos => do map tokens (← attempt pos) action pos) := by
  intro pos s spanning
  refine ((each pos s spanning).mono ?_).bind
  rintro (_ | m) s₁ ⟨within, spans⟩
  · exact .pure (bounded_none within)
  · have here := spans m rfl
    unfold map
    simp only
    split
    · exact .pure (bounded_some within ⟨here.start, here.stop⟩)
    · exact .throw

/-- Growing a match stays within the tokens: it ends with a match that was planted, and each of
these was found by trying the body at the same position. -/
theorem grow_stays {attempt : Nat → Matching (Option Match)} (each : Stays n attempt)
    (place : Place) (fuel : Nat) {seed : Match} {s : Progress} (spanning : s.memo.Spanning n)
    (spans : seed.Spans n place.position) :
    (grow (attempt place.position) place fuel seed).Answers s fun m s' =>
      Progress.Within n place.position s s' ∧ m.Spans n place.position := by
  induction fuel generalizing seed s with
  | zero => exact .throw
  | succ fuel ih =>
    have planted : ((s.memo.insert place (.resolved (some seed))).forget place).Spanning n :=
      (spanning.insert fun m hm => by cases hm; exact spans).forget
    refine (Answers.plant ?_).bind
    refine ((each place.position _ planted).mono ?_).bind
    rintro (_ | grown) s₁ ⟨within, spans₁⟩
    · exact .pure ⟨⟨within.spanning, within.furthest⟩, spans⟩
    simp only
    split
    · refine (ih within.spanning (spans₁ grown rfl)).mono ?_
      rintro m s' ⟨within', spans'⟩
      exact ⟨⟨within'.spanning, (within.trans within').furthest⟩, spans'⟩
    · exact .pure ⟨⟨within.spanning, within.furthest⟩, spans⟩

/-- Entering a forward stays within the tokens, and so does what it remembers of itself. -/
theorem enter_stays {attempt : Nat → Matching (Option Match)} (each : Stays n attempt)
    (fuel : Nat) (place : Place) {s : Progress} (spanning : s.memo.Spanning n) :
    (enter (attempt place.position) fuel place).Answers s (Bounded n place.position s) := by
  -- the result is remembered, whichever way it came about
  have remembered (result : Option Match) (s' : Progress)
      (within : Progress.Within n place.position s s')
      (spans : ∀ m ∈ result, m.Spans n place.position) :
      (do remember place (.resolved result); return result : Matching _).Answers s'
        (Bounded n place.position s) := by
    refine (Answers.remember ?_).bind
    refine .pure ⟨⟨within.spanning.insert fun m hm => ?_, within.furthest⟩, spans⟩
    exact spans m (Memo.resolved.inj hm)
  refine (Answers.remember ?_).bind
  refine ((each place.position _ (spanning.insert fun m hm => by cases hm)).mono ?_).bind
  intro first s₁ ⟨within, spans⟩
  refine (Answers.remembered? ?_).bind
  split
  · next seed _ =>
    rw [map_eq_pure_bind]
    refine Answers.bind (.bind ?_)
    refine (grow_stays each place fuel within.spanning (spans seed rfl)).mono ?_
    rintro grown s₂ ⟨within', spans'⟩
    refine .pure (remembered (some grown) s₂ ⟨within'.spanning, (within.trans within').furthest⟩ ?_)
    exact fun m hm => Option.some.inj hm ▸ spans'
  · exact Answers.bind (.pure (remembered _ s₁ ⟨within.spanning, within.furthest⟩ spans))

/-- A forward stays within the tokens, whether it is looked up or tried. -/
theorem forward_stays {definitions : Definitions} {attempt : Rule → Nat → Matching (Option Match)}
    (each : ∀ rule, Stays n (attempt rule)) (fuel : Nat) (target : Forward) :
    Stays n (forward definitions attempt fuel target) := by
  intro pos s spanning
  refine (Answers.remembered? ?_).bind
  split
  · have marked : (s.memo.insert ⟨target.id, pos⟩ (.pending true)).Spanning n :=
      spanning.insert fun m hm => by cases hm
    refine (Answers.remember ?_).bind
    exact .pure (bounded_none ⟨marked, Nat.le_max_left ..⟩)
  · next result found =>
    exact .pure ⟨.refl spanning, fun m hm => spanning _ m (hm ▸ found)⟩
  · split
    · exact .throw
    · next body _ => exact enter_stays (each body) fuel ⟨target.id, pos⟩ spanning

end Matching

/-- Every rule stays within the tokens, whatever the forwards stand for. -/
theorem Rule.match?_stays (definitions : Definitions) (tokens : Array Token) (fuel : Nat)
    (rule : Rule) : Matching.Stays tokens.size (rule.match? definitions tokens fuel) := by
  induction fuel generalizing rule with
  | zero => exact fun _ _ _ => .throw
  | succ fuel ih =>
    cases rule with
    | terminal kind => exact Matching.terminal_stays
    | sequence rules => exact Matching.sequence_stays ih rules []
    | alternation rules => exact Matching.alternation_stays ih rules
    | repetition rule least most => exact Matching.repetition_stays (ih rule) fuel least most
    | map rule action => exact Matching.map_stays (ih rule) action
    | forward target => exact Matching.forward_stays ih fuel target

end ClosureLang
