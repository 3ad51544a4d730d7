import ClosureLang.Proofs.Rule.Plain
import ClosureLang.Proofs.Rule.Reading

/-!
# What is remembered does not show

Without left recursion a rule gives the same with the remembered results as without them. A result
is remembered for a forward and a position only, but so is the outcome of its evaluation: that does
not depend on what is being tried around it. So the remembered results of any number of trials are
outcomes of evaluations, whoever asked for them first, and the next trial finds nothing else.

On the other side stands evaluation that remembers nothing (`Rule.evaluate`). It has no seeds, so it
is interrupted where a forward is tried inside itself at the same position; where that does not
happen it is settled, and its outcome depends neither on the fuel nor on what is being tried around
it. The comparison is therefore in one direction. `Evaluates` says: if the evaluation is settled,
the trial has its outcome, whether that is a match, no match or the error of an action, and what is
remembered afterwards is in order, unless the trial failed.

To be in order is `MemoTable.Consistent`: what is marked as pending are the forwards that are being
tried, none of which was met again, and every result is the outcome of the evaluation of its forward
at its position. All forwards have to come from one builder, since results are remembered under
numbers that only mean something there.

The invariant depends on what is being tried, which changes when a forward is entered and changes
back when it is left. So `Unaffected` is stated for any way in which what is kept depends on it, and
single rules only hand it on; `enter` and `settle` are the two steps where it changes. Failing
actions are the one thing that ends a sequence of trials in order: a trial that failed leaves its
marks behind, and so nothing is said of those after it.
-/

set_option autoImplicit false

namespace ClosureLang

section

variable (definitions : Definitions) (tokens : List Token) (number : Nat)

/-- The marks are those of the forwards that are being tried, which were not met again, and the
results are outcomes of evaluations. All forwards are those of one builder. -/
structure MemoTable.Consistent (opened : List (Forward × Nat)) (t : MemoTable) : Prop where
  pending : ∀ place reentered, t.find? place = some (.pending reentered) →
    (⟨number, place.id⟩, place.position) ∈ opened
  opened : ∀ place, (⟨number, place.id⟩, place.position) ∈ opened →
    t.find? place = some (.pending false)
  resolved : ∀ place result, t.find? place = some (.resolved result) →
    ∃ fuel, Rule.evaluate definitions tokens fuel [] (.forward ⟨number, place.id⟩) place.position =
      .ok result

end

section

variable {definitions : Definitions} {tokens : List Token} {number : Nat}
  {opened : List (Forward × Nat)} {t : MemoTable}

namespace MemoTable.Consistent

/-- Where nothing is remembered and nothing is being tried, the table is consistent. -/
theorem empty : (∅ : MemoTable).Consistent definitions tokens number [] where
  pending place reentered found := by cases found
  opened place mem := absurd mem List.not_mem_nil
  resolved place result found := by cases found

/-- A place of which nothing is remembered is not being tried. -/
theorem not_opened (h : t.Consistent definitions tokens number opened) {place : Place}
    (absent : t.find? place = none) : (⟨number, place.id⟩, place.position) ∉ opened := by
  intro mem
  rw [h.opened place mem] at absent
  cases absent

/-- What is being tried besides a place was being tried before. -/
theorem mem_of_ne {place other : Place} (apart : other ≠ place)
    (mem : (⟨number, other.id⟩, other.position) ∈ (⟨number, place.id⟩, place.position) :: opened) :
    (⟨number, other.id⟩, other.position) ∈ opened := by
  refine (List.mem_cons.mp mem).resolve_left fun eq => apart ?_
  cases other
  cases place
  simpa using eq

/-- A forward begins to be tried. -/
theorem enter (h : t.Consistent definitions tokens number opened) (place : Place) :
    (t.insert place (.pending false)).Consistent definitions tokens number
      ((⟨number, place.id⟩, place.position) :: opened) where
  pending other reentered found := by
    by_cases same : other = place
    · exact same ▸ List.mem_cons_self
    · rw [find?_insert_of_ne t _ same] at found
      exact List.mem_cons_of_mem _ (h.pending other reentered found)
  opened other mem := by
    by_cases same : other = place
    · rw [same, find?_insert_self]
    · rw [find?_insert_of_ne t _ same]
      exact h.opened other (mem_of_ne same mem)
  resolved other result found := by
    by_cases same : other = place
    · rw [same, find?_insert_self] at found
      cases found
    · rw [find?_insert_of_ne t _ same] at found
      exact h.resolved other result found

/-- A forward was tried, with the result of its evaluation. -/
theorem settle {place : Place} {result : Option Match}
    (h : t.Consistent definitions tokens number
      ((⟨number, place.id⟩, place.position) :: opened))
    (closed : (⟨number, place.id⟩, place.position) ∉ opened)
    (settled : ∃ fuel, Rule.evaluate definitions tokens fuel [] (.forward ⟨number, place.id⟩)
      place.position = .ok result) :
    (t.insert place (.resolved result)).Consistent definitions tokens number opened where
  pending other reentered found := by
    by_cases same : other = place
    · rw [same, find?_insert_self] at found
      cases found
    · rw [find?_insert_of_ne t _ same] at found
      exact mem_of_ne same (h.pending other reentered found)
  opened other mem := by
    have apart : other ≠ place := fun same => closed (same ▸ mem)
    rw [find?_insert_of_ne t _ apart]
    exact h.opened other (List.mem_cons_of_mem _ mem)
  resolved other found known := by
    by_cases same : other = place
    · rw [same, find?_insert_self] at known
      cases known
      exact same ▸ settled
    · rw [find?_insert_of_ne t _ same] at known
      exact h.resolved other found known

end MemoTable.Consistent

end

namespace Matching

variable {α β : Type} {kept kept₁ : MemoTable → Prop} {s s₁ : Progress}

/-- If the plain computation is settled, the other one has its outcome, and what is remembered after
an answer satisfies `kept`. -/
def Evaluates (kept : MemoTable → Prop) (x : Matching α) (s : Progress) : Plain α → Prop
  | .ok a => ∃ s', x s = .ok a s' ∧ kept s'.memo
  | .error (.failed e) => ∃ s', x s = .error (.failed e) s'
  | .error .reentered => True
  | .error .outOfFuel => True

namespace Evaluates

/-- The same value is the outcome of both. -/
theorem pure {a : α} (here : kept s.memo) : Evaluates kept (Pure.pure a) s (Pure.pure a) :=
  ⟨s, rfl, here⟩

/-- An evaluation that is not settled asks for nothing. -/
theorem of_settled {x : Matching α} {r : Plain α} (h : r.Settled → Evaluates kept x s r) :
    Evaluates kept x s r := by
  match r, h with
  | .ok a, h => exact h (Plain.settled_ok a)
  | .error (.failed e), h => exact h (Plain.settled_failed e)
  | .error .reentered, _ => trivial
  | .error .outOfFuel, _ => trivial

/-- The same error of an action is the outcome of both. -/
theorem failure {e : ParseError} :
    Evaluates kept (throw (.failed e) : Matching α) s (throw (.failed e)) :=
  ⟨s, rfl⟩

/-- The outcome of a composition is that of the plain one, if the parts have the same outcomes. -/
theorem bind {x : Matching α} {r : Plain α} {f : α → Matching β} {g : α → Plain β}
    (h : Evaluates kept₁ x s r)
    (later : ∀ a s₁, r = .ok a → kept₁ s₁.memo → Evaluates kept (f a) s₁ (g a)) :
    Evaluates kept (x >>= f) s (r >>= g) := by
  cases r with
  | ok a =>
    obtain ⟨s₁, run, here⟩ := h
    have outcome := later a s₁ rfl here
    change Evaluates kept (x >>= f) s (g a)
    unfold Evaluates at outcome ⊢
    rwa [bind_run_of_ok run]
  | error cause =>
    cases cause with
    | failed e =>
      obtain ⟨s', run⟩ := h
      exact ⟨s', bind_run_of_error run⟩
    | reentered => trivial
    | outOfFuel => trivial

/-- A step that the plain computation does not take. -/
theorem step {x : Matching α} {f : α → Matching β} {a : α} {r : Plain β} (run : x s = .ok a s₁)
    (h : Evaluates kept (f a) s₁ r) : Evaluates kept (x >>= f) s r := by
  unfold Evaluates at h ⊢
  rwa [bind_run_of_ok run]

/-- A settled outcome is an answer or a failure. -/
theorem outcome {x : Matching α} {r : Plain α} (h : Evaluates kept x s r) (settled : r.Settled) :
    (∃ a s', r = .ok a ∧ x s = .ok a s' ∧ kept s'.memo) ∨
      ∃ e s', r = .error (.failed e) ∧ x s = .error (.failed e) s' := by
  match r, h, settled with
  | .ok a, ⟨s', run, here⟩, _ => exact .inl ⟨a, s', rfl, run, here⟩
  | .error (.failed e), ⟨s', run⟩, _ => exact .inr ⟨e, s', rfl, run⟩
  | .error .reentered, _, settled => exact absurd rfl settled.1
  | .error .outOfFuel, _, settled => exact absurd rfl settled.2

end Evaluates

/-- What is remembered makes no difference to the rule as long as it satisfies `kept`, and it still
does afterwards. -/
def Unaffected (kept : MemoTable → Prop) (attempt : Nat → Matching (Option Match))
    (plain : Nat → Plain (Option Match)) : Prop :=
  ∀ pos s, kept s.memo → Evaluates kept (attempt pos) s (plain pos)

/-! ## Trying rules -/

/-- A token is looked at in the same way. -/
theorem terminal_evaluates {definitions : Definitions} {tokens : List Token} {fuel : Nat}
    {opened : List (Forward × Nat)} (kind : TokenKind) :
    Unaffected kept (terminal tokens.toArray kind)
      (Rule.evaluate definitions tokens (fuel + 1) opened (.terminal kind)) := by
  intro pos s here
  have outcome : Rule.evaluate definitions tokens (fuel + 1) opened (.terminal kind) pos =
      .ok ((tokens[pos]?.filter (·.kind == kind)).map fun t => ⟨.token t, pos + 1⟩) := by
    unfold Rule.evaluate
    cases tokens[pos]? with
    | none => rfl
    | some t => by_cases same : t.kind = kind <;> simp [same, Option.filter, Pure.pure, Except.pure]
  rw [outcome, ← List.getElem?_toArray]
  exact ⟨{ s with furthest := max s.furthest pos }, rfl, here⟩

section

variable {attempt : Rule → Nat → Matching (Option Match)}
  {plain : Rule → Nat → Plain (Option Match)} {rules : List Rule}
  (each : ∀ rule ∈ rules, Unaffected kept (attempt rule) (plain rule))

include each

/-- A sequence is unaffected if its rules are; the values found so far stand before those to
come. -/
theorem sequence_evaluates (before : List Value) :
    Unaffected kept (sequence attempt rules before) (fun pos => do
      return (← Plain.sequence plain rules pos).map fun (values, stop) =>
        ⟨.sequence (before.reverse ++ values), stop⟩) := by
  induction rules generalizing before with
  | nil =>
    intro pos s here
    simp only [Plain.sequence, pure_bind, Option.map_some, List.append_nil]
    exact .pure here
  | cons rule rules ih =>
    intro pos s here
    simp only [Plain.sequence, bind_assoc]
    refine (each rule List.mem_cons_self pos s here).bind fun found s₁ _ here₁ => ?_
    cases found with
    | none => exact .pure here₁
    | some m =>
      have later := ih (fun rule mem => each rule (List.mem_cons_of_mem _ mem)) (m.value :: before)
        m.stop s₁ here₁
      simp only [bind_assoc, pure_bind, Option.map_map]
      simpa [Function.comp_def] using later

/-- Alternatives are unaffected if each of them is. -/
theorem alternation_evaluates :
    Unaffected kept (alternation attempt rules) (Plain.alternation plain rules) := by
  intro pos s here
  induction rules generalizing s with
  | nil => exact .pure here
  | cons rule rules ih =>
    refine (each rule List.mem_cons_self pos s here).bind fun found s₁ _ here₁ => ?_
    cases found with
    | none => exact ih (fun rule mem => each rule (List.mem_cons_of_mem _ mem)) s₁ here₁
    | some m => exact .pure here₁

end

section

variable {attempt : Nat → Matching (Option Match)} {plain : Nat → Plain (Option Match)}

/-- What is left of the allowed matches goes down as the values before go up. -/
theorem rounds_evaluate (each : Unaffected kept attempt plain) {most : Option Nat} (fuel : Nat)
    (before : List Value) (pos : Nat) (allowed : ∀ n ∈ most, before.length ≤ n)
    (here : kept s.memo) :
    Evaluates kept (rounds attempt fuel most before pos) s (do
      let (values, stop) ← Plain.rounds plain fuel (most.map (· - before.length)) pos
      return (before.reverse ++ values, stop)) := by
  induction fuel generalizing before pos s with
  | zero => trivial
  | succ fuel ih =>
    have full : most.map (· - before.length) = some 0 ↔ most = some before.length := by
      cases most with
      | none => simp
      | some n =>
        have := allowed n rfl
        simp only [Option.map_some, Option.some.injEq]
        omega
    unfold rounds Plain.rounds
    by_cases done : most = some before.length
    · simp only [if_pos done, if_pos (full.mpr done), pure_bind, List.append_nil]
      exact .pure here
    rw [if_neg done, if_neg (mt full.mp done), bind_assoc]
    refine (each pos s here).bind fun found s₁ _ here₁ => ?_
    cases found with
    | none =>
      simp only [pure_bind, List.append_nil]
      exact .pure here₁
    | some m =>
      simp only
      split
      · have more : ∀ n ∈ most, (m.value :: before).length ≤ n := fun n same =>
          Nat.lt_of_le_of_ne (allowed n same) fun eq => done (by rw [same, eq])
        simp only [bind_assoc, pure_bind, Option.map_map]
        simpa [Function.comp_def, Nat.sub_sub] using ih (m.value :: before) m.stop more here₁
      · simpa using Evaluates.pure here₁

/-- A repetition is unaffected if its rule is. -/
theorem repetition_evaluates (each : Unaffected kept attempt plain) (fuel least : Nat)
    (most : Option Nat) :
    Unaffected kept (repetition attempt fuel least most) (fun pos => do
      let (values, stop) ← Plain.rounds plain fuel most pos
      if values.length < least then return none
      else if most = some 1 then return some ⟨values.getLast?.getD .nothing, stop⟩
      else return some ⟨.sequence values, stop⟩) := by
  intro pos s here
  have all : Evaluates kept (rounds attempt fuel most [] pos) s
      (Plain.rounds plain fuel most pos) := by
    simpa using rounds_evaluate each fuel [] pos (fun n _ => Nat.zero_le n) here
  refine all.bind fun result s₁ _ here₁ => ?_
  simp only
  split
  · exact .pure here₁
  · unfold repetitionValue
    split <;> exact .pure here₁

/-- An action is unaffected by what is remembered: it sees the value that was found. -/
theorem map_evaluates (each : Unaffected kept attempt plain) {tokens : List Token}
    (action : Action) :
    Unaffected kept (fun pos => do map tokens.toArray (← attempt pos) action pos) (fun pos => do
      match ← plain pos with
      | none => return none
      | some m =>
        match action m.value with
        | .ok value => return some ⟨value, m.stop⟩
        | .error cause =>
          throw (.failed (.action pos ((tokens[pos]?).map (·.span)) cause))) := by
  intro pos s here
  refine (each pos s here).bind fun found s₁ _ here₁ => ?_
  cases found with
  | none => exact .pure here₁
  | some m =>
    simp only [map, spanAt?, List.getElem?_toArray]
    cases action m.value with
    | ok value => exact .pure here₁
    | error cause => exact .failure

end

/-! ## Forwards -/

section

variable {definitions : Definitions} {tokens : List Token} {number fuel : Nat}
  {opened : List (Forward × Nat)}

/-- A forward that is tried for the first time is remembered with the outcome of its evaluation. -/
theorem enter_evaluates {body : Matching (Option Match)} {r : Plain (Option Match)} {place : Place}
    (consistent : s.memo.Consistent definitions tokens number opened)
    (closed : (⟨number, place.id⟩, place.position) ∉ opened)
    (each : ∀ s : Progress, s.memo.Consistent definitions tokens number
        ((⟨number, place.id⟩, place.position) :: opened) →
      Evaluates (MemoTable.Consistent definitions tokens number
        ((⟨number, place.id⟩, place.position) :: opened)) body s r)
    (outcome : ∀ found, r = .ok found → ∃ fuel, Rule.evaluate definitions tokens fuel []
      (.forward ⟨number, place.id⟩) place.position = .ok found) :
    Evaluates (MemoTable.Consistent definitions tokens number opened) (enter body fuel place) s
      r := by
  rw [← bind_pure r]
  refine .step rfl ((each _ (consistent.enter place)).bind fun found s₁ answer consistent₁ => ?_)
  -- the mark is as it was, since the body did not meet the forward again
  have mark := consistent₁.opened place List.mem_cons_self
  refine .step (congrArg (EStateM.Result.ok · s₁) mark) ?_
  split
  · next met => cases met
  · refine .step rfl (.step rfl (.pure ?_))
    exact consistent₁.settle closed (outcome _ answer)

/-- A forward is remembered with the outcome of its evaluation, or tried for the first time. -/
theorem forward_evaluates {attempt : Rule → Nat → Matching (Option Match)} {target : Forward}
    {pos : Nat} (own : target.builder = number)
    (each : ∀ body, definitions target = some body →
      Unaffected (MemoTable.Consistent definitions tokens number ((target, pos) :: opened))
        (attempt body) (body.evaluate definitions tokens fuel ((target, pos) :: opened)))
    (consistent : s.memo.Consistent definitions tokens number opened) :
    Evaluates (MemoTable.Consistent definitions tokens number opened)
      (forward definitions attempt fuel target pos) s
      (Rule.evaluate definitions tokens (fuel + 1) opened (.forward target) pos) := by
  subst own
  let place : Place := ⟨target.id, pos⟩
  cases known : s.memo.find? place with
  | none =>
    refine .step (congrArg (EStateM.Result.ok · s) known) ?_
    have closed := consistent.not_opened known
    have entered : Rule.evaluate definitions tokens (fuel + 1) opened (.forward target) pos = _ :=
      if_neg closed
    rw [entered]
    cases defined : definitions target with
    | none => exact .failure
    | some body =>
      refine enter_evaluates consistent closed (each body defined pos) fun found answer => ?_
      rw [defined] at entered
      have outcome := entered.trans answer
      -- what is remembered holds with no forward entered, wherever it is read later
      refine ⟨fuel + 1, .trans ?_ outcome⟩
      exact Rule.evaluate_of_le (outcome ▸ Plain.settled_ok found) (Nat.le_refl _)
        (List.nil_subset _)
  | some memo =>
    refine .step (congrArg (EStateM.Result.ok · s) known) ?_
    cases memo with
    | pending reentered =>
      -- the forward is entered at this place, where its evaluation is not settled
      have cut := consistent.pending place reentered known
      rw [Rule.evaluate, if_pos cut]
      trivial
    | resolved result =>
      obtain ⟨fuel', outcome⟩ := consistent.resolved place result known
      refine .of_settled fun settled => ?_
      rw [Rule.evaluate_unique settled (outcome ▸ Plain.settled_ok result), outcome]
      exact .pure consistent

end

end Matching

/-- A rule is tried as it is evaluated, if the forwards that it names are. What is kept may depend
on what is being tried. -/
theorem Rule.match?_unaffected {definitions : Definitions} {tokens : List Token}
    (kept : List (Forward × Nat) → MemoTable → Prop) (named : Forward → Prop)
    (forwards : ∀ (fuel : Nat) (opened : List (Forward × Nat)) (target : Forward), named target →
      (∀ (opened : List (Forward × Nat)) (rule : Rule), (∀ target ∈ rule.forwards, named target) →
        Matching.Unaffected (kept opened) (rule.match? definitions tokens.toArray fuel)
          (rule.evaluate definitions tokens fuel opened)) →
      Matching.Unaffected (kept opened)
        ((forward target).match? definitions tokens.toArray (fuel + 1))
        ((forward target).evaluate definitions tokens (fuel + 1) opened))
    (fuel : Nat) (opened : List (Forward × Nat)) (rule : Rule)
    (all : ∀ target ∈ rule.forwards, named target) :
    Matching.Unaffected (kept opened) (rule.match? definitions tokens.toArray fuel)
      (rule.evaluate definitions tokens fuel opened) := by
  induction fuel generalizing opened rule with
  | zero => exact fun pos s here => trivial
  | succ fuel ih =>
    cases rule with
    | terminal kind => exact Matching.terminal_evaluates kind
    | sequence rules =>
      exact Matching.sequence_evaluates (fun rule mem => ih opened rule fun target inside =>
        all target (forwards_subset mem inside)) []
    | alternation rules =>
      exact Matching.alternation_evaluates fun rule mem => ih opened rule fun target inside =>
        all target (forwards_subset mem inside)
    | repetition rule least most =>
      exact Matching.repetition_evaluates (ih opened rule all) fuel least most
    | map rule action => exact Matching.map_evaluates (ih opened rule all) action
    | forward target => exact forwards fuel opened target (all target List.mem_cons_self) ih

/-- A rule whose forwards come from one builder has the outcome of its evaluation, and leaves behind
outcomes of evaluations. -/
theorem Rule.match?_evaluates {definitions : Definitions} {tokens : List Token} {number : Nat}
    (own : definitions.OfBuilder number) (fuel : Nat) (opened : List (Forward × Nat)) (rule : Rule)
    (named : rule.OfBuilder number) :
    Matching.Unaffected (MemoTable.Consistent definitions tokens number opened)
      (rule.match? definitions tokens.toArray fuel)
      (rule.evaluate definitions tokens fuel opened) := by
  refine match?_unaffected _ (fun target => target.builder = number) ?_ fuel opened rule named
  intro fuel opened target mine ih pos s consistent
  exact Matching.forward_evaluates mine
    (fun body defined => ih _ body (own target body defined mine)) consistent

namespace Workshop

variable {w : Workshop} {number : Nat} {tokens : List Token} {trials : List (Rule × Nat)}

/-- With the fuel that goes with the rules, only a forward that is tried again cuts an evaluation
short. -/
theorem evaluate_settled (own : w.definition?.OfBuilder number) {rules : List Rule} {rule : Rule}
    {pos fuel : Nat} (mem : rule ∈ rules) (named : rule.OfBuilder number)
    (enough : w.fuel rules tokens.length ≤ fuel)
    (forward : rule.evaluate w.definition? tokens fuel [] pos ≠ .error .reentered) :
    (rule.evaluate w.definition? tokens fuel [] pos).Settled := by
  obtain ⟨ids, finite, few⟩ := w.definitions_bounded rules
  refine ⟨forward, Rule.evaluate_ne_outOfFuel finite own named ?_⟩
  have covered := lt_matchingFuel tokens.length few (Nat.le_refl _)
    (Rule.size_le_sizes (List.mem_append_left _ mem))
  have half := Nat.mul_le_mul_right
    (Rule.sizes (rules ++ w.builders.flatMap (·.builder.definitions)) + 1)
    (Nat.le_mul_of_pos_left (ids.card * (tokens.length + 1)) Nat.two_pos)
  unfold Workshop.fuel at enough
  omega

/-- As long as no trial has failed, the trials from some progress on have the outcomes of their
evaluations. -/
theorem go_outcome (own : w.definition?.OfBuilder number) {rest : List (Rule × Nat)}
    (named : ∀ trial ∈ rest, trial.1.OfBuilder number)
    (settled : ∀ trial ∈ rest, Plain.Settled (trial.1.evaluate w.definition? tokens
      (w.fuel (trials.map Prod.fst) tokens.length) [] trial.2))
    {s : Progress} (consistent : s.memo.Consistent w.definition? tokens number []) {i : Nat}
    {rule : Rule} {pos : Nat} (here : rest[i]? = some (rule, pos))
    (before : ∀ j < i, ∃ found, (matchEach.go w tokens trials s rest)[j]? = some (.ok found)) :
    ∃ outcome : Except ParseError (Option Match),
      (matchEach.go w tokens trials s rest)[i]? = some (outcome.mapError .failed) ∧
        rule.evaluate w.definition? tokens (w.fuel (trials.map Prod.fst) tokens.length) [] pos =
          outcome.mapError .failed := by
  induction rest generalizing s i with
  | nil => cases here
  | cons trial rest ih =>
    have evaluates := Rule.match?_evaluates own (w.fuel (trials.map Prod.fst) tokens.length) []
      trial.1 (named trial List.mem_cons_self) trial.2 s consistent
    unfold matchEach.go at before ⊢
    rcases evaluates.outcome (settled trial List.mem_cons_self) with
      ⟨found, s', answer, run, consistent'⟩ | ⟨e, s', failure, run⟩
    · simp only [run] at before ⊢
      cases i with
      | zero =>
        cases here
        exact ⟨.ok found, rfl, answer⟩
      | succ i =>
        exact ih (fun trial mem => named trial (List.mem_cons_of_mem _ mem))
          (fun trial mem => settled trial (List.mem_cons_of_mem _ mem)) consistent' here
          fun j lt => before (j + 1) (Nat.succ_lt_succ lt)
    · simp only [run] at before ⊢
      cases i with
      | zero =>
        cases here
        exact ⟨.error e, rfl, failure⟩
      | succ i =>
        -- a later trial is not asked about, since this one has failed
        obtain ⟨found, first⟩ := before 0 (Nat.succ_pos i)
        cases first

/-- The forwards of one builder are tried by any number of rules, one after the other, with what is
remembered from one to the next. If the evaluation of none of them tries a forward inside itself at
the same position, each gives exactly what its evaluation gives, up to the first that fails. -/
theorem matchEach_evaluates (w : Workshop) (number : Nat) (tokens : List Token)
    (trials : List (Rule × Nat)) (own : w.definition?.OfBuilder number)
    (named : ∀ trial ∈ trials, trial.1.OfBuilder number)
    (forward : ∀ trial ∈ trials, ∀ fuel,
      trial.1.evaluate w.definition? tokens fuel [] trial.2 ≠ .error .reentered)
    {i : Nat} {rule : Rule} {pos : Nat} (here : trials[i]? = some (rule, pos))
    (before : ∀ j < i, ∃ found, (w.matchEach tokens trials)[j]? = some (.ok found)) :
    ∃ outcome : Except ParseError (Option Match),
      (w.matchEach tokens trials)[i]? = some (outcome.mapError .failed) ∧
        ∀ fuel ≥ w.fuel (trials.map Prod.fst) tokens.length,
          rule.evaluate w.definition? tokens fuel [] pos = outcome.mapError .failed := by
  have settled : ∀ trial ∈ trials, Plain.Settled (trial.1.evaluate w.definition? tokens
      (w.fuel (trials.map Prod.fst) tokens.length) [] trial.2) := fun trial mem =>
    evaluate_settled own (List.mem_map_of_mem mem) (named trial mem) (Nat.le_refl _)
      (forward trial mem _)
  obtain ⟨outcome, tried, evaluated⟩ := go_outcome own named settled .empty here before
  refine ⟨outcome, tried, fun fuel le => ?_⟩
  rw [← evaluated]
  exact Rule.evaluate_of_le (settled _ (List.mem_of_getElem? here)) le (List.Subset.refl _)

/-- Words in nested parentheses: an item is a list or a word, and a list has any number of items. -/
def nested : Workshop where
  builders := [⟨⟨0, [
    some (.alternation [.forward ⟨0, 1⟩, .terminal .word]),
    some (.sequence [.terminal .openParen, .star (.forward ⟨0, 0⟩), .terminal .closeParen])]⟩,
    .builder⟩]
  handles := [⟨⟨0, 0⟩, true⟩, ⟨⟨0, 1⟩, true⟩]
  sets := []

/-- The list `(a())`. -/
def nestedTokens : List Token :=
  [⟨.openParen, .none, ⟨0, 1⟩⟩, ⟨.word, .text "a", ⟨1, 2⟩⟩, ⟨.openParen, .none, ⟨2, 3⟩⟩,
    ⟨.closeParen, .none, ⟨3, 4⟩⟩, ⟨.closeParen, .none, ⟨4, 5⟩⟩]

/-- A list, with an action that fails. -/
def refused : Rule := .map (.forward ⟨0, 1⟩) fun _ => .error (.unassignable "list")

/-- Two trials that match, one that does not, one past the end, and one whose action fails on a list
that the first one left behind. -/
def nestedTrials : List (Rule × Nat) :=
  [(.forward ⟨0, 0⟩, 0), (.forward ⟨0, 0⟩, 1),
    (.sequence [.star (.forward ⟨0, 0⟩), .terminal .dot], 0), (.forward ⟨0, 1⟩, 9), (refused, 2)]

/-- All forwards of the nested lists are of one builder. -/
theorem nested_ofBuilder : nested.definition?.OfBuilder 0 := by
  intro target body found _
  obtain ⟨owned, mem, found⟩ := definition?_eq_some found
  cases List.mem_singleton.mp mem
  match target.id, found with
  | 0, found => cases found; decide
  | 1, found => cases found; decide
  | id + 2, found => cases found

/-- The last trial fails as its evaluation does, although the list it refuses was found in the
memory that the first trial left. -/
theorem nested_evaluates :
    let error := ParseError.action 2 (some ⟨2, 3⟩) (.unassignable "list")
    (nested.matchEach nestedTokens nestedTrials)[4]? = some (.error (.failed error)) ∧
      ∀ fuel ≥ nested.fuel (nestedTrials.map Prod.fst) nestedTokens.length,
        refused.evaluate nested.definition? nestedTokens fuel [] 2 = .error (.failed error) := by
  intro error
  have settled : ∀ trial ∈ nestedTrials,
      Plain.Settled (trial.1.evaluate nested.definition? nestedTokens 20 [] trial.2) := by decide
  have answered : (nested.matchEach nestedTokens nestedTrials).map Except.isOk =
      [true, true, true, true, false] := by decide +kernel
  have before : ∀ j < 4, ∃ found,
      (nested.matchEach nestedTokens nestedTrials)[j]? = some (.ok found) := by
    intro j lt
    have answer : ((nested.matchEach nestedTokens nestedTrials).map Except.isOk)[j]? =
        some true := by
      rw [answered]
      decide +revert
    rw [List.getElem?_map] at answer
    obtain ⟨result, here, ok⟩ := Option.map_eq_some_iff.mp answer
    cases result with
    | ok found => exact ⟨found, here⟩
    | error halt => cases ok
  have tried : (nested.matchEach nestedTokens nestedTrials)[4]? =
      some (.error (.failed error)) := rfl
  obtain ⟨outcome, same, evaluated⟩ := matchEach_evaluates nested 0 nestedTokens nestedTrials
    nested_ofBuilder (by decide)
    (fun trial mem => Rule.evaluate_ne_reentered (settled trial mem)) rfl before
  rw [tried] at same
  cases outcome with
  | ok found => cases same
  | error e =>
    cases same
    exact ⟨tried, evaluated⟩

end Workshop

end ClosureLang
