import ClosureLang.Proofs.Rule.Forwardless

/-!
# Left recursion is a left fold

A forward that stands for alternatives which start with the forward itself, and for others which do
not, is matched by a loop. The first of the other alternatives that matches gives a first value.
Then, as long as something of what follows the forward in the recursive alternatives matches at the
end of the value, the two make the next value, if that is longer.

Matching knows nothing of this shape. It tries the same ordered choice again and again, with the
value so far planted as the forward's result. That comes to the same, because the first alternatives
to be tried are those which go on from the planted result, and the others only find again what they
found at first, which is never longer.

The loop is `leftFold`, written without any memory and without forwards. The module shows three
things of it and puts them together.

- The loop comes to an end: it is not cut short by a forward, as no part of it names one, and every
  round but the last is longer than the one before (`leftFold_settled`).
- While the forward is being tried, its recursive alternatives do not match and the seeds decide
  (`alternatives_pending`). Once a match is planted, the recursive alternatives go on from it as the
  loop does (`alternatives_planted`).
- So growing goes through the rounds of the loop (`grow_evaluates`), and the fuel of the rule set
  covers it.

An action that fails ends either of them with the same error, be it the action of a seed or of a
suffix.
-/

set_option autoImplicit false

namespace ClosureLang

/-- What follows the forward in a recursive alternative: further rules, and what makes a value of
the values of all of them, that of the forward first. -/
structure Suffix where
  rules : List Rule
  combine : List Value → Except ActionError Value

/-- The alternative that starts with the forward and goes on with the suffix. -/
def Suffix.rule (p : Forward) (s : Suffix) : Rule := .mapSequence (.forward p :: s.rules) s.combine

/-- What the forward `p` stands for: alternatives that start with `p`, and then the seeds. -/
def Rule.leftRecursive (p : Forward) (suffixes : List Suffix) (seeds : List Rule) : Rule :=
  .alternation (suffixes.map (Suffix.rule p) ++ seeds)

/-! ## The loop -/

section

variable (definitions : Definitions) (tokens : List Token) (fuel : Nat)

/-- Goes on from a match that starts at `pos`: the suffix is tried at its end, and its value is
combined with those of the suffix. -/
def Suffix.extend (s : Suffix) (pos : Nat) (current : Match) : Plain (Option Match) := do
  match ← Plain.sequence (Rule.evaluate definitions tokens fuel []) s.rules current.stop with
  | none => return none
  | some (values, stop) =>
    match s.combine (current.value :: values) with
    | .ok value => return some ⟨value, stop⟩
    | .error cause => throw (.failed (.action pos ((tokens[pos]?).map (·.span)) cause))

namespace Plain

/-- Goes on with the first suffix that matches. -/
def extend (pos : Nat) (current : Match) : List Suffix → Plain (Option Match)
  | [] => return none
  | s :: suffixes => do
    match ← s.extend definitions tokens fuel pos current with
    | none => extend pos current suffixes
    | some m => return some m

/-- Goes on as long as some suffix matches and the match gets longer. -/
def fold (suffixes : List Suffix) (pos : Nat) : Nat → Match → Plain Match
  | 0, _ => throw .outOfFuel
  | rounds + 1, current => do
    match ← extend definitions tokens fuel pos current suffixes with
    | none => return current
    | some m => if current.stop < m.stop then fold suffixes pos rounds m else return current

/-- Starts from the first seed that matches. -/
def leftFold (suffixes : List Suffix) (seeds : List Rule) (pos : Nat) : Plain (Option Match) := do
  match ← alternation (Rule.evaluate definitions tokens fuel []) seeds pos with
  | none => return none
  | some seed => some <$> fold definitions tokens fuel suffixes pos fuel seed

end Plain

end

/-- None of the rules names a forward, and the fuel is enough to try any of them. -/
structure Rule.Affordable (tokens : List Token) (fuel : Nat) (rules : List Rule) : Prop where
  free : ∀ rule ∈ rules, rule.Forwardless
  enough : ∀ rule ∈ rules, rule.size + tokens.length + 1 < fuel

section

variable {definitions : Definitions} {tokens : List Token} {fuel fuel' : Nat} {p : Forward}
  {s : Suffix} {suffixes : List Suffix} {seeds : List Rule} {pos top : Nat} {current : Match}

/-! ## The loop comes to an end -/

/-- Trying a suffix is not cut short by a forward, as it names none. -/
theorem Suffix.extend_direct (fits : Rule.Affordable tokens fuel s.rules) :
    (s.extend definitions tokens fuel pos current).Direct := by
  have each (rule : Rule) (mem : rule ∈ s.rules) (pos : Nat) :
      (rule.evaluate definitions tokens fuel [] pos).Direct :=
    Rule.evaluate_direct (fits.free rule mem) pos
  refine (Plain.Direct.sequence each current.stop).bind fun found => ?_
  rcases found with _ | ⟨values, stop⟩
  · exact .ok _
  · simp only
    split
    · exact .ok _
    · exact .failed _

/-- A suffix matches from the end of the current match on and within the tokens. -/
theorem Suffix.extend_ends (fits : Rule.Affordable tokens fuel s.rules)
    (covers : tokens.length ≤ top) (narrow : top ≤ pos + tokens.length)
    (start : pos ≤ current.stop) (stop : current.stop ≤ top) :
    Plain.Ends (s.extend definitions tokens fuel pos current) fun found =>
      ∀ m ∈ found, pos ≤ m.stop ∧ m.stop ≤ top := by
  have each (rule : Rule) (mem : rule ∈ s.rules) :
      Plain.Tries pos top (rule.evaluate definitions tokens fuel []) :=
    Rule.evaluate_tries_of_forwardless (fits.free rule mem) covers narrow (fits.enough rule mem)
  refine ((Plain.sequence_ends each start stop).mono ?_).bind
  rintro (_ | ⟨values, last⟩) within
  · exact fun m hm => by cases hm
  · obtain ⟨further, inside⟩ := within _ rfl
    simp only
    split
    · rintro m ⟨⟩
      exact ⟨Nat.le_trans start further, inside⟩
    · exact nofun

namespace Plain

/-- Trying the suffixes one after the other is not cut short by a forward. -/
theorem extend_direct (fits : ∀ s ∈ suffixes, Rule.Affordable tokens fuel s.rules) :
    (extend definitions tokens fuel pos current suffixes).Direct := by
  induction suffixes with
  | nil => exact .ok _
  | cons s suffixes ih =>
    refine (s.extend_direct (fits s List.mem_cons_self)).bind fun found => ?_
    cases found with
    | none => exact ih fun s mem => fits s (List.mem_cons_of_mem _ mem)
    | some m => exact .ok _

/-- Going on from a match ends, and what it finds is at least as long as the suffix starts and ends
within the tokens. -/
theorem extend_ends (fits : ∀ s ∈ suffixes, Rule.Affordable tokens fuel s.rules)
    (covers : tokens.length ≤ top) (narrow : top ≤ pos + tokens.length)
    (start : pos ≤ current.stop) (stop : current.stop ≤ top) :
    Ends (extend definitions tokens fuel pos current suffixes) fun found =>
      ∀ m ∈ found, pos ≤ m.stop ∧ m.stop ≤ top := by
  induction suffixes with
  | nil => exact fun m hm => by cases hm
  | cons s suffixes ih =>
    refine ((s.extend_ends (fits s List.mem_cons_self) covers narrow start stop).mono ?_).bind
    rintro (_ | m) within
    · exact ih fun s mem => fits s (List.mem_cons_of_mem _ mem)
    · exact within

/-- The loop is not cut short by a forward. -/
theorem fold_direct (fits : ∀ s ∈ suffixes, Rule.Affordable tokens fuel s.rules) (rounds : Nat) :
    (fold definitions tokens fuel suffixes pos rounds current).Direct := by
  induction rounds generalizing current with
  | zero => exact .outOfFuel
  | succ rounds ih =>
    refine (extend_direct fits).bind fun found => ?_
    cases found with
    | none => exact .ok _
    | some m =>
      simp only
      split
      · exact ih
      · exact .ok _

/-- Every round but the last moves the end of the match on, so there are no more of them than
tokens. -/
theorem fold_ends (fits : ∀ s ∈ suffixes, Rule.Affordable tokens fuel s.rules)
    (covers : tokens.length ≤ top) (narrow : top ≤ pos + tokens.length)
    (start : pos ≤ current.stop) (stop : current.stop ≤ top) {rounds : Nat}
    (enough : top < rounds + current.stop) :
    Ends (fold definitions tokens fuel suffixes pos rounds current) fun _ => True := by
  induction rounds generalizing current with
  | zero => omega
  | succ rounds ih =>
    refine ((extend_ends fits covers narrow start stop).mono ?_).bind
    rintro (_ | m) within
    · exact trivial
    obtain ⟨start', stop'⟩ := within m rfl
    simp only
    split
    · exact ih start' stop' (by omega)
    · exact trivial

/-- The loop comes to an end: every round is longer than the one before, and there are only so many
tokens. -/
theorem leftFold_settled (fits : ∀ s ∈ suffixes, Rule.Affordable tokens fuel s.rules)
    (fits' : Rule.Affordable tokens fuel seeds) (enough : tokens.length < fuel) :
    (leftFold definitions tokens fuel suffixes seeds pos).Settled := by
  have covers := Nat.le_max_right pos tokens.length
  have narrow : max pos tokens.length ≤ pos + tokens.length := by omega
  constructor
  · refine (Direct.alternation (fun rule mem =>
      Rule.evaluate_direct (fits'.free rule mem)) pos).bind fun found => ?_
    cases found with
    | none => exact .ok _
    | some seed => exact (fold_direct fits fuel).bind fun _ => .ok _
  · have seeded : Tries pos (max pos tokens.length)
        (alternation (Rule.evaluate definitions tokens fuel []) seeds) :=
      alternation_tries fun rule mem => Rule.evaluate_tries_of_forwardless (fits'.free rule mem)
        covers narrow (fits'.enough rule mem)
    have ends : Ends (leftFold definitions tokens fuel suffixes seeds pos) fun _ => True := by
      refine ((seeded pos (Nat.le_refl pos) (Nat.le_max_left ..)).mono ?_).bind
      rintro (_ | seed) within
      · exact trivial
      obtain ⟨start, stop⟩ := within seed rfl
      exact ((fold_ends fits covers narrow start stop (by omega)).mono fun _ _ => trivial).bind
    exact ends.ne_outOfFuel

end Plain

/-! ## Growing does what the loop does -/

namespace Matching

variable {st : Progress}

/-- The forward's result at the place is the match. -/
def Planted (place : Place) (m : Match) (t : MemoTable) : Prop :=
  t.find? place = some (.resolved (some m))

/-- The forward is being tried at the place, and was met again there. -/
def Reentered (place : Place) (t : MemoTable) : Prop := t.find? place = some (.pending true)

/-- An evaluation that ends early ends whatever comes after it. -/
theorem Evaluates.bind_of_error {α β : Type} {kept kept' : MemoTable → Prop} {x : Matching α}
    {f : α → Matching β} {cause : Interruption} (h : Evaluates kept x st (.error cause)) :
    Evaluates kept' (x >>= f) st (.error cause) := by
  change Evaluates kept' (x >>= f) st ((.error cause : Plain α) >>= fun _ => .error cause)
  refine h.bind fun a s₁ answer => ?_
  cases answer

/-- An alternative that starts with the forward goes on from the match that is planted. -/
theorem suffix_planted (fits : Rule.Affordable tokens fuel s.rules)
    (fits' : Rule.Affordable tokens (fuel' + 1) s.rules)
    (planted : Planted ⟨p.id, pos⟩ current st.memo) :
    Evaluates (Planted ⟨p.id, pos⟩ current)
      ((s.rule p).match? definitions tokens.toArray (fuel' + 3) pos) st
      (s.extend definitions tokens fuel pos current) := by
  have each (rule : Rule) (mem : rule ∈ s.rules) : Unaffected (Planted ⟨p.id, pos⟩ current)
      (rule.match? definitions tokens.toArray (fuel' + 1))
      (rule.evaluate definitions tokens fuel []) :=
    Rule.match?_evaluates_of_forwardless (fits.free rule mem) (fits.enough rule mem)
      (fits'.enough rule mem)
  have others := sequence_evaluates each [current.value] current.stop st planted
  have parts : Evaluates (Planted ⟨p.id, pos⟩ current)
      (Rule.match? definitions tokens.toArray (fuel' + 2)
        (.sequence (.forward p :: s.rules)) pos) st
      (do
        return (← Plain.sequence (Rule.evaluate definitions tokens fuel []) s.rules
          current.stop).map fun rest => ⟨.sequence (current.value :: rest.1), rest.2⟩) :=
    .step (forward_of_resolved planted) others
  unfold Suffix.extend
  cases outcome : Plain.sequence (Rule.evaluate definitions tokens fuel []) s.rules
      current.stop with
  | error cause =>
    rw [outcome] at parts
    exact parts.bind_of_error
  | ok found =>
    rw [outcome] at parts
    obtain ⟨st₁, run, planted₁⟩ := parts
    refine .step run ?_
    rcases found with _ | ⟨values, stop⟩
    · exact .pure planted₁
    · simp only [map, Option.map_some, Value.toSequence, spanAt?, List.getElem?_toArray, bind,
        Except.bind]
      cases s.combine (current.value :: values) with
      | ok value => exact .pure planted₁
      | error cause => exact .failure

/-- The first alternatives go on from the match that is planted, and the seeds come after them. -/
theorem alternatives_planted (fits : ∀ s ∈ suffixes, Rule.Affordable tokens fuel s.rules)
    (fits' : ∀ s ∈ suffixes, Rule.Affordable tokens (fuel' + 1) s.rules)
    (seeded : Rule.Affordable tokens fuel seeds)
    (seeded' : Rule.Affordable tokens (fuel' + 3) seeds)
    (planted : Planted ⟨p.id, pos⟩ current st.memo) :
    Evaluates (Planted ⟨p.id, pos⟩ current)
      (alternation (Rule.match? definitions tokens.toArray (fuel' + 3))
        (suffixes.map (Suffix.rule p) ++ seeds) pos) st (do
      match ← Plain.extend definitions tokens fuel pos current suffixes with
      | none => Plain.alternation (Rule.evaluate definitions tokens fuel []) seeds pos
      | some m => return some m) := by
  induction suffixes generalizing st with
  | nil =>
    exact alternation_evaluates (fun rule mem => Rule.match?_evaluates_of_forwardless
      (seeded.free rule mem) (seeded.enough rule mem) (seeded'.enough rule mem)) pos st planted
  | cons s suffixes ih =>
    simp only [Plain.extend, bind_assoc]
    refine (suffix_planted (fits s List.mem_cons_self) (fits' s List.mem_cons_self) planted).bind
      fun found st₁ _ planted₁ => ?_
    cases found with
    | none =>
      exact ih (fun s mem => fits s (List.mem_cons_of_mem _ mem))
        (fun s mem => fits' s (List.mem_cons_of_mem _ mem)) planted₁
    | some m => exact .pure planted₁

/-- While the forward is being tried, an alternative that starts with it does not match. -/
theorem suffix_pending {reentered : Bool}
    (pending : st.memo.find? ⟨p.id, pos⟩ = some (.pending reentered)) :
    (s.rule p).match? definitions tokens.toArray (fuel' + 3) pos st =
      .ok none { st with memo := st.memo.insert ⟨p.id, pos⟩ (.pending true) } := by
  have items : Rule.match? definitions tokens.toArray (fuel' + 2)
      (.sequence (.forward p :: s.rules)) pos st =
        .ok none { st with memo := st.memo.insert ⟨p.id, pos⟩ (.pending true) } :=
    bind_run_of_ok (forward_of_pending pending)
  exact bind_run_of_ok items

/-- While the forward is being tried, the alternatives match as the seeds do, and the forward is
met again. -/
theorem alternatives_pending (seeded : Rule.Affordable tokens fuel seeds)
    (seeded' : Rule.Affordable tokens (fuel' + 3) seeds) {reentered : Bool}
    (pending : st.memo.find? ⟨p.id, pos⟩ = some (.pending reentered))
    (meets : suffixes ≠ [] ∨ reentered = true) :
    Evaluates (Reentered ⟨p.id, pos⟩)
      (alternation (Rule.match? definitions tokens.toArray (fuel' + 3))
        (suffixes.map (Suffix.rule p) ++ seeds) pos) st
      (Plain.alternation (Rule.evaluate definitions tokens fuel []) seeds pos) := by
  induction suffixes generalizing st reentered with
  | nil =>
    have again : Reentered ⟨p.id, pos⟩ st.memo := by
      rw [meets.resolve_left fun some => some rfl] at pending
      exact pending
    exact alternation_evaluates (fun rule mem => Rule.match?_evaluates_of_forwardless
      (seeded.free rule mem) (seeded.enough rule mem) (seeded'.enough rule mem)) pos st again
  | cons s suffixes ih =>
    exact .step (suffix_pending pending) (ih (MemoTable.find?_insert_self ..) (.inr rfl))

/-- Growing goes through the rounds of the loop. Where no suffix matches, the body finds the first
seed again, which is no longer than what has grown from it. -/
theorem grow_evaluates (fits : ∀ s ∈ suffixes, Rule.Affordable tokens fuel s.rules)
    (fits' : ∀ s ∈ suffixes, Rule.Affordable tokens (fuel' + 1) s.rules)
    (seeded : Rule.Affordable tokens fuel seeds)
    (seeded' : Rule.Affordable tokens (fuel' + 3) seeds)
    {seed : Match}
    (first : Plain.alternation (Rule.evaluate definitions tokens fuel []) seeds pos =
      .ok (some seed)) (grown : seed.stop ≤ current.stop)
    (covers : tokens.length ≤ top) (narrow : top ≤ pos + tokens.length)
    (start : pos ≤ current.stop) (stop : current.stop ≤ top) {rounds rounds' : Nat}
    (enough : top < rounds' + current.stop) :
    Evaluates (fun _ => True)
      (grow (alternation (Rule.match? definitions tokens.toArray (fuel' + 3))
        (suffixes.map (Suffix.rule p) ++ seeds) pos) ⟨p.id, pos⟩ rounds' current) st
      (Plain.fold definitions tokens fuel suffixes pos rounds current) := by
  induction rounds generalizing rounds' current st with
  | zero => trivial
  | succ rounds ih =>
    obtain ⟨rounds', rfl⟩ := Nat.exists_eq_add_of_le' (show 1 ≤ rounds' by omega)
    let st' : Progress := { st with
      memo := (st.memo.insert ⟨p.id, pos⟩ (.resolved (some current))).forget ⟨p.id, pos⟩ }
    have planted : Planted ⟨p.id, pos⟩ current st'.memo := MemoTable.find?_plant_self current
    have body : Evaluates _ (alternation (Rule.match? definitions tokens.toArray (fuel' + 3))
        (suffixes.map (Suffix.rule p) ++ seeds) pos) st' _ :=
      alternatives_planted fits fits' seeded seeded' planted
    have bounds : Plain.Ends (Plain.extend definitions tokens fuel pos current suffixes) _ :=
      Plain.extend_ends fits covers narrow start stop
    refine .step rfl ?_
    unfold Plain.fold
    cases extended : Plain.extend definitions tokens fuel pos current suffixes with
    | error cause =>
      rw [extended] at body
      exact body.bind_of_error
    | ok found =>
      rw [extended] at body bounds
      cases found with
      | none =>
        -- the first seed is found again, and a match that is not longer ends the growing
        have again : Evaluates (Planted ⟨p.id, pos⟩ current) _ st' (.ok (some seed)) := first ▸ body
        obtain ⟨st₁, run, -⟩ := again
        refine .step run ?_
        simp only [if_neg (Nat.not_lt_of_le grown)]
        exact .pure trivial
      | some m =>
        obtain ⟨st₁, run, -⟩ := body
        obtain ⟨start', stop'⟩ := bounds m rfl
        refine .step run ?_
        -- a suffix may match without a token of its own, which ends the loop as well
        show Evaluates _ _ st₁ (if current.stop < m.stop then _ else _)
        simp only
        split
        · exact ih (by omega) start' stop' (by omega)
        · exact .pure trivial

/-- A forward of this shape, tried where nothing is remembered of it, has the outcome of the loop:
the same match, no match, or the same error of an action. -/
theorem forward_leftFold (defined : definitions p = some (.leftRecursive p suffixes seeds))
    (recursive : suffixes ≠ [])
    (fits : ∀ s ∈ suffixes, Rule.Affordable tokens fuel s.rules)
    (fits' : ∀ s ∈ suffixes, Rule.Affordable tokens (fuel' + 1) s.rules)
    (seeded : Rule.Affordable tokens fuel seeds)
    (seeded' : Rule.Affordable tokens (fuel' + 3) seeds)
    (enough : tokens.length < fuel' + 4) (absent : st.memo.find? ⟨p.id, pos⟩ = none) :
    Evaluates (fun _ => True)
      ((Rule.forward p).match? definitions tokens.toArray (fuel' + 5) pos) st
      (Plain.leftFold definitions tokens fuel suffixes seeds pos) := by
  have covers := Nat.le_max_right pos tokens.length
  have narrow : max pos tokens.length ≤ pos + tokens.length := by omega
  have tries : Plain.Tries pos (max pos tokens.length)
      (Plain.alternation (Rule.evaluate definitions tokens fuel []) seeds) :=
    Plain.alternation_tries fun rule mem => Rule.evaluate_tries_of_forwardless
      (seeded.free rule mem) covers narrow (seeded.enough rule mem)
  have bounds := tries pos (Nat.le_refl pos) (Nat.le_max_left ..)
  let entered : Progress := { st with memo := st.memo.insert ⟨p.id, pos⟩ (.pending false) }
  have tried : Evaluates _ (alternation (Rule.match? definitions tokens.toArray (fuel' + 3))
      (suffixes.map (Suffix.rule p) ++ seeds) pos) entered _ :=
    alternatives_pending seeded seeded' (MemoTable.find?_insert_self ..) (.inl recursive)
  refine .step (congrArg (EStateM.Result.ok · st) absent) ?_
  rw [defined]
  refine .step rfl (tried.bind fun found st₁ first reentered => ?_)
  refine .step (congrArg (EStateM.Result.ok · st₁) reentered) ?_
  cases found with
  | none => exact .step rfl (.step rfl (.pure trivial))
  | some seed =>
    rw [first] at bounds
    obtain ⟨start, stop⟩ := bounds seed rfl
    have rounds : max pos tokens.length < fuel' + 4 + seed.stop := by omega
    simp only [map_eq_pure_bind, bind_assoc, pure_bind]
    refine (grow_evaluates fits fits' seeded seeded' first (Nat.le_refl _) covers narrow start stop
      rounds).bind fun m st₂ _ _ => ?_
    exact .step rfl (.pure trivial)

end Matching

/-! ## Fuel -/

/-- Fuel for the whole definition is enough for each of its parts. -/
theorem Rule.affordable_of_leftRecursive (free : ∀ s ∈ suffixes, ∀ rule ∈ s.rules, rule.Forwardless)
    (freeSeeds : ∀ rule ∈ seeds, rule.Forwardless)
    (enough : (Rule.leftRecursive p suffixes seeds).size + tokens.length < fuel) :
    (∀ s ∈ suffixes, Rule.Affordable tokens fuel s.rules) ∧ Rule.Affordable tokens fuel seeds := by
  have whole : (Rule.leftRecursive p suffixes seeds).size =
      Rule.sizes (suffixes.map (Suffix.rule p) ++ seeds) + 1 := rfl
  refine ⟨fun s mem => ⟨free s mem, fun rule inside => ?_⟩, ⟨freeSeeds, fun rule inside => ?_⟩⟩
  · have alternative : (s.rule p).size = Rule.sizes (.forward p :: s.rules) + 1 + 1 := rfl
    have one := Rule.size_le_sizes (List.mem_cons_of_mem (Rule.forward p) inside)
    have all := Rule.size_le_sizes
      (List.mem_append_left seeds (List.mem_map_of_mem (f := Suffix.rule p) mem))
    omega
  · have all := Rule.size_le_sizes (List.mem_append_right (suffixes.map (Suffix.rule p)) inside)
    omega

end

namespace Workshop

variable {w : Workshop} {p : Forward} {body : Rule}

/-- The fuel for a forward is more than enough to try what it stands for. -/
theorem lt_fuel_of_definition? (defined : w.definition? p = some body) (length : Nat) :
    body.size + length + 5 < w.fuel [.forward p] length := by
  obtain ⟨ids, finite, -⟩ := w.definitions_bounded [.forward p]
  have within := finite.size_le p body defined
  have positive := body.size_pos
  have enough := lt_matchingFuel length (Nat.le_trans positive within)
    (Nat.le_trans positive within) within
  unfold Workshop.fuel
  omega

/-- The one trial has the outcome of the loop, with any fuel that covers the trial. -/
theorem matchEach_eq_leftFold {suffixes : List Suffix} {seeds : List Rule} {tokens : List Token}
    {pos : Nat} (defined : w.definition? p = some (.leftRecursive p suffixes seeds))
    (recursive : suffixes ≠ []) (free : ∀ s ∈ suffixes, ∀ rule ∈ s.rules, rule.Forwardless)
    (freeSeeds : ∀ rule ∈ seeds, rule.Forwardless) {fuel : Nat}
    (enough : w.fuel [.forward p] tokens.length ≤ fuel) :
    ∃ outcome : Except ParseError (Option Match),
      w.matchEach tokens [(.forward p, pos)] = [outcome.mapError .failed] ∧
        Plain.leftFold w.definition? tokens fuel suffixes seeds pos =
          outcome.mapError .failed := by
  have large := lt_fuel_of_definition? defined tokens.length
  obtain ⟨fuel', whole⟩ := Nat.exists_eq_add_of_le' (show 5 ≤ w.fuel [.forward p] tokens.length by
    omega)
  have affordable {n : Nat} (le : fuel' < n) :
      (∀ s ∈ suffixes, Rule.Affordable tokens n s.rules) ∧ Rule.Affordable tokens n seeds :=
    Rule.affordable_of_leftRecursive free freeSeeds
      (show (Rule.leftRecursive p suffixes seeds).size + tokens.length < n by omega)
  have loop := affordable (show fuel' < fuel by omega)
  have suffixed := affordable (show fuel' < fuel' + 1 by omega)
  have seeded := affordable (show fuel' < fuel' + 3 by omega)
  have evaluates : Matching.Evaluates (fun _ => True)
      ((Rule.forward p).match? w.definition? tokens.toArray (fuel' + 5) pos) .start
      (Plain.leftFold w.definition? tokens fuel suffixes seeds pos) :=
    Matching.forward_leftFold defined recursive loop.1 suffixed.1 loop.2 seeded.2 (by omega) rfl
  have settled : (Plain.leftFold w.definition? tokens fuel suffixes seeds pos).Settled :=
    Plain.leftFold_settled loop.1 loop.2 (by omega)
  simp only [matchEach, matchEach.go, List.map_cons, List.map_nil, whole]
  rcases evaluates.outcome settled with ⟨found, s', folded, run, -⟩ | ⟨e, s', folded, run⟩
  · exact ⟨.ok found, by rw [run]; rfl, folded⟩
  · exact ⟨.error e, by rw [run]; rfl, folded⟩

/-- **Growing a seed computes a left fold.** A forward is defined by alternatives which start with
itself and by others, the seeds, and apart from that nothing in them names a forward. Tried at any
position with nothing remembered, it gives what the loop gives: its match, that there is none, or
the error of an action. -/
theorem matchEach_leftFold (w : Workshop) (p : Forward) (suffixes : List Suffix)
    (seeds : List Rule) (tokens : List Token) (pos : Nat)
    (defined : w.definition? p = some (.leftRecursive p suffixes seeds))
    (recursive : suffixes ≠ [])
    (free : ∀ s ∈ suffixes, ∀ rule ∈ s.rules, rule.Forwardless)
    (freeSeeds : ∀ rule ∈ seeds, rule.Forwardless) :
    ∃ outcome : Except ParseError (Option Match),
      w.matchEach tokens [(.forward p, pos)] = [outcome.mapError .failed] ∧
        ∀ fuel ≥ w.fuel [.forward p] tokens.length,
          Plain.leftFold w.definition? tokens fuel suffixes seeds pos =
            outcome.mapError .failed := by
  obtain ⟨outcome, matched, -⟩ :=
    matchEach_eq_leftFold defined recursive free freeSeeds (Nat.le_refl _)
  refine ⟨outcome, matched, fun fuel enough => ?_⟩
  obtain ⟨other, matched', folded⟩ :=
    matchEach_eq_leftFold defined recursive free freeSeeds enough
  have same : outcome.mapError Halt.failed = other.mapError Halt.failed :=
    List.singleton_inj.mp (matched.symm.trans matched')
  rw [folded]
  cases outcome <;> cases other <;> cases same <;> rfl

/-- Attributes and calls of a word; a semicolon may follow anything, and a comma nothing. -/
def chainSuffixes : List Suffix := [
  ⟨[.terminal .dot, .terminal .word], fun values => .ok (.sequence values)⟩,
  ⟨[.terminal .openParen, .terminal .closeParen], fun values => .ok (.sequence values)⟩,
  ⟨[.terminal .comma], fun _ => .error (.unassignable "comma")⟩,
  ⟨[.maybe (.terminal .semicolon)], fun values => .ok (.sequence values)⟩]

/-- The longer seed comes first. -/
def chainSeeds : List Rule := [.sequence [.terminal .word, .terminal .word], .terminal .word]

/-- A forward that stands for attributes and calls. -/
def chain : Workshop where
  builders := [⟨⟨0, [some (.leftRecursive ⟨0, 0⟩ chainSuffixes chainSeeds)]⟩, .builder⟩]
  handles := [⟨⟨0, 0⟩, true⟩]
  sets := []

/-- The call `a.b()`. The semicolon that may follow is not there, so the last suffix matches without
making the match any longer, and the loop stops. -/
theorem chain_leftFold :
    let word (text : String) : Token := ⟨.word, .text text, ⟨0, 1⟩⟩
    let mark (kind : TokenKind) : Token := ⟨kind, .none, ⟨0, 1⟩⟩
    let tokens := [word "a", mark .dot, word "b", mark .openParen, mark .closeParen]
    let member := Value.sequence [.token (word "a"), .token (mark .dot), .token (word "b")]
    let call := Value.sequence [member, .token (mark .openParen), .token (mark .closeParen)]
    chain.matchEach tokens [(.forward ⟨0, 0⟩, 0)] = [.ok (some ⟨call, 5⟩)] ∧
      ∀ fuel ≥ chain.fuel [.forward ⟨0, 0⟩] 5,
        Plain.leftFold chain.definition? tokens fuel chainSuffixes chainSeeds 0 =
          .ok (some ⟨call, 5⟩) := by
  intro word mark tokens member call
  have tried : chain.matchEach tokens [(.forward ⟨0, 0⟩, 0)] = [.ok (some ⟨call, 5⟩)] := rfl
  obtain ⟨outcome, matched, folded⟩ := matchEach_leftFold chain ⟨0, 0⟩ chainSuffixes chainSeeds
    tokens 0 rfl (List.cons_ne_nil _ _) (by decide) (by decide)
  rw [tried] at matched
  cases outcome with
  | error e => cases matched
  | ok found =>
    cases matched
    exact ⟨tried, folded⟩

end Workshop

end ClosureLang
