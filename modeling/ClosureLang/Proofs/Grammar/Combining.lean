import ClosureLang.Proofs.Grammar.Following

/-!
# Putting rules together

What single rules follow, the rules made of them follow. There is one lemma for each way in which
rules are put together and for the way in which readers are put together that goes with it:
sequences with an action, alternatives, repetitions, parts that may be missing, lists. With these,
that a rule of the language follows its reader is shown by going along the two side by side.

`Reads` is stated with a bound on the fuel, so that it can be known of forwards while they are being
defined; a rule tries the rules it is made of with less fuel than it was given. `ReadsFrom` is the
same for all positions from some position on, which is what a part needs that stands behind another
one. `ReadsFirst` is for alternatives, as a rule tries them from a list and a reader one after the
other.

A sequence hands all its values to its action at the end, and a reader binds each value when it is
there. So a sequence is taken apart from the left with the values that were found (`rest`): each
value that is found moves from the reader to the list, and at the end the action is applied to the
list.
-/

set_option autoImplicit false

namespace ClosureLang

namespace Descent

variable {α β : Type}

theorem bind_run (p : Descent α) (f : α → Descent β) (tokens : Array Token) (pos : Nat) :
    (p >>= f) tokens pos = p tokens pos >>= fun
      | none => pure none
      | some (a, stop) => f a tokens stop := rfl

theorem orElse_run (p q : Descent α) (tokens : Array Token) (pos : Nat) :
    (p <|> q) tokens pos = p tokens pos >>= fun
      | none => q tokens pos
      | some found => pure (some found) := rfl

/-- Asking for the position hands it to the reader. -/
theorem here_bind_run (f : Nat → Descent α) (tokens : Array Token) (pos : Nat) :
    (here >>= f) tokens pos = f pos tokens pos := by
  rw [bind_run]
  exact pure_bind (some (pos, pos)) _

/-- A reader at its last part. -/
theorem bind_pure_run (p : Descent α) (tokens : Array Token) (pos : Nat) :
    (p >>= pure) tokens pos = p tokens pos := by
  rw [bind_run]
  refine (bind_congr fun r => ?_).trans (bind_pure (p tokens pos))
  cases r <;> rfl

/-- What was found, or else the other attempt. -/
def keepOr (other : Attempt (Option α)) : Option α → Attempt (Option α)
  | none => other
  | some found => pure (some found)

/-- A repetition with a round left tries its step, goes on from what that finds, and falls back on
what it had. -/
theorem proceed_succ_bind (step : α → Descent α) (rounds : Nat) (a : α) (tokens : Array Token)
    (pos : Nat) : proceed step (rounds + 1) a tokens pos = step a tokens pos >>= fun
      | none => pure (some (a, pos))
      | some (a', stop) =>
        proceed step rounds a' tokens stop >>= keepOr (pure (some (a, pos))) := by
  rw [proceed, orElse_run, bind_run, bind_assoc]
  apply bind_congr
  intro r
  cases r with
  | none => exact pure_bind none _
  | some found => exact bind_congr fun r => by cases r <;> rfl

/-- Going on always ends with something. -/
theorem proceed_bind_keepOr (step : α → Descent α) (tokens : Array Token) :
    ∀ (rounds : Nat) (a : α) (pos : Nat) (other : Attempt (Option (α × Nat))),
      proceed step rounds a tokens pos >>= keepOr other = proceed step rounds a tokens pos := by
  intro rounds
  induction rounds with
  | zero =>
    intro a pos other
    exact pure_bind (some (a, pos)) (keepOr other)
  | succ rounds ih =>
    intro a pos other
    rw [proceed_succ_bind, bind_assoc]
    apply bind_congr
    intro r
    cases r with
    | none => exact pure_bind (some (a, pos)) (keepOr other)
    | some found =>
      simp only [ih]

/-- Falling back is never needed: going on from a step that was found does find something. -/
theorem proceed_succ (step : α → Descent α) (rounds : Nat) (a : α) (tokens : Array Token)
    (pos : Nat) : proceed step (rounds + 1) a tokens pos = step a tokens pos >>= fun
      | none => pure (some (a, pos))
      | some (a', stop) => proceed step rounds a' tokens stop := by
  rw [proceed_succ_bind]
  apply bind_congr
  intro r
  cases r with
  | none => rfl
  | some found => exact proceed_bind_keepOr step tokens rounds found.1 found.2 _

end Descent

open Matching

variable {α β γ : Type}

section

variable {precedence : Precedence} {tokens : Array Token} {k : Nat}

/-- A token is matched as it is read. -/
theorem Matching.terminal_follows (kind : TokenKind) (pos : Nat) :
    FollowsFrom precedence tokens k (terminal tokens kind pos) (Descent.token kind tokens pos)
      (Match.Shows .token (pos + 1) tokens.size) := by
  intro s clean
  refine .of_ok rfl rfl rfl ⟨?_, clean.of_memo_eq rfl (Nat.le_max_left ..), .of_memo_eq rfl⟩
  cases found : tokens[pos]?.filter (·.kind == kind) with
  | none => exact .nothing
  | some t =>
    have inside := (Array.getElem?_eq_some_iff.mp (Option.filter_eq_some_iff.mp found).1).1
    exact .found t (pos + 1) (Nat.le_refl _) inside

namespace Matching.FollowsFrom

variable {val : α → Value} {low start pos : Nat} {action : Action}

/-- What follows a reader at its position follows the reader that asks for the position. -/
theorem here {x : Matching γ} {f : Nat → Descent α} {related : γ → Option (α × Nat) → Prop}
    (h : FollowsFrom precedence tokens k x (f pos tokens pos) related) :
    FollowsFrom precedence tokens k x ((Descent.here >>= f) tokens pos) related := by
  rwa [Descent.here_bind_run]

/-- A computation and a reader that both go on with what was read. -/
theorem step {x : Matching (Option Match)} {rest : Option Match → Matching γ} {p : Descent α}
    {f : α → Descent β} {related : γ → Option (β × Nat) → Prop}
    (first : FollowsFrom precedence tokens k x (p tokens pos) (Match.Shows val low tokens.size))
    (stuck : FollowsFrom precedence tokens k (rest none) (pure none) related)
    (next : ∀ a stop, low ≤ stop → stop ≤ tokens.size →
      FollowsFrom precedence tokens k (rest (some ⟨val a, stop⟩)) (f a tokens stop) related) :
    FollowsFrom precedence tokens k (x >>= rest) ((p >>= f) tokens pos) related := by
  apply first.bind
  intro m r shown
  cases shown with
  | nothing => exact stuck
  | found a stop above below => exact next a stop above below

/-- An action that computes what the reader accepts. -/
theorem accept {value : Value} {computed : Except ActionError α}
    (h : action value = val <$> computed) (above : low ≤ pos) (below : pos ≤ tokens.size) :
    FollowsFrom precedence tokens k (map tokens (some ⟨value, pos⟩) action start)
      (Descent.accept start computed tokens pos) (Match.Shows val low tokens.size) := by
  unfold map Descent.accept
  simp only [h]
  cases computed with
  | ok a => exact answer (.found a pos above below)
  | error cause => exact fun _ _ => rfl

/-- An action that builds something of what the reader accepts. -/
theorem accept_map {value : Value} {computed : Except ActionError β} {build : β → α}
    (h : action value = (fun b => val (build b)) <$> computed) (above : low ≤ pos)
    (below : pos ≤ tokens.size) :
    FollowsFrom precedence tokens k (map tokens (some ⟨value, pos⟩) action start)
      ((do return build (← Descent.accept start computed) : Descent α) tokens pos)
      (Match.Shows val low tokens.size) := by
  have built : action value = val <$> build <$> computed := by
    rw [h]
    cases computed <;> rfl
  have same : (do return build (← Descent.accept start computed) : Descent α) tokens pos =
      Descent.accept start (build <$> computed) tokens pos := by
    cases computed <;> rfl
  rw [same]
  exact accept built above below

/-- An action that cannot fail. -/
theorem accept_pure {value : Value} {a : α} (h : action value = .ok (val a)) (above : low ≤ pos)
    (below : pos ≤ tokens.size) :
    FollowsFrom precedence tokens k (map tokens (some ⟨value, pos⟩) action start)
      ((pure a : Descent α) tokens pos) (Match.Shows val low tokens.size) := by
  have accepted : action value = val <$> Except.ok a := h
  exact accept accepted above below

end Matching.FollowsFrom

end

/-! ## Rules -/

section

variable (precedence : Precedence) (definitions : Definitions) (tokens : Array Token)

/-- With fuel below the bound, the rule follows the reader at a position. -/
def Rule.Reads (bound k pos : Nat) (rule : Rule) (p : Descent α) (val : α → Value) (low : Nat) :
    Prop :=
  ∀ fuel < bound, FollowsFrom precedence tokens k (rule.match? definitions tokens fuel pos)
    (p tokens pos) (Match.Shows val low tokens.size)

/-- The rule follows the reader at every position from some position on. -/
def Rule.ReadsFrom (bound k first : Nat) (rule : Rule) (p : Descent α) (val : α → Value) : Prop :=
  ∀ pos, first ≤ pos → pos ≤ tokens.size →
    Rule.Reads precedence definitions tokens bound k pos rule p val (pos + 1)

/-- With fuel below the bound, the first of the rules that matches follows the reader. -/
def Rule.ReadsFirst (bound k pos : Nat) (rules : List Rule) (p : Descent α) (val : α → Value)
    (low : Nat) : Prop :=
  ∀ fuel < bound, FollowsFrom precedence tokens k
    (Matching.alternation (Rule.match? definitions tokens fuel) rules pos) (p tokens pos)
    (Match.Shows val low tokens.size)

end

section

variable {precedence : Precedence} {definitions : Definitions} {tokens : Array Token}
  {bound k pos low : Nat}

namespace Rule

/-- A rule for a token follows the reader of that token. -/
theorem reads_terminal (kind : TokenKind) :
    Reads precedence definitions tokens bound k pos (.terminal kind) (Descent.token kind) .token
      (pos + 1)
  | 0, _ => .outOfFuel
  | _ + 1, _ => terminal_follows kind pos

/-- What holds from some position on holds further on. -/
theorem ReadsFrom.later {first further : Nat} {rule : Rule} {p : Descent α} {val : α → Value}
    (h : ReadsFrom precedence definitions tokens bound k first rule p val) (le : first ≤ further) :
    ReadsFrom precedence definitions tokens bound k further rule p val :=
  fun pos above inside => h pos (Nat.le_trans le above) inside

/-- A rule that follows a reader at its position follows the reader that asks for the position. -/
theorem Reads.here {rule : Rule} {f : Nat → Descent α} {val : α → Value}
    (h : Reads precedence definitions tokens bound k pos rule (f pos) val low) :
    Reads precedence definitions tokens bound k pos rule (Descent.here >>= f) val low :=
  fun fuel lt => .here (h fuel lt)

/-- A rule with an action follows a reader and what comes after it, if the action follows that. -/
theorem Reads.map {rule : Rule} {action : Action} {p : Descent α} {f : α → Descent β}
    {val : α → Value} {val' : β → Value} {low' : Nat}
    (h : Reads precedence definitions tokens bound k pos rule p val low)
    (next : ∀ a stop, low ≤ stop → stop ≤ tokens.size →
      FollowsFrom precedence tokens k (Matching.map tokens (some ⟨val a, stop⟩) action pos)
        (f a tokens stop) (Match.Shows val' low' tokens.size)) :
    Reads precedence definitions tokens bound k pos (.map rule action) (p >>= f) val' low'
  | 0, _ => .outOfFuel
  | fuel + 1, lt => FollowsFrom.step (h fuel (by omega)) (.answer .nothing) next

/-! ### Sequences -/

/-- What is left to do for a sequence that is handed to an action: the rules that are left, after
the values that were found. -/
def rest (definitions : Definitions) (tokens : Array Token) (fuel : Nat)
    (action : List Value → Except ActionError Value) (start : Nat) (rules : List Rule)
    (before : List Value) (pos : Nat) : Matching (Option Match) := do
  Matching.map tokens (← Matching.sequence (Rule.match? definitions tokens fuel) rules before pos)
    (fun v => do action (← v.toSequence)) start

/-- A sequence with an action follows a reader, if all of its rules from the first on do. -/
theorem reads_mapSequence {rules : List Rule} {action : List Value → Except ActionError Value}
    {p : Descent α} {val : α → Value}
    (h : ∀ fuel < bound, FollowsFrom precedence tokens k
      (rest definitions tokens fuel action pos rules [] pos) (p tokens pos)
      (Match.Shows val low tokens.size)) :
    Reads precedence definitions tokens bound k pos (mapSequence rules action) p val low
  | 0, _ => .outOfFuel
  | 1, _ => .outOfFuel
  | fuel + 2, lt => h fuel (by omega)

/-- What is left of a sequence follows a reader and what comes after it, if its first rule follows
the reader and the others follow the rest. -/
theorem rest_cons {fuel start : Nat} {action : List Value → Except ActionError Value} {rule : Rule}
    {rules : List Rule} {before : List Value} {p : Descent α} {f : α → Descent β}
    {val : α → Value} {val' : β → Value} {low' : Nat} (lt : fuel < bound)
    (first : Reads precedence definitions tokens bound k pos rule p val low)
    (next : ∀ a stop, low ≤ stop → stop ≤ tokens.size →
      FollowsFrom precedence tokens k
        (rest definitions tokens fuel action start rules (val a :: before) stop)
        (f a tokens stop) (Match.Shows val' low' tokens.size)) :
    FollowsFrom precedence tokens k
      (rest definitions tokens fuel action start (rule :: rules) before pos)
      ((p >>= f) tokens pos) (Match.Shows val' low' tokens.size) := by
  unfold rest Matching.sequence
  rw [bind_assoc]
  exact FollowsFrom.step (first fuel lt) (.answer .nothing) next

section

variable {fuel start : Nat} {action : List Value → Except ActionError Value} {before : List Value}
  {val : α → Value}

/-- A sequence with no rule left follows what its action follows on the values that were found. -/
theorem rest_nil {a : Attempt (Option (α × Nat))}
    (h : FollowsFrom precedence tokens k
      (Matching.map tokens (some ⟨.sequence before.reverse, pos⟩)
        (fun v => do action (← v.toSequence)) start) a (Match.Shows val low tokens.size)) :
    FollowsFrom precedence tokens k (rest definitions tokens fuel action start [] before pos) a
      (Match.Shows val low tokens.size) := h

/-- At the end of a sequence, an action that computes what the reader accepts. -/
theorem rest_accept {computed : Except ActionError α} (h : action before.reverse = val <$> computed)
    (above : low ≤ pos) (below : pos ≤ tokens.size) :
    FollowsFrom precedence tokens k (rest definitions tokens fuel action start [] before pos)
      (Descent.accept start computed tokens pos) (Match.Shows val low tokens.size) :=
  rest_nil (.accept h above below)

/-- At the end of a sequence, an action that builds something of what the reader accepts. -/
theorem rest_accept_map {computed : Except ActionError β} {build : β → α}
    (h : action before.reverse = (fun b => val (build b)) <$> computed) (above : low ≤ pos)
    (below : pos ≤ tokens.size) :
    FollowsFrom precedence tokens k (rest definitions tokens fuel action start [] before pos)
      ((do return build (← Descent.accept start computed) : Descent α) tokens pos)
      (Match.Shows val low tokens.size) :=
  rest_nil (.accept_map h above below)

/-- At the end of a sequence, an action that cannot fail. -/
theorem rest_pure {a : α} (h : action before.reverse = .ok (val a)) (above : low ≤ pos)
    (below : pos ≤ tokens.size) :
    FollowsFrom precedence tokens k (rest definitions tokens fuel action start [] before pos)
      ((pure a : Descent α) tokens pos) (Match.Shows val low tokens.size) :=
  rest_nil (.accept_pure h above below)

end

/-! ### Alternatives -/

variable {rule : Rule} {rules : List Rule} {p q : Descent α} {val : α → Value}

/-- A single alternative follows what its rule follows. -/
theorem Reads.only (h : Reads precedence definitions tokens bound k pos rule p val low) :
    ReadsFirst precedence definitions tokens bound k pos [rule] p val low := by
  intro fuel lt
  have alone : p tokens pos = p tokens pos >>= pure := (bind_pure _).symm
  rw [alone]
  apply FollowsFrom.bind (h fuel lt)
  intro m r shown
  cases shown with
  | nothing => exact .answer .nothing
  | found a stop above below => exact .answer (.found a stop above below)

/-- One more alternative in front follows one more reader in front. -/
theorem Reads.orElse (h : Reads precedence definitions tokens bound k pos rule p val low)
    (others : ReadsFirst precedence definitions tokens bound k pos rules q val low) :
    ReadsFirst precedence definitions tokens bound k pos (rule :: rules) (p <|> q) val low := by
  intro fuel lt
  rw [Descent.orElse_run]
  apply FollowsFrom.bind (h fuel lt)
  intro m r shown
  cases shown with
  | nothing => exact others fuel lt
  | found a stop above below => exact .answer (.found a stop above below)

/-- Alternatives follow what the first of them that matches follows. -/
theorem ReadsFirst.alternation
    (h : ReadsFirst precedence definitions tokens bound k pos rules p val low) :
    Reads precedence definitions tokens bound k pos (.alternation rules) p val low
  | 0, _ => .outOfFuel
  | fuel + 1, lt => h fuel (by omega)

/-- A rule that is the last one of a sequence. -/
theorem rest_last {fuel start : Nat} {action : List Value → Except ActionError Value}
    {before : List Value} {val' : α → Value} {low' : Nat} (lt : fuel < bound)
    (first : Reads precedence definitions tokens bound k pos rule p val low)
    (next : ∀ a stop, low ≤ stop → stop ≤ tokens.size →
      FollowsFrom precedence tokens k
        (rest definitions tokens fuel action start [] (val a :: before) stop)
        ((pure a : Descent α) tokens stop) (Match.Shows val' low' tokens.size)) :
    FollowsFrom precedence tokens k (rest definitions tokens fuel action start [rule] before pos)
      (p tokens pos) (Match.Shows val' low' tokens.size) := by
  rw [← Descent.bind_pure_run p tokens pos]
  exact rest_cons lt first next

/-! ### Repetitions -/

/-- Rounds and the loop that takes one part after the other. What was found is kept last first. -/
theorem rounds_follow {attempt : Nat → Matching (Option Match)}
    (each : ∀ stop, pos ≤ stop → stop ≤ tokens.size →
      FollowsFrom precedence tokens k (attempt stop) (p tokens stop)
        (Match.Shows val (stop + 1) tokens.size)) (older : List Value) :
    ∀ (fuel budget : Nat) (before : List α) (stop : Nat), pos ≤ stop → stop ≤ tokens.size →
      tokens.size < budget + stop →
      FollowsFrom precedence tokens k
        (rounds attempt fuel none (before.map val ++ older) stop)
        (Descent.proceed (fun before => do return (← p) :: before) budget before tokens stop)
        fun found r => ∃ l, r = some (l, found.2) ∧
          found.1 = older.reverse ++ (l.map val).reverse ∧
            stop ≤ found.2 ∧ found.2 ≤ tokens.size := by
  intro fuel
  induction fuel with
  | zero =>
    intro budget before stop _ _ _
    exact .outOfFuel
  | succ fuel ih =>
    intro budget before stop above below enough
    obtain ⟨budget, rfl⟩ := Nat.exists_eq_succ_of_ne_zero (by omega : budget ≠ 0)
    unfold rounds
    rw [if_neg (by simp), Descent.proceed_succ, Descent.bind_run, bind_assoc]
    apply (each stop above below).bind
    intro m r shown
    cases shown with
    | nothing =>
      exact .answer ⟨before, rfl, by rw [List.reverse_append], Nat.le_refl stop, below⟩
    | found a next further inside =>
      have moved : stop < next := further
      simp only
      rw [if_pos moved]
      change FollowsFrom precedence tokens k _
        ((pure (some (a :: before, next)) : Attempt _) >>= _) _
      rw [pure_bind]
      refine (ih budget (a :: before) next (by omega) inside (by omega)).mono ?_
      rintro found r ⟨l, same, values, start, stop⟩
      exact ⟨l, same, values, by omega, stop⟩

/-- As many parts as there are. -/
theorem reads_star (inside : pos ≤ tokens.size)
    (each : ReadsFrom precedence definitions tokens bound k pos rule p val) :
    Reads precedence definitions tokens bound k pos (star rule) (Descent.many p)
      (fun found => .sequence (found.map val)) pos
  | 0, _ => .outOfFuel
  | fuel + 1, lt => by
    have rounds := rounds_follow (fun stop above below => each stop above below fuel (by omega)) []
      fuel (tokens.size + 1 - pos) [] pos (Nat.le_refl pos) inside (by omega)
    refine rounds.bind fun found r ⟨l, same, values, start, stop⟩ => ?_
    subst same
    have shown : found.1 = l.reverse.map val := by rw [values, List.map_reverse]; rfl
    simp only
    rw [if_neg (Nat.not_lt_zero _), shown]
    exact .answer (.found l.reverse found.2 start stop)

/-- One or more parts. -/
theorem reads_plus (inside : pos ≤ tokens.size)
    (each : ReadsFrom precedence definitions tokens bound k pos rule p val) :
    Reads precedence definitions tokens bound k pos (plus rule) (Descent.listOf p p)
      (fun found => .sequence (found.map val)) (pos + 1) := by
  rintro (_ | _ | fuel) lt
  · exact .outOfFuel
  · exact .outOfFuel
  · have each : ∀ stop, pos ≤ stop → stop ≤ tokens.size →
        FollowsFrom precedence tokens k (rule.match? definitions tokens (fuel + 1) stop)
          (p tokens stop)
          (Match.Shows val (stop + 1) tokens.size) :=
      fun stop above below => each stop above below (fuel + 1) (by omega)
    unfold plus Rule.match? Matching.repetition rounds
    rw [if_neg (by simp), bind_assoc]
    refine (each pos (Nat.le_refl pos) inside).step (.answer .nothing) fun a next above below => ?_
    have moved : pos < next := above
    have more := rounds_follow each [val a] fuel (tokens.size + 1 - next) [] next (by omega) below
      (by omega)
    simp only
    rw [if_pos moved, Descent.bind_run, Descent.many, Descent.bind_run, bind_assoc]
    refine more.bind ?_
    rintro found _ ⟨l, rfl, values, start, stop⟩
    have shown : found.1 = (a :: l.reverse).map val := by
      rw [values, List.map_cons, List.map_reverse]
      rfl
    simp only
    rw [if_neg (by simp [shown]), shown]
    exact .answer (.found (a :: l.reverse) found.2 (by omega) stop)

/-- A part that may be missing. -/
theorem reads_maybe (inside : pos ≤ tokens.size)
    (h : Reads precedence definitions tokens bound k pos rule p val (pos + 1)) :
    Reads precedence definitions tokens bound k pos (maybe rule) (Descent.optional p)
      (fun found => (found.map val).getD .nothing) pos
  | 0, _ => .outOfFuel
  | 1, _ => .outOfFuel
  | fuel + 2, lt => by
    unfold maybe Rule.match? Matching.repetition rounds
    rw [if_neg (by simp), bind_assoc, Descent.optional, Descent.orElse_run, Descent.bind_run,
      bind_assoc]
    apply FollowsFrom.bind (h (fuel + 1) (by omega))
    intro m r shown
    cases shown with
    | nothing => exact .answer (.found none pos (Nat.le_refl pos) inside)
    | found a next above below =>
      have moved : pos < next := above
      simp only
      rw [if_pos moved]
      cases fuel with
      | zero => exact .outOfFuel
      | succ fuel => exact .answer (.found (some a) next (by omega) below)

/-! ## Lists -/

/-- A part, and further ones. -/
theorem reads_listOf {further : Rule}
    (h : Reads precedence definitions tokens bound k pos rule p val (pos + 1))
    (each : ReadsFrom precedence definitions tokens bound k (pos + 1) further q val) :
    Reads precedence definitions tokens bound k pos (Grammar.listOf rule further)
      (Descent.listOf p q) (fun found => .sequence (found.map val)) (pos + 1) := by
  apply reads_mapSequence
  intro fuel lt
  apply rest_cons lt h
  intro a stop above below
  apply rest_cons lt (reads_star below (each.later above))
  intro found stop' above' below'
  exact rest_pure rfl (by omega) below'

/-- A part of no consequence, and the one after it. -/
theorem reads_nth {between : Rule} {mark : Descent β} {val' : β → Value}
    (h : Reads precedence definitions tokens bound k pos between mark val' (pos + 1))
    (each : ReadsFrom precedence definitions tokens bound k (pos + 1) rule p val) :
    Reads precedence definitions tokens bound k pos (nth [between, rule] 1)
      (do let _ ← mark; p) val (pos + 1) := by
  apply reads_mapSequence
  intro fuel lt
  apply rest_cons lt h
  intro _ stop above below
  apply rest_last lt (each stop above below)
  intro a stop' above' below'
  exact rest_pure rfl (by omega) below'

/-- Parts with tokens of one kind between them. -/
theorem reads_listWith {between : TokenKind} (inside : pos ≤ tokens.size)
    (each : ReadsFrom precedence definitions tokens bound k pos rule p val) :
    Reads precedence definitions tokens bound k pos (Grammar.listWith between rule)
      (Descent.listWith between p) (fun found => .sequence (found.map val)) (pos + 1) :=
  reads_listOf (each pos (Nat.le_refl pos) inside) fun next above _ =>
    reads_nth (reads_terminal between) (each.later (by omega))

end Rule

end

end ClosureLang
