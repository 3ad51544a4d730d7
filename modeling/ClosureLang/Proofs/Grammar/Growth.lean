import ClosureLang.Proofs.Grammar.Expressions
import ClosureLang.Proofs.Rule.Fuel
import ClosureLang.Proofs.Rule.Growth

/-!
# Growing an expression is reading its suffixes

An expression is left-recursive: four of the ways to begin one begin with an expression. The grammar
grows it from a seed. The body of the forward is tried again and again with the longest match so far
remembered as the result of the forward, until the match does not get longer. The reader does
something much simpler: it reads one operand and then one suffix after another, as long as there is
one. This module shows that the two come to the same.

## The body in three parts

What an expression stands for is one list of alternatives, of which the first that matches counts.
The list has three parts: the `lambdas`, then what starts with an expression again (`suffixed`),
then the `operands` with which an expression can begin otherwise. `alternation_append` lets the
parts be tried one after the other. Each of them does something different in each of two situations.

The first time, the forward is pending at the position.

- The lambdas follow the reader of lambdas. If there is one, it is the seed.
- What starts with an expression does not match, since the forward that it starts with is being
  tried (`alternation_stuck`). It looks at no token on the way, and leaves nothing behind but the
  mark that the forward was met again, which is why there will be growth at all.
- The operands follow the reader of operands.

Later the seed is remembered.

- The lambdas do what they did before. They did not match then, so they do not match now, and they
  do not look any further than they did (`FollowsFrom.again`).
- What starts with an expression finds the seed in place of the expression and goes on after it, so
  it follows the reader of suffixes (`resumesFirst_suffixed`).
- The operands do what they did before as well. What they find is the first seed again, which is not
  longer than the present one, so it does not count.

So one round of growth reads one suffix (`expressionBody_resumes`), and growth ends where the reader
finds no further suffix (`grow_agrees`).

## What is remembered

For the parts that are tried twice to do the same twice, what is remembered has to be as good the
second time as it was the first time. Planting a seed drops what is remembered at its position,
because it may have been built on the seed before. At the position of an expression that is only the
result of a statement. It is allowed for in `Progress.Keeps`, and it does no harm: a statement is
never tried inside an expression at the same position. Everything further on stays and is still
justified (`Progress.Clean.plant`).

A lambda is never grown. Where there is one, it is found before anything is tried that starts with
an expression, so the forward is not met again and there is no reason to grow. What stands after the
braces of a lambda is taken by whatever expression the lambda is an operand of.
-/

set_option autoImplicit false

namespace ClosureLang

open Matching Rule

namespace Grammar

/-- The three forms of a lambda. -/
def lambdas : List Rule :=
  [lambdaWithParameters expression statement, lambdaWithParameter expression statement,
    lambdaWithoutParameters expression statement]

/-- What starts with an expression. -/
def suffixed (precedence : Precedence) : List Rule :=
  [callWithArguments expression, callWithoutArguments expression, attributeAccess expression,
    operation precedence expression]

/-- What an expression can begin with otherwise. -/
def operands : List Rule := [invocation expression, primary]

/-- What an expression stands for. -/
def expressionBody (precedence : Precedence) : Rule :=
  .alternation (lambdas ++ (suffixed precedence ++ operands))

/-- The builder of the grammar, when everything is defined. -/
def builder (precedence : Precedence) : Builder where
  number := 0
  cells := [some (expressionBody precedence), some (statementRule expression statement)]

/-- What the forwards of the grammar stand for. -/
def definitions (precedence : Precedence) : Definitions :=
  RuleSet.definition? ⟨builder precedence, programRule statement⟩

/-- The language has a rule set, with a forward for expressions and one for statements. -/
theorem ruleSet_eq (precedence : Precedence) :
    ruleSet precedence = .ok ⟨builder precedence, programRule statement⟩ := rfl

end Grammar

namespace Matching

variable {α β γ : Type}

/-- The match, or else what the other alternatives give. -/
def orMatch (other : Matching (Option Match)) : Option Match → Matching (Option Match)
  | none => other
  | some m => pure (some m)

/-- Alternatives are tried in two parts: the second one only if the first one has no match. -/
theorem alternation_append (attempt : Rule → Nat → Matching (Option Match)) (pos : Nat)
    (more rules : List Rule) : alternation attempt (rules ++ more) pos =
      alternation attempt rules pos >>= orMatch (alternation attempt more pos) := by
  induction rules with
  | nil => exact (pure_bind none (orMatch _)).symm
  | cons rule rules ih =>
    rw [List.cons_append, alternation, alternation, bind_assoc]
    apply bind_congr
    intro m
    cases m with
    | none => exact ih
    | some m => exact (pure_bind (some m) (orMatch _)).symm

/-- Of the matches of the body, growth only looks at those that are longer than the seed. -/
theorem grow_succ (body : Matching (Option Match)) (place : Place) (rounds : Nat) (seed : Match) :
    grow body place (rounds + 1) seed = (do
      plant place seed
      match (← body).filter (seed.stop < ·.stop) with
      | none => return seed
      | some grown => grow body place rounds grown) := by
  rw [grow]
  refine bind_congr fun _ => bind_congr fun m => ?_
  cases m with
  | none => rfl
  | some grown =>
    by_cases longer : seed.stop < grown.stop
    · simp only [longer, Option.filter_some, decide_true, if_true]
    · simp only [longer, Option.filter_some, decide_false, Bool.false_eq_true, if_false]

/-- A matching that runs out of fuel agrees with any attempt. -/
theorem Starves.agrees {x : Matching α} {s : Progress} {a : Attempt β}
    {post : α → β → Progress → Prop} (h : x.Starves s) : x.Agrees s a post := by
  obtain ⟨s', starved⟩ := h
  exact .of_outOfFuel starved

/-- Where something was read before, without looking further than by now, trying it again gives the
same. -/
theorem FollowsFrom.again {precedence : Precedence} {tokens : Array Token} {k : Nat}
    {x : Matching α} {a : Attempt β} {related : α → β → Prop} {s : Progress} {w : β}
    (h : FollowsFrom precedence tokens k x a related) (clean : s.Clean precedence tokens k)
    (result : a.result = .ok w) (reach : a.reach ≤ s.furthest) : x.Starves s ∨ ∃ v s',
      x s = .ok v s' ∧ related v w ∧ s'.furthest = s.furthest ∧
        s'.Clean precedence tokens k ∧ Progress.Keeps k s s' := by
  have agrees := h s clean
  cases run : x s with
  | ok v s' =>
    obtain ⟨w', result', furthest, shown, rest⟩ := agrees.ok run
    obtain rfl : w = w' := Except.ok.inj (result.symm.trans result')
    exact .inr ⟨v, s', rfl, shown, furthest.trans (Nat.max_eq_left reach), rest⟩
  | error halt s' =>
    cases halt with
    | outOfFuel => exact .inl ⟨s', run⟩
    | failed e => cases result.symm.trans (agrees.failed run)

end Matching

namespace Progress

variable {precedence : Precedence} {tokens : Array Token} {s s' : Progress} {pos : Nat}

/-- Only the expression at a position was marked. -/
def Marks (pos : Nat) (s s' : Progress) : Prop :=
  s'.memo.find? ⟨0, pos⟩ = some (.pending true) ∧
    ∀ place, place ≠ ⟨0, pos⟩ → s'.memo.find? place = s.memo.find? place

/-- What is remembered for other places stays, and what is remembered for the expression at the
position is not looked at. -/
theorem Clean.of_find?_eq {k : Nat} (h : s.Clean precedence tokens k) (after : 2 * pos + 1 < k)
    (same : ∀ place, place ≠ ⟨0, pos⟩ → s'.memo.find? place = s.memo.find? place)
    (le : s.furthest ≤ s'.furthest) : s'.Clean precedence tokens k := by
  intro place memo known late found
  have apart : place ≠ ⟨0, pos⟩ := by
    rintro rfl
    exact absurd after (Nat.not_lt.mpr late)
  rw [same place apart] at found
  obtain ⟨result, rfl, justified⟩ := h place memo known late found
  exact ⟨result, rfl, justified.mono le⟩

/-- A state that differs from another in one expression keeps what comes before that. -/
theorem Keeps.of_find?_eq
    (same : ∀ place, place ≠ ⟨0, pos⟩ → s'.memo.find? place = s.memo.find? place) :
    Keeps (2 * pos + 1) s s' := by
  intro place before
  refine .inl (same place ?_)
  rintro rfl
  exact absurd before (Nat.lt_irrefl _)

/-- Everything but a statement's result at the position of an expression is kept. -/
theorem Keeps.find?_eq {k : Nat} (h : Keeps k s s') (place : Place) (before : place.order < k)
    (kept : k ≠ 2 * place.position + 1 ∨ ∃ b, s.memo.find? place = some (.pending b)) :
    s'.memo.find? place = s.memo.find? place := by
  rcases h place before with same | ⟨here, -, resolved⟩
  · exact same
  · rcases kept with apart | ⟨b, pending⟩
    · exact absurd here apart
    · exact absurd pending (resolved b)

end Progress

/-! ## What starts with an expression -/

section

variable {precedence : Precedence} {definitions : Definitions} {tokens : Array Token}
  {bound k pos stop : Nat} {receiver : Node} {s : Progress}

/-- The rule is a sequence that starts with an expression. -/
def Rule.StartsWithExpression (rule : Rule) : Prop :=
  ∃ rules action, rule = mapSequence (Grammar.expression :: rules) action

/-- Calls, attributes and operations start with an expression. -/
theorem startsWithExpression_of_mem {rule : Rule} (mem : rule ∈ Grammar.suffixed precedence) :
    rule.StartsWithExpression := by
  simp only [Grammar.suffixed, List.mem_cons, List.not_mem_nil, or_false] at mem
  rcases mem with rfl | rfl | rfl | rfl <;> exact ⟨_, _, rfl⟩

/-- While an expression is tried for the first time, what starts with one does not match. -/
theorem Rule.StartsWithExpression.stuck {rule : Rule} (starts : rule.StartsWithExpression)
    {b : Bool} (pending : s.memo.find? ⟨0, pos⟩ = some (.pending b)) :
    ∀ fuel, (rule.match? definitions tokens fuel pos).Starves s ∨ ∃ s',
      rule.match? definitions tokens fuel pos s = .ok none s' ∧ s'.furthest = s.furthest ∧
        Progress.Marks pos s s' := by
  obtain ⟨rules, action, rfl⟩ := starts
  intro fuel
  match fuel with
  | 0 => exact .inl ⟨s, rfl⟩
  | 1 => exact .inl ⟨s, rfl⟩
  | 2 => exact .inl ⟨s, rfl⟩
  | fuel + 3 =>
    refine .inr ⟨{ s with memo := s.memo.insert ⟨0, pos⟩ (.pending true) }, ?_, rfl,
      s.memo.find?_insert_self .., fun place apart => s.memo.find?_insert_of_ne _ apart⟩
    change rest definitions tokens (fuel + 1) action pos (Grammar.expression :: rules) [] pos s = _
    unfold rest Matching.sequence
    rw [bind_assoc]
    have met : Grammar.expression.match? definitions tokens (fuel + 1) pos s =
        .ok none { s with memo := s.memo.insert ⟨0, pos⟩ (.pending true) } :=
      forward_of_pending pending
    rw [bind_run_of_ok met]
    rfl

/-- What only marks an expression, twice, only marks it. -/
theorem Progress.Marks.trans {s₁ s' : Progress} (h : Marks pos s s₁) (h' : Marks pos s₁ s') :
    Marks pos s s' :=
  ⟨h'.1, fun place apart => (h'.2 place apart).trans (h.2 place apart)⟩

/-- While an expression is pending, no rule that starts with one matches at its position: such rules
look at no token, and all they do is mark the expression as left-recursive. -/
theorem alternation_stuck (fuel : Nat) {rule : Rule} {rules : List Rule} {b : Bool}
    (each : ∀ other ∈ rule :: rules, other.StartsWithExpression)
    (pending : s.memo.find? ⟨0, pos⟩ = some (.pending b)) :
    (Matching.alternation (match? definitions tokens fuel) (rule :: rules) pos).Starves s ∨
      ∃ s', Matching.alternation (match? definitions tokens fuel) (rule :: rules) pos s =
        .ok none s' ∧ s'.furthest = s.furthest ∧ Progress.Marks pos s s' := by
  induction rules generalizing rule s b with
  | nil =>
    unfold Matching.alternation
    rcases (each rule List.mem_cons_self).stuck pending fuel with starves | ⟨s₁, run, stuck⟩
    · exact .inl starves.bind
    · rw [bind_run_of_ok run]
      exact .inr ⟨s₁, rfl, stuck⟩
  | cons next rules ih =>
    unfold Matching.alternation
    rcases (each rule List.mem_cons_self).stuck pending fuel with
      starves | ⟨s₁, run, furthest, marks⟩
    · exact .inl starves.bind
    have others := fun other mem => each other (List.mem_cons_of_mem rule mem)
    rcases ih others marks.1 with starves | ⟨s', run', furthest', marks'⟩
    · exact .inl (.bind_of_ok run starves)
    · rw [bind_run_of_ok run]
      exact .inr ⟨s', run', furthest'.trans furthest, marks.trans marks'⟩

/-- While an expression is pending, calls, attributes and operations do not match there. -/
theorem suffixed_stuck {b : Bool} (fuel : Nat)
    (pending : s.memo.find? ⟨0, pos⟩ = some (.pending b)) :
    (Matching.alternation (match? definitions tokens fuel) (Grammar.suffixed precedence)
      pos).Starves s ∨ ∃ s', Matching.alternation (match? definitions tokens fuel)
        (Grammar.suffixed precedence) pos s = .ok none s' ∧ s'.furthest = s.furthest ∧
          Progress.Marks pos s s' :=
  alternation_stuck fuel (fun _ mem => startsWithExpression_of_mem mem) pending

/-- Where an expression was found already, the first of the rules that matches follows the reader of
what comes after it. -/
def Rule.ResumesFirst (precedence : Precedence) (definitions : Definitions) (tokens : Array Token)
    (bound k pos stop : Nat) (receiver : Node) (rules : List Rule) (q : Descent Node) : Prop :=
  ∀ fuel < bound, ∀ s : Progress, s.Clean precedence tokens k →
    s.memo.find? ⟨0, pos⟩ = some (.resolved (some ⟨.node receiver, stop⟩)) →
    (Matching.alternation (match? definitions tokens fuel) rules pos).Agrees s (q tokens stop)
      fun m r s' => Match.Shows .node (stop + 1) tokens.size m r ∧
        s'.Clean precedence tokens k ∧ Progress.Keeps k s s'

/-- A single alternative resumes as its rule does. -/
theorem Rule.Resumes.only {rule : Rule} {q : Descent Node}
    (h : Resumes precedence definitions tokens bound k pos stop receiver rule q) :
    ResumesFirst precedence definitions tokens bound k pos stop receiver [rule] q := by
  intro fuel lt s clean found
  have alone : q tokens stop = q tokens stop >>= pure := (bind_pure _).symm
  rw [alone]
  refine Agrees.bind ((h fuel lt s clean found).mono fun m r s' _ _ ⟨shown, kept⟩ => ?_)
  cases shown with
  | nothing => exact agrees_pure ⟨.nothing, kept⟩
  | found a stop above below => exact agrees_pure ⟨.found a stop above below, kept⟩

/-- One more alternative in front resumes as one more reader in front. The expression at the
position is still remembered when the others are tried. -/
theorem Rule.Resumes.orElse {rule : Rule} {rules : List Rule} {q q' : Descent Node}
    (h : Resumes precedence definitions tokens bound k pos stop receiver rule q)
    (others : ResumesFirst precedence definitions tokens bound k pos stop receiver rules q')
    (after : 2 * pos + 1 < k) :
    ResumesFirst precedence definitions tokens bound k pos stop receiver (rule :: rules)
      (q <|> q') := by
  intro fuel lt s clean found
  rw [Descent.orElse_run]
  refine Agrees.bind ((h fuel lt s clean found).mono fun m r s₁ _ _ ⟨shown, clean₁, keeps₁⟩ => ?_)
  cases shown with
  | nothing =>
    have still := keeps₁.find?_eq ⟨0, pos⟩ after (.inl (Nat.ne_of_gt after))
    refine (others fuel lt s₁ clean₁ (still.trans found)).mono ?_
    rintro m r s' - - ⟨shown, clean', keeps'⟩
    exact ⟨shown, clean', keeps₁.trans keeps'⟩
  | found a stop above below => exact agrees_pure ⟨.found a stop above below, clean₁, keeps₁⟩

end

/-! ## The alternatives of the body -/

section

variable {precedence : Precedence} {definitions : Definitions} {tokens : Array Token}
  {bound k pos stop : Nat} {receiver : Node} {e st : Descent Node}

/-- The rules of lambdas follow the reader of lambdas. -/
theorem readsFirst_lambdas
    (each : ReadsFrom precedence definitions tokens bound k (pos + 1) Grammar.expression e .node)
    (eachStatement : ReadsFrom precedence definitions tokens bound k (pos + 1) Grammar.statement
      st .node) :
    ReadsFirst precedence definitions tokens bound k pos Grammar.lambdas (Descent.lambda e st)
      .node (pos + 1) :=
  (reads_lambdaWithParameters each eachStatement).orElse
    ((reads_lambdaWithParameter each eachStatement).orElse
      (reads_lambdaWithoutParameters each eachStatement).only)

/-- The rules of invocations and primaries follow the reader of operands. -/
theorem readsFirst_operands
    (each : ReadsFrom precedence definitions tokens bound k (pos + 1) Grammar.expression e .node) :
    ReadsFirst precedence definitions tokens bound k pos Grammar.operands (Descent.operand e)
      .node (pos + 1) :=
  (reads_invocation each).orElse reads_primary.only

/-- Calls, attributes and operations resume after their receiver as the reader of suffixes goes
on. -/
theorem resumesFirst_suffixed
    (each : ReadsFrom precedence definitions tokens bound k (stop + 1) Grammar.expression e .node)
    (after : 2 * pos + 1 < k) :
    ResumesFirst precedence definitions tokens bound k pos stop receiver
      (Grammar.suffixed precedence) (Descent.suffix precedence e pos receiver) :=
  (callWithArguments_resumes each).orElse
    (callWithoutArguments_resumes.orElse
      (attributeAccess_resumes.orElse (operation_resumes each).only after) after) after

end

/-! ## Rounds of growth -/

section

variable {precedence : Precedence} {tokens : Array Token} {bound pos low : Nat}
  {e st : Descent Node} {first : Node}

/-- Planting a seed only drops results at the position of the expression. -/
theorem find?_plant_of_ne {t : MemoTable} {seed : Match} {place : Place}
    (apart : place ≠ ⟨0, pos⟩)
    (kept : place.position ≠ pos ∨ ∃ b, t.find? place = some (.pending b)) :
    ((t.insert ⟨0, pos⟩ (.resolved (some seed))).forget ⟨0, pos⟩).find? place = t.find? place := by
  rw [MemoTable.find?_forget_of_survives, t.find?_insert_of_ne _ apart]
  intro memo found
  rw [t.find?_insert_of_ne _ apart] at found
  rcases kept with elsewhere | ⟨b, pending⟩
  · simp [MemoTable.survives, elsewhere]
  · rw [pending] at found
    cases found
    simp [MemoTable.survives, Memo.isPending]

/-- Planting a seed leaves the state clean after the expression. -/
theorem Progress.Clean.plant {s : Progress} {seed : Match}
    (clean : s.Clean precedence tokens (2 * pos + 2)) :
    Progress.Clean precedence tokens (2 * pos + 2)
      { s with memo := (s.memo.insert ⟨0, pos⟩ (.resolved (some seed))).forget ⟨0, pos⟩ } := by
  intro place memo known after found
  have later : pos < place.position := by
    have := place.order_le
    omega
  rw [find?_plant_of_ne (fun same => by simp [same] at later) (.inl (Nat.ne_of_gt later))] at found
  exact clean place memo known after found

/-- Planting a seed keeps what comes before the expression, and may drop the statement there. -/
theorem Progress.Keeps.plant {s : Progress} {seed : Match} :
    Progress.Keeps (2 * pos + 1) s
      { s with memo := (s.memo.insert ⟨0, pos⟩ (.resolved (some seed))).forget ⟨0, pos⟩ } := by
  intro place before
  have apart : place ≠ ⟨0, pos⟩ := by
    rintro rfl
    exact absurd before (Nat.lt_irrefl _)
  by_cases here : place.position = pos
  · rcases found : s.memo.find? place with _ | (b | result)
    · refine .inl ?_
      rw [MemoTable.find?_forget, s.memo.find?_insert_of_ne _ apart, found]
      rfl
    · exact .inl ((find?_plant_of_ne apart (.inr ⟨b, found⟩)).trans found)
    · refine .inr ⟨by rw [here], ?_, fun b pending => by cases pending⟩
      rw [MemoTable.find?_forget, s.memo.find?_insert_of_ne _ apart, found]
      have other : place.id ≠ 0 := fun same => apart (by cases place; simp_all)
      simp [MemoTable.survives, Memo.isPending, here, other]
  · exact .inl (find?_plant_of_ne apart (.inl here))

/-- Planting a seed looks at no token, and the seed is then found in place of the expression. -/
theorem plant_run {s : Progress} (seed : Match)
    (clean : s.Clean precedence tokens (2 * pos + 2)) : ∃ s₁, plant ⟨0, pos⟩ seed s = .ok () s₁ ∧
      s₁.furthest = s.furthest ∧ s₁.memo.find? ⟨0, pos⟩ = some (.resolved (some seed)) ∧
        s₁.Clean precedence tokens (2 * pos + 2) ∧ Progress.Keeps (2 * pos + 1) s s₁ :=
  ⟨_, rfl, rfl, MemoTable.find?_plant_self seed, clean.plant, .plant⟩

section

variable
  (each : ReadsFrom precedence (Grammar.definitions precedence) tokens bound (2 * pos + 2) (pos + 1)
    Grammar.expression e .node)
  (eachStatement : ReadsFrom precedence (Grammar.definitions precedence) tokens bound (2 * pos + 2)
    (pos + 1) Grammar.statement st .node)
  (noLambda : (Descent.lambda e st tokens pos).result = .ok none)
  (operand : (Descent.operand e tokens pos).result = .ok (some (first, low)))
include each eachStatement noLambda operand

/-- Where an expression was found already, and it is known that there is no lambda and which operand
there is, a match of the body that is longer than the expression is the expression with one suffix
more. -/
theorem expressionBody_resumes {fuel : Nat} (lt : fuel < bound) {node : Node} {stop : Nat}
    {s : Progress} (longer : low ≤ stop) (above : pos + 1 ≤ stop)
    (clean : s.Clean precedence tokens (2 * pos + 2))
    (found : s.memo.find? ⟨0, pos⟩ = some (.resolved (some ⟨.node node, stop⟩)))
    (lambda : (Descent.lambda e st tokens pos).reach ≤ s.furthest)
    (reach : (Descent.operand e tokens pos).reach ≤ s.furthest) :
    ((Grammar.expressionBody precedence).match? (Grammar.definitions precedence) tokens fuel
      pos).Agrees s (Descent.suffix precedence e pos node tokens stop) fun m r s' =>
        Match.Shows .node (stop + 1) tokens.size (m.filter (stop < ·.stop)) r ∧
          s'.Clean precedence tokens (2 * pos + 2) ∧ Progress.Keeps (2 * pos + 2) s s' := by
  cases fuel with
  | zero => exact agrees_outOfFuel
  | succ fuel =>
    have less : fuel < bound := Nat.lt_of_succ_lt lt
    have after : 2 * pos + 1 < 2 * pos + 2 := Nat.lt_succ_self _
    have alone : Descent.suffix precedence e pos node tokens stop =
        Descent.suffix precedence e pos node tokens stop >>= pure := (bind_pure _).symm
    change (Matching.alternation (match? (Grammar.definitions precedence) tokens fuel)
      (Grammar.lambdas ++ (Grammar.suffixed precedence ++ Grammar.operands)) pos).Agrees s _ _
    rw [alternation_append]
    -- the lambdas do not match again
    rcases (readsFirst_lambdas each eachStatement fuel less).again clean noLambda lambda with
      starves | ⟨_, s₁, run₁, shown₁, furthest₁, clean₁, keeps₁⟩
    · exact starves.bind.agrees
    cases shown₁
    refine .bind_left run₁ furthest₁ ?_
    rw [orMatch, alternation_append, alone]
    have found₁ := (keeps₁.find?_eq ⟨0, pos⟩ after (.inl (Nat.ne_of_gt after))).trans found
    refine Agrees.bind ((resumesFirst_suffixed (each.later (by omega)) after fuel less s₁ clean₁
      found₁).mono ?_)
    rintro m r s₂ - furthest₂ ⟨shown, clean₂, keeps₂⟩
    have kept := keeps₁.trans keeps₂
    cases shown with
    | nothing =>
      -- there is no suffix, and the operand is no longer than the expression
      have further : s.furthest ≤ s₂.furthest := by
        rw [furthest₂, furthest₁]
        exact Nat.le_max_left ..
      rcases (readsFirst_operands each fuel less).again clean₂ operand (Nat.le_trans reach further)
        with starves | ⟨_, s₃, run₃, shown₃, furthest₃, clean₃, keeps₃⟩
      · exact starves.agrees
      cases shown₃
      refine .of_ok run₃ rfl (by simp [furthest₃]) ⟨?_, clean₃, kept.trans keeps₃⟩
      rw [Option.filter_some_neg (by simpa using longer)]
      exact .nothing
    | found node' stop' above' below' =>
      refine agrees_pure ⟨?_, clean₂, kept⟩
      have longer' : stop < stop' := above'
      rw [Option.filter_some_pos (by simpa using longer')]
      exact .found node' stop' above' below'

/-- Growing an expression from a seed reads its suffixes. -/
theorem grow_agrees {fuel : Nat} (lt : fuel < bound) {rounds budget : Nat} {node : Node}
    {stop : Nat} {s : Progress} (longer : low ≤ stop) (above : pos + 1 ≤ stop)
    (below : stop ≤ tokens.size) (enough : tokens.size < budget + stop)
    (clean : s.Clean precedence tokens (2 * pos + 2))
    (lambda : (Descent.lambda e st tokens pos).reach ≤ s.furthest)
    (reach : (Descent.operand e tokens pos).reach ≤ s.furthest) :
    (grow ((Grammar.expressionBody precedence).match? (Grammar.definitions precedence) tokens
      fuel pos) ⟨0, pos⟩ rounds ⟨.node node, stop⟩).Agrees s
      (Descent.proceed (Descent.suffix precedence e pos) budget node tokens stop)
      fun m r s' => Match.Shows .node (pos + 1) tokens.size (some m) r ∧
        s'.Clean precedence tokens (2 * pos + 2) ∧ Progress.Keeps (2 * pos + 1) s s' := by
  induction rounds generalizing budget node stop s with
  | zero => exact agrees_outOfFuel
  | succ rounds ih =>
    obtain ⟨s₁, planting, furthest₁, seeded, clean₁, keeps₁⟩ := plant_run ⟨.node node, stop⟩ clean
    obtain ⟨budget, rfl⟩ := Nat.exists_eq_succ_of_ne_zero (by omega : budget ≠ 0)
    rw [grow_succ, Descent.proceed_succ]
    refine .bind_left planting furthest₁ ?_
    refine Agrees.bind ((expressionBody_resumes each eachStatement noLambda operand lt longer above
      clean₁ seeded (furthest₁ ▸ lambda) (furthest₁ ▸ reach)).mono ?_)
    rintro m r s₂ - furthest₂ ⟨shown, clean₂, keeps₂⟩
    have kept := keeps₁.trans (keeps₂.sooner (Nat.le_succ _))
    have further : s.furthest ≤ s₂.furthest := by
      rw [furthest₂, furthest₁]
      exact Nat.le_max_left ..
    generalize m.filter (stop < ·.stop) = longest at shown
    cases shown with
    | nothing => exact agrees_pure ⟨.found node stop above below, clean₂, kept⟩
    | found node' stop' above' below' =>
      refine (ih (by omega) (by omega) below' (by omega) clean₂ (Nat.le_trans lambda further)
        (Nat.le_trans reach further)).mono ?_
      rintro m r s' - - ⟨shown, clean', keeps'⟩
      exact ⟨shown, clean', kept.trans keeps'⟩

end

end

end ClosureLang
