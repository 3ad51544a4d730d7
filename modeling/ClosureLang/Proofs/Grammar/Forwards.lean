import ClosureLang.Proofs.Grammar.Growth
import ClosureLang.Proofs.Grammar.Statements

/-!
# Expressions and statements follow their readers

A forward that is tried for the first time at a position settles on a result, which is then
remembered. That result is justified for every depth that is enough: the readers of all these depths
agree with the one run there is. By induction on the fuel, expressions and statements follow their
readers at every position.

The induction needs three layers. On the lowest, rules that are made of expressions and statements
follow the readers that are made of theirs, with a bound on the fuel up to which that is known of
expressions and statements themselves. On the next, a forward settles (`Settles`): from a clean
state, with nothing remembered at the place, its body finds what the readers find, for a statement
in one trial (`statement_settles`), for an expression with all its rounds of growth
(`expression_settles`). On the last, the result is remembered, and a later trial finds it there and
agrees with the readers because it is justified (`forward_follows`).

The depth of a reader and the fuel of a rule have nothing to do with each other. A reader is deep
enough if it covers the tokens that are left (`Place.depth`), and it goes one level down for each
expression or statement inside another. The rule runs out of fuel earlier or later, which is the one
thing that agreement leaves open.
-/

set_option autoImplicit false

namespace ClosureLang

open Matching Rule

namespace Matching

/-- What a forward finds out before its result is remembered. -/
def settle (body : Matching (Option Match)) (fuel : Nat) (place : Place) :
    Matching (Option Match) := do
  remember place (.pending false)
  let first ← body
  match first, ← remembered? place with
  | some seed, some (.pending true) => some <$> grow body place fuel seed
  | first, _ => pure first

/-- Entering a forward settles on a result, remembers it and answers with it. -/
theorem enter_eq (body : Matching (Option Match)) (fuel : Nat) (place : Place) :
    enter body fuel place = do
      let result ← settle body fuel place
      remember place (.resolved result)
      return result := by
  unfold enter settle
  simp only [bind_assoc]
  refine bind_congr fun _ => bind_congr fun first => bind_congr fun memo => ?_
  cases first with
  | none => rfl
  | some seed => rcases memo with _ | ((_ | _) | _) <;> rfl

end Matching

section

variable {precedence : Precedence} {definitions : Definitions} {tokens : Array Token} {fuel : Nat}
  {place : Place} {body : Matching (Option Match)}

/-- In a clean state the computation agrees with the readers of the place, and leaves everything
after the place clean. -/
def Settles (precedence : Precedence) (tokens : Array Token) (place : Place)
    (x : Matching (Option Match)) : Prop :=
  ∀ depth, place.depth tokens.size ≤ depth → ∀ s : Progress,
    s.Clean precedence tokens place.order → s.memo.find? place = none →
    x.Agrees s (Descent.reader precedence place.id depth tokens place.position) fun m r s' =>
      Match.Shows .node (place.position + 1) tokens.size m r ∧
        s'.Clean precedence tokens (place.order + 1) ∧ Progress.Keeps place.order s s'

/-- Expressions and statements are at different places. -/
theorem Place.eq_of_order {other : Place} (known : place.id ≤ 1) (known' : other.id ≤ 1)
    (same : other.order = place.order) : other = place := by
  cases place
  cases other
  unfold order at same
  simp only at *
  split at same <;> split at same <;> simp only [Place.mk.injEq] <;> omega

/-- What a forward settles on is remembered, and it is justified. -/
theorem Settles.enter (h : Settles precedence tokens place (settle body fuel place))
    (known : place.id ≤ 1) {depth : Nat} (enough : place.depth tokens.size ≤ depth) {s : Progress}
    (clean : s.Clean precedence tokens place.order) (absent : s.memo.find? place = none) :
    (Matching.enter body fuel place).Agrees s
      (Descent.reader precedence place.id depth tokens place.position) fun m r s' =>
        Match.Shows .node (place.position + 1) tokens.size m r ∧
          s'.Clean precedence tokens place.order ∧ Progress.Keeps place.order s s' := by
  rw [enter_eq]
  cases run : settle body fuel place s with
  | error halt s₁ => exact (h depth enough s clean absent).bind_of_error run
  | ok m s₁ =>
    obtain ⟨r, result, furthest, shown, clean₁, keeps₁⟩ := (h depth enough s clean absent).ok run
    have justified : Justified precedence tokens place m s₁.furthest := by
      intro depth' enough'
      obtain ⟨r', result', furthest', shown', -⟩ := (h depth' enough' s clean absent).ok run
      exact ⟨furthest' ▸ Nat.le_max_right .., r', result', shown'⟩
    have apart : ∀ {other : Place}, other ≠ place →
        (s₁.memo.insert place (.resolved m)).find? other = s₁.memo.find? other :=
      fun apart => s₁.memo.find?_insert_of_ne _ apart
    refine .of_ok (bind_run_of_ok run) result furthest ⟨shown, ?_, ?_⟩
    · intro other memo known' after found
      by_cases same : other = place
      · subst same
        rw [MemoTable.find?_insert_self] at found
        exact ⟨m, (Option.some.inj found).symm, justified⟩
      · rw [apart same] at found
        have later : place.order ≠ other.order :=
          fun equal => same (Place.eq_of_order known known' equal.symm)
        exact clean₁ other memo known' (by omega) found
    · intro other before
      have ne : other ≠ place := fun same => absurd before (same ▸ Nat.lt_irrefl _)
      rw [apart ne]
      exact keeps₁ other before

/-- A forward whose body settles follows its readers. -/
theorem forward_follows {target : Forward} {rule : Rule} {pos : Nat} (known : target.id ≤ 1)
    (defined : definitions target = some rule)
    (h : Settles precedence tokens ⟨target.id, pos⟩
      (settle (rule.match? definitions tokens fuel pos) fuel ⟨target.id, pos⟩)) {depth : Nat}
    (enough : Place.depth tokens.size ⟨target.id, pos⟩ ≤ depth) :
    FollowsFrom precedence tokens (Place.order ⟨target.id, pos⟩)
      (forward definitions (match? definitions tokens fuel) fuel target pos)
      (Descent.reader precedence target.id depth tokens pos)
      (Match.Shows .node (pos + 1) tokens.size) := by
  intro s clean
  cases found : s.memo.find? ⟨target.id, pos⟩ with
  | none =>
    have entered := h.enter known enough clean found
    unfold Agrees at *
    rwa [forward_of_absent found defined]
  | some memo =>
    obtain ⟨result, rfl, justified⟩ := clean _ memo known (Nat.le_refl _) found
    obtain ⟨reach, r, same, shown⟩ := justified depth enough
    exact .of_ok (forward_of_resolved found) same (Nat.max_eq_left reach).symm
      ⟨shown, clean, .of_memo_eq rfl⟩

end

/-! ## What statements and expressions settle on -/

section

variable {precedence : Precedence} {tokens : Array Token} {bound fuel pos : Nat}
  {e st : Descent Node} {s : Progress}

/-- Looking up what is remembered changes nothing. -/
theorem remembered?_run {place : Place} {memo : Option Memo} (found : s.memo.find? place = memo) :
    remembered? place s = .ok memo s :=
  congrArg (EStateM.Result.ok · s) found

/-- Remembering something for a place concerns nothing before or after it. -/
theorem remember_run {k : Nat} (place : Place) (memo : Memo) (before : place.order < k)
    (clean : s.Clean precedence tokens k) : ∃ s₁, remember place memo s = .ok () s₁ ∧
      s₁.furthest = s.furthest ∧ s₁.memo.find? place = some memo ∧
        s₁.Clean precedence tokens k ∧ Progress.Keeps place.order s s₁ := by
  refine ⟨_, rfl, rfl, s.memo.find?_insert_self .., ?_, ?_⟩
  · intro other memo' known after found
    have apart : other ≠ place := fun same => absurd before (same ▸ Nat.not_lt.mpr after)
    rw [s.memo.find?_insert_of_ne _ apart] at found
    exact clean other memo' known after found
  · intro other sooner
    exact .inl (s.memo.find?_insert_of_ne _ fun same => absurd sooner (same ▸ Nat.lt_irrefl _))

/-- A statement that is tried for the first time settles on what its body gives. -/
theorem statement_settles {rule : Rule} {definitions : Definitions} {p : Descent Node}
    (reads : Reads precedence definitions tokens bound (2 * pos + 1) pos rule p .node (pos + 1))
    (lt : fuel < bound) (clean : s.Clean precedence tokens (2 * pos)) :
    (settle (rule.match? definitions tokens fuel pos) fuel ⟨1, pos⟩).Agrees s (p tokens pos)
      fun m r s' => Match.Shows .node (pos + 1) tokens.size m r ∧
        s'.Clean precedence tokens (2 * pos + 1) ∧ Progress.Keeps (2 * pos) s s' := by
  obtain ⟨s₁, run₁, furthest₁, pending₁, clean₁, keeps₁⟩ :=
    remember_run ⟨1, pos⟩ (.pending false) (Nat.lt_succ_self _)
      (clean.further (Nat.le_succ _))
  have alone : p tokens pos = p tokens pos >>= pure := (bind_pure _).symm
  unfold settle
  rw [alone]
  refine .bind_left run₁ furthest₁ (Agrees.bind ((reads fuel lt s₁ clean₁).mono ?_))
  rintro m r s₂ - - ⟨shown, clean₂, keeps₂⟩
  have pending₂ := (keeps₂.find?_eq ⟨1, pos⟩ (Nat.lt_succ_self _) (.inr ⟨false, pending₁⟩)).trans
    pending₁
  refine .bind_left (remembered?_run pending₂) rfl ?_
  have kept := keeps₁.trans (keeps₂.sooner (Nat.le_succ _))
  cases m <;> exact agrees_pure ⟨shown, clean₂, kept⟩

/-- An expression that is tried for the first time settles on a lambda, or on an operand with all
its suffixes. -/
theorem expression_settles
    (each : ReadsFrom precedence (Grammar.definitions precedence) tokens bound (2 * pos + 2)
      (pos + 1) Grammar.expression e .node)
    (eachStatement : ReadsFrom precedence (Grammar.definitions precedence) tokens bound
      (2 * pos + 2) (pos + 1) Grammar.statement st .node)
    (lt : fuel < bound) (clean : s.Clean precedence tokens (2 * pos + 1)) :
    (settle ((Grammar.expressionBody precedence).match? (Grammar.definitions precedence) tokens
      fuel pos) fuel ⟨0, pos⟩).Agrees s (Descent.expressionWith precedence e st tokens pos)
      fun m r s' => Match.Shows .node (pos + 1) tokens.size m r ∧
        s'.Clean precedence tokens (2 * pos + 2) ∧ Progress.Keeps (2 * pos + 1) s s' := by
  obtain ⟨s₁, run₁, furthest₁, pending₁, clean₁, keeps₁⟩ :=
    remember_run ⟨0, pos⟩ (.pending false) (Nat.lt_succ_self _)
      (clean.further (Nat.le_succ _))
  unfold settle
  refine .bind_left run₁ furthest₁ ?_
  cases fuel with
  | zero => exact agrees_outOfFuel
  | succ fuel =>
    have less := Nat.lt_of_succ_lt lt
    change (Matching.alternation (match? (Grammar.definitions precedence) tokens fuel)
      (Grammar.lambdas ++ (Grammar.suffixed precedence ++ Grammar.operands)) pos >>= _).Agrees
        s₁ _ _
    rw [alternation_append, bind_assoc, Descent.expressionWith, Descent.orElse_run]
    refine Agrees.bind ((readsFirst_lambdas each eachStatement fuel less s₁ clean₁).mono ?_)
    rintro m r s₂ noLambda furthest₂ ⟨shown, clean₂, keeps₂⟩
    have pending₂ := (keeps₂.find?_eq ⟨0, pos⟩ (Nat.lt_succ_self _) (.inr ⟨false, pending₁⟩)).trans
      pending₁
    have kept₂ := keeps₁.trans (keeps₂.sooner (Nat.le_succ _))
    cases shown with
    | found a stop above below =>
      -- a lambda
      rw [orMatch, pure_bind]
      refine .bind_left (remembered?_run pending₂) rfl ?_
      exact agrees_pure ⟨.found a stop above below, clean₂, kept₂⟩
    | nothing =>
      change ((Matching.alternation (match? (Grammar.definitions precedence) tokens fuel)
        (Grammar.suffixed precedence ++ Grammar.operands) pos) >>= _).Agrees s₂ _ _
      rw [alternation_append, bind_assoc]
      -- what starts with an expression marks it
      rcases suffixed_stuck fuel pending₂ with starves | ⟨s₃, run₃, furthest₃, marks⟩
      · exact starves.bind.agrees
      have clean₃ := clean₂.of_find?_eq (Nat.lt_succ_self _) marks.2 (Nat.le_of_eq furthest₃.symm)
      have kept₃ := kept₂.trans (.of_find?_eq marks.2)
      refine .bind_left run₃ furthest₃ ?_
      change (Matching.alternation (match? (Grammar.definitions precedence) tokens fuel)
        Grammar.operands pos >>= _).Agrees s₃ ((Descent.here >>= _) tokens pos) _
      rw [Descent.here_bind_run, Descent.bind_run]
      refine Agrees.bind ((readsFirst_operands each fuel less s₃ clean₃).mono ?_)
      rintro m r s₄ operand furthest₄ ⟨shown, clean₄, keeps₄⟩
      have marked := (keeps₄.find?_eq ⟨0, pos⟩ (Nat.lt_succ_self _) (.inr ⟨true, marks.1⟩)).trans
        marks.1
      have kept₄ := kept₃.trans (keeps₄.sooner (Nat.le_succ _))
      refine .bind_left (remembered?_run marked) rfl ?_
      cases shown with
      | nothing => exact agrees_pure ⟨.nothing, clean₄, kept₄⟩
      | found node stop above below =>
        have enough : tokens.size < tokens.size + 1 - stop + stop := by omega
        have reach : (Descent.lambda e st tokens pos).reach ≤ s₄.furthest := by
          rw [furthest₄, furthest₃, furthest₂]
          exact Nat.le_trans (Nat.le_max_right ..) (Nat.le_max_left ..)
        change (some <$> grow _ _ _ _ : Matching _).Agrees s₄
          (Descent.proceed (Descent.suffix precedence e pos) (tokens.size + 1 - stop) node tokens
            stop) _
        rw [map_eq_pure_bind, ← bind_pure (Descent.proceed _ _ _ _ _)]
        refine Agrees.bind ((grow_agrees each eachStatement noLambda operand lt (Nat.le_refl stop)
          above below enough clean₄ reach (furthest₄ ▸ Nat.le_max_right ..)).mono ?_)
        rintro m r s' - - ⟨shown, clean', keeps'⟩
        exact agrees_pure ⟨shown, clean', kept₄.trans keeps'⟩

end

/-! ## Following for any fuel -/

section

variable {precedence : Precedence} {tokens : Array Token} {bound pos depth : Nat}

/-- With fuel below a bound, expressions and statements follow their readers at all positions, where
the readers are deep enough. -/
def Grammar.Follows (precedence : Precedence) (tokens : Array Token) (bound : Nat) : Prop :=
  ∀ target : Forward, target.builder = 0 → target.id ≤ 1 → ∀ pos ≤ tokens.size, ∀ depth,
    Place.depth tokens.size ⟨target.id, pos⟩ ≤ depth →
      Reads precedence (Grammar.definitions precedence) tokens bound
        (Place.order ⟨target.id, pos⟩) pos (.forward target)
        (Descent.reader precedence target.id depth) .node (pos + 1)

/-- The expressions from a position on, for something at an earlier place. -/
theorem Grammar.Follows.expressions {k : Nat} (h : Grammar.Follows precedence tokens bound)
    (earlier : k ≤ 2 * pos + 1) (enough : 2 * (tokens.size + 1 - pos) ≤ depth + 1) :
    ReadsFrom precedence (Grammar.definitions precedence) tokens bound k pos Grammar.expression
      (Descent.expression precedence depth) .node := by
  intro later above inside fuel lt
  have deep : Place.depth tokens.size ⟨0, later⟩ ≤ depth := by
    change 2 * (tokens.size - later) + 1 ≤ depth
    omega
  refine (h ⟨0, 0⟩ rfl (Nat.zero_le 1) later inside depth deep fuel lt).sooner ?_
  change k ≤ 2 * later + 1
  omega

/-- The statements from a position on, for something at an earlier place. -/
theorem Grammar.Follows.statements {k : Nat} (h : Grammar.Follows precedence tokens bound)
    (earlier : k ≤ 2 * pos) (enough : 2 * (tokens.size + 1 - pos) ≤ depth) :
    ReadsFrom precedence (Grammar.definitions precedence) tokens bound k pos Grammar.statement
      (Descent.statement precedence depth) .node := by
  intro later above inside fuel lt
  have deep : Place.depth tokens.size ⟨1, later⟩ ≤ depth := by
    change 2 * (tokens.size - later) + 2 ≤ depth
    omega
  refine (h ⟨0, 1⟩ rfl (Nat.le_refl 1) later inside depth deep fuel lt).sooner ?_
  change k ≤ 2 * later + 0
  omega

/-- What an expression settles on is what is read, at every depth that is enough. -/
theorem Grammar.Follows.expression_settled {fuel : Nat}
    (h : Grammar.Follows precedence tokens bound) (lt : fuel < bound) :
    Settles precedence tokens ⟨0, pos⟩
      (settle ((Grammar.expressionBody precedence).match? (Grammar.definitions precedence) tokens
        fuel pos) fuel ⟨0, pos⟩) := by
  intro depth enough s clean _
  change 2 * (tokens.size - pos) + 1 ≤ depth at enough
  cases depth with
  | zero => omega
  | succ depth =>
    exact expression_settles (h.expressions (by omega) (by omega))
      (h.statements (by omega) (by omega)) lt clean

/-- What a statement settles on is what is read, at every depth that is enough. -/
theorem Grammar.Follows.statement_settled {fuel : Nat}
    (h : Grammar.Follows precedence tokens bound) (lt : fuel < bound) (inside : pos ≤ tokens.size) :
    Settles precedence tokens ⟨1, pos⟩
      (settle ((Grammar.statementRule Grammar.expression Grammar.statement).match?
        (Grammar.definitions precedence) tokens fuel pos) fuel ⟨1, pos⟩) := by
  intro depth enough s clean _
  change 2 * (tokens.size - pos) + 2 ≤ depth at enough
  cases depth with
  | zero => omega
  | succ depth =>
    exact statement_settles (reads_statementRule inside (h.expressions (by omega) (by omega))
      (h.statements (by omega) (by omega))) lt clean

/-- Expressions and statements follow their readers with any fuel. The induction is on the bound on
the fuel: a forward tries its body with less. -/
theorem Grammar.follows (precedence : Precedence) (tokens : Array Token) :
    ∀ bound, Grammar.Follows precedence tokens bound
  | 0 => fun _ _ _ _ _ _ _ _ none => absurd none (Nat.not_lt_zero _)
  | bound + 1 => by
    intro target own known pos inside depth enough fuel lt
    have h := Grammar.follows precedence tokens bound
    cases fuel with
    | zero => exact .outOfFuel
    | succ fuel =>
      have less : fuel < bound := Nat.lt_of_succ_lt_succ lt
      obtain ⟨builder, id⟩ := target
      obtain rfl : builder = 0 := own
      match id, known with
      | 0, _ => exact forward_follows (Nat.zero_le 1) rfl (h.expression_settled less) enough
      | 1, _ => exact forward_follows (Nat.le_refl 1) rfl (h.statement_settled less inside) enough

end

end ClosureLang
