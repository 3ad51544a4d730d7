import ClosureLang.Proofs.Rule.Bounds
import ClosureLang.Proofs.Rule.Fuel

/-!
# How far reading looks

The furthest position is what a failure is reported with. It covers every look at a token: where an
answer comes about without looking beyond `p`, any token list that has the same tokens up to `p`
gives the same answer, by the same steps and with the same results remembered. So a token list that
cannot be read is decided by its tokens up to the reported one, and nothing after that token can be
changed to make it readable.

The relation `Reproduces` is about a computation on the one list and the same computation on the
other. It says that the first one only moves the furthest position forward, and that where it
answers with the furthest position at most `p`, the second one gives the same answer with the same
progress. What is remembered causes no gap: a result that is found was remembered by a computation
that had looked as far as was needed, and the furthest position never goes back.

A failure for want of a match is reported at the root only, after everything was tried, with the
furthest position. So all of the run before it looked no further than the reported token.
-/

set_option autoImplicit false

namespace ClosureLang

namespace Matching

variable {α : Type}

/-- The first computation goes on from the furthest position and does not fail for lack of a match.
Where it answers without looking beyond `p`, the second one does the same. -/
structure Reproduces (p : Nat) (x x' : Matching α) : Prop where
  ok {a : α} {s s' : Progress} : x s = .ok a s' →
    s.furthest ≤ s'.furthest ∧ (s'.furthest ≤ p → x' s = .ok a s')
  not_unexpected {position : Nat} {found : Option TokenKind} {span : Option Span}
    {s s' : Progress} : x s ≠ .error (.failed (.unexpected position found span)) s'

namespace Reproduces

variable {p : Nat} {x x' : Matching α}

/-- Steps that answer, go on from the furthest position and do the same on both sides reproduce one
another. -/
theorem of_ok (h : ∀ s, ∃ a s', x s = .ok a s' ∧ s.furthest ≤ s'.furthest ∧
    (s'.furthest ≤ p → x' s = .ok a s')) : Reproduces p x x' where
  ok {a s s'} run := by
    obtain ⟨b, s₁, run₁, later⟩ := h s
    rw [run₁] at run
    cases run
    exact later
  not_unexpected {_ _ _ s _} run := by
    obtain ⟨b, s₁, run₁, -⟩ := h s
    rw [run₁] at run
    cases run

/-- A step that looks at no token. -/
theorem step (h : ∀ s, ∃ a s', x s = .ok a s' ∧ s'.furthest = s.furthest) : Reproduces p x x := by
  refine of_ok fun s => ?_
  obtain ⟨a, s', run, same⟩ := h s
  exact ⟨a, s', run, Nat.le_of_eq same.symm, fun _ => run⟩

/-- A failure for another reason than the lack of a match. -/
theorem of_throw {halt : Halt}
    (other : ∀ position found span, halt ≠ .failed (.unexpected position found span)) :
    Reproduces p (throw halt) x' where
  ok run := by cases run
  not_unexpected run := by
    cases run
    exact other _ _ _ rfl

/-- Compositions reproduce one another if their parts do. -/
theorem bind {β : Type} {f f' : α → Matching β} (h : Reproduces p x x')
    (later : ∀ a, Reproduces p (f a) (f' a)) : Reproduces p (x >>= f) (x' >>= f') where
  ok {b s s'} run := by
    cases first : x s with
    | error halt s₁ =>
      rw [bind_run_of_error first] at run
      cases run
    | ok a s₁ =>
      rw [bind_run_of_ok first] at run
      obtain ⟨le, same⟩ := h.ok first
      obtain ⟨le', same'⟩ := (later a).ok run
      refine ⟨Nat.le_trans le le', fun near => ?_⟩
      rw [bind_run_of_ok (same (Nat.le_trans le' near))]
      exact same' near
  not_unexpected {_ _ _ s _} run := by
    cases first : x s with
    | error halt s₁ =>
      rw [bind_run_of_error first] at run
      cases run
      exact h.not_unexpected first
    | ok a s₁ =>
      rw [bind_run_of_ok first] at run
      exact (later a).not_unexpected run

/-- Reproducing is respected by single steps and goes through from one to the next. -/
theorem congruence (p : Nat) : Congruence fun {_} x x' => Reproduces p x x' where
  outOfFuel _ := of_throw fun _ _ _ same => by cases same
  unresolved _ := of_throw fun _ _ _ same => by cases same
  pure a := step fun s => ⟨a, s, rfl, rfl⟩
  bind := bind
  remembered? place := step fun s => ⟨_, s, rfl, rfl⟩
  remember place memo := step fun s => ⟨(), _, rfl, rfl⟩
  plant place seed := step fun s => ⟨(), _, rfl, rfl⟩

end Reproduces

end Matching

variable {definitions : Definitions} {fuel p : Nat}

/-- Rules do the same on token lists with the same tokens, as far as they look. -/
theorem Rule.match?_reproduces {tokens tokens' : Array Token}
    (agree : ∀ i ≤ p, tokens'[i]? = tokens[i]?) (rule : Rule) (pos : Nat) :
    Matching.Reproduces p (rule.match? definitions tokens fuel pos)
      (rule.match? definitions tokens' fuel pos) := by
  refine (Matching.Reproduces.congruence p).match? (fun kind pos => ?_) (fun found action pos => ?_)
    (Nat.le_refl fuel) rule pos
  · refine .of_ok fun s => ⟨_, _, rfl, Nat.le_max_left .., fun near => ?_⟩
    have same := agree pos (Nat.le_trans (Nat.le_max_right ..) near)
    change EStateM.Result.ok _ _ = _
    rw [same]
  · unfold Matching.map
    split
    · exact .step fun s => ⟨_, s, rfl, rfl⟩
    · split
      · exact .step fun s => ⟨_, s, rfl, rfl⟩
      · exact .of_throw fun _ _ _ same => by cases same

/-- A rule by itself does not fail for lack of a match. -/
theorem Rule.match?_ne_unexpected {tokens : Array Token} {rule : Rule} {pos : Nat} {s s' : Progress}
    {found : Option TokenKind} {span : Option Span} :
    rule.match? definitions tokens fuel pos s ≠ .error (.failed (.unexpected p found span)) s' :=
  have agree : ∀ i ≤ p, tokens[i]? = tokens[i]? := fun _ _ => rfl
  (match?_reproduces agree rule pos).not_unexpected

/-- Lists with the same token at a position report the same error there. -/
theorem unexpectedAt_congr {tokens tokens' : List Token} (same : tokens'[p]? = tokens[p]?) :
    unexpectedAt tokens'.toArray p = unexpectedAt tokens.toArray p := by
  simp only [unexpectedAt, spanAt?, List.getElem?_toArray, same]

section

variable {root : Rule} {tokens tokens' : List Token} {found : Option TokenKind} {span : Option Span}

/-- How reading fails for lack of a match: the root does not match, or it leaves tokens over. -/
theorem readAll_unexpected
    (fails : readAll definitions fuel root tokens = .error (.failed (.unexpected p found span))) :
    ∃ answer s, root.match? definitions tokens.toArray fuel 0 .start = .ok answer s ∧
      ParseError.unexpected p found span = unexpectedAt tokens.toArray p ∧
      (answer = none ∧ p = s.furthest ∨
        ∃ m, answer = some m ∧ m.stop < tokens.length ∧ p = max s.furthest m.stop) := by
  unfold readAll at fails
  cases run : root.match? definitions tokens.toArray fuel 0 .start with
  | error halt s =>
    rw [run] at fails
    cases fails
    exact absurd run Rule.match?_ne_unexpected
  | ok answer s =>
    rw [run] at fails
    refine ⟨answer, s, rfl, ?_⟩
    cases answer with
    | none =>
      cases fails
      exact ⟨rfl, .inl ⟨rfl, rfl⟩⟩
    | some m =>
      have stays := Rule.match?_stays definitions tokens.toArray fuel root
      obtain ⟨-, spans⟩ := stays 0 .start .empty _ _ run
      have inside := (spans m rfl).stop
      rw [List.size_toArray] at inside
      by_cases whole : m.stop = tokens.length
      · simp only [whole, if_true] at fails
        cases fails
      · simp only [whole, if_false] at fails
        cases fails
        exact ⟨rfl, .inr ⟨m, rfl, by omega, rfl⟩⟩

/-- The reported position is the end of the tokens, or that of a token. -/
theorem le_length_of_unexpected
    (fails : readAll definitions fuel root tokens = .error (.failed (.unexpected p found span))) :
    p ≤ tokens.length := by
  obtain ⟨answer, s, run, -, stopped⟩ := readAll_unexpected fails
  have stays := Rule.match?_stays definitions tokens.toArray fuel root
  obtain ⟨within, -⟩ := stays 0 .start .empty _ _ run
  have furthest := within.furthest
  rw [List.size_toArray] at furthest
  have start : Progress.start.furthest = 0 := rfl
  rcases stopped with ⟨-, rfl⟩ | ⟨m, -, inside, rfl⟩ <;> omega

/-- A token list with the same tokens up to the reported one fails in the same way, with the same
fuel. -/
theorem readAll_eq_of_agree
    (fails : readAll definitions fuel root tokens = .error (.failed (.unexpected p found span)))
    (agree : ∀ i ≤ p, tokens'[i]? = tokens[i]?) :
    readAll definitions fuel root tokens' = .error (.failed (.unexpected p found span)) := by
  obtain ⟨answer, s, run, here, stopped⟩ := readAll_unexpected fails
  have reproduces : Matching.Reproduces p (root.match? definitions tokens.toArray fuel 0)
      (root.match? definitions tokens'.toArray fuel 0) :=
    Rule.match?_reproduces (by simpa using agree) root 0
  have near : s.furthest ≤ p := by
    rcases stopped with ⟨-, rfl⟩ | ⟨m, -, -, rfl⟩ <;> omega
  unfold readAll
  rw [(reproduces.ok run).2 near, here, ← unexpectedAt_congr (agree p (Nat.le_refl p))]
  rcases stopped with ⟨rfl, rfl⟩ | ⟨m, rfl, inside, rfl⟩
  · rfl
  · have left : tokens'[m.stop]? = some tokens[m.stop] :=
      (agree m.stop (Nat.le_max_right ..)).trans (List.getElem?_eq_getElem inside)
    have left' : m.stop < tokens'.length := (List.getElem?_eq_some_iff.mp left).1
    simp only [Nat.ne_of_lt left', if_false]

/-- The fuel makes no difference, unless there is not enough of it. -/
theorem readAll_eq_of_agree_of_fuel {fuel' : Nat}
    (fails : readAll definitions fuel root tokens = .error (.failed (.unexpected p found span)))
    (agree : ∀ i ≤ p, tokens'[i]? = tokens[i]?)
    (enough : fuel ≤ fuel' ∨ readAll definitions fuel' root tokens' ≠ .error .outOfFuel) :
    readAll definitions fuel' root tokens' = .error (.failed (.unexpected p found span)) := by
  have same := readAll_eq_of_agree fails agree
  rcases Nat.le_total fuel fuel' with more | less
  · rw [readAll_of_le more (by rw [same]; simp), same]
  · rcases enough with more | ends
    · rw [Nat.le_antisymm less more, same]
    · rw [← readAll_of_le less ends, same]

end

end ClosureLang
