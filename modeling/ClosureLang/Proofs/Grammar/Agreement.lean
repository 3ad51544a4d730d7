import ClosureLang.Proofs.Grammar.Descent
import ClosureLang.Proofs.Rule.Congruence

/-!
# Agreement of matching and reading

A matching agrees with an attempt at reading the same if, unless it runs out of fuel, both fail with
the same error, or both answer alike and look equally far. The parts of a grammar are compared one
by one, and put together as the rules are.

A matching goes from one progress to another, and an attempt has a reach of its own that begins at
zero. To look equally far means that the furthest position afterwards is the maximum of the furthest
position before and the reach of the attempt. This makes agreement go through composition, where
reaches are joined by maximum as well (`Agrees.bind`), and it is why a step of the matching that
looks at nothing has no counterpart (`Agrees.bind_left`).

How the answers are related, and what is known of the progress, is a postcondition. It gets both
answers and the progress after, so it can say that a value stands for a tree and that what is
remembered is still in order.
-/

set_option autoImplicit false

namespace ClosureLang

namespace Attempt

variable {α β : Type}

@[simp] theorem reach_pure (a : α) : (pure a : Attempt α).reach = 0 := rfl

@[simp] theorem result_pure (a : α) : (pure a : Attempt α).result = .ok a := rfl

/-- After a part that was read, the rest goes on, and the reach is the greater of the two. -/
theorem bind_of_ok {x : Attempt α} {f : α → Attempt β} {a : α} (h : x.result = .ok a) :
    x >>= f = ⟨(f a).result, max x.reach (f a).reach⟩ := by
  obtain ⟨result, reach⟩ := x
  obtain rfl : result = .ok a := h
  rfl

/-- After a failure nothing is looked at any more. -/
theorem bind_of_error {x : Attempt α} {f : α → Attempt β} {e : ParseError}
    (h : x.result = .error e) : x >>= f = ⟨.error e, x.reach⟩ := by
  obtain ⟨result, reach⟩ := x
  obtain rfl : result = .error e := h
  rfl

instance : LawfulMonad Attempt := LawfulMonad.mk' Attempt
  (by
    rintro α ⟨_ | a, reach⟩
    · rfl
    · exact congrArg (Attempt.mk _) (Nat.max_zero reach))
  (fun a f => by rw [bind_of_ok (result_pure a), reach_pure, Nat.zero_max])
  (by
    rintro α β γ ⟨_ | a, reach⟩ f g
    · rfl
    · change (⟨(f a).result, max reach (f a).reach⟩ : Attempt β) >>= g =
        ⟨(f a >>= g).result, max reach (f a >>= g).reach⟩
      rcases f a with ⟨_ | b, further⟩
      · rfl
      · exact congrArg (Attempt.mk _) (Nat.max_assoc ..))

end Attempt

namespace Matching

variable {α β γ δ : Type}

/-- Unless it runs out of fuel, the computation fails as the attempt does, or both look equally far
and their answers satisfy the postcondition. -/
def Agrees (x : Matching α) (s : Progress) (a : Attempt β) (post : α → β → Progress → Prop) :
    Prop :=
  match x s with
  | .ok v s' => ∃ w, a.result = .ok w ∧ s'.furthest = max s.furthest a.reach ∧ post v w s'
  | .error (.failed e) _ => a.result = .error e
  | .error .outOfFuel _ => True

section

variable {x : Matching α} {s s' : Progress} {a : Attempt β} {post post' : α → β → Progress → Prop}

/-- A run that answers agrees with an attempt that answers alike and looks as far. -/
theorem Agrees.of_ok {v : α} {w : β} (run : x s = .ok v s') (result : a.result = .ok w)
    (furthest : s'.furthest = max s.furthest a.reach) (h : post v w s') : x.Agrees s a post := by
  unfold Agrees
  rw [run]
  exact ⟨w, result, furthest, h⟩

/-- What agreement says of a run that answers. -/
theorem Agrees.ok {v : α} (h : x.Agrees s a post) (run : x s = .ok v s') :
    ∃ w, a.result = .ok w ∧ s'.furthest = max s.furthest a.reach ∧ post v w s' := by
  unfold Agrees at h
  rwa [run] at h

/-- What agreement says of a run that fails. -/
theorem Agrees.failed {e : ParseError} (h : x.Agrees s a post) (run : x s = .error (.failed e) s') :
    a.result = .error e := by
  unfold Agrees at h
  rwa [run] at h

/-- A run that fails agrees with an attempt that fails with the same error. -/
theorem Agrees.of_failed {e : ParseError} (run : x s = .error (.failed e) s')
    (result : a.result = .error e) : x.Agrees s a post := by
  unfold Agrees
  rwa [run]

/-- A run that is out of fuel agrees with any attempt. -/
theorem Agrees.of_outOfFuel (run : x s = .error .outOfFuel s') : x.Agrees s a post := by
  unfold Agrees
  rw [run]
  trivial

/-- A failure stays one, whatever would have been next. -/
theorem Agrees.bind_of_error {f : α → Matching γ} {halt : Halt}
    {post' : γ → β → Progress → Prop} (h : x.Agrees s a post) (run : x s = .error halt s') :
    (x >>= f).Agrees s a post' := by
  cases halt with
  | failed e => exact .of_failed (bind_run_of_error run) (h.failed run)
  | outOfFuel => exact .of_outOfFuel (bind_run_of_error run)

/-- A weaker postcondition is met, too; what agreement says of the two ends may be used for it. -/
theorem Agrees.mono (h : x.Agrees s a post)
    (weaker : ∀ v w s', a.result = .ok w → s'.furthest = max s.furthest a.reach →
      post v w s' → post' v w s') : x.Agrees s a post' := by
  unfold Agrees at *
  split at h
  · obtain ⟨w, result, furthest, h⟩ := h
    exact ⟨w, result, furthest, weaker _ w _ result furthest h⟩
  · exact h
  · trivial

/-- Agreement goes through composition: the rest has to agree from what the first parts came to. -/
theorem Agrees.bind {f : α → Matching γ} {g : β → Attempt δ} {post : γ → δ → Progress → Prop}
    (h : x.Agrees s a fun v w s' => (f v).Agrees s' (g w) post) :
    (x >>= f).Agrees s (a >>= g) post := by
  cases run : x s with
  | error halt s₁ =>
    cases halt with
    | outOfFuel => exact .of_outOfFuel (bind_run_of_error run)
    | failed e =>
      refine .of_failed (bind_run_of_error run) ?_
      rw [Attempt.bind_of_error (h.failed run)]
  | ok v s₁ =>
    obtain ⟨w, result, furthest, next⟩ := h.ok run
    have whole := bind_run_of_ok (f := f) run
    rw [Attempt.bind_of_ok result]
    cases later : f v s₁ with
    | error halt s₂ =>
      rw [later] at whole
      cases halt with
      | outOfFuel => exact .of_outOfFuel whole
      | failed e => exact .of_failed whole (next.failed later)
    | ok v' s₂ =>
      rw [later] at whole
      obtain ⟨w', result', furthest', done⟩ := next.ok later
      refine .of_ok whole result' ?_ done
      rw [furthest', furthest, Nat.max_assoc]

/-- A step of the computation alone. -/
theorem Agrees.bind_left {f : α → Matching γ} {post : γ → β → Progress → Prop} {v : α}
    {s₁ : Progress} (run : x s = .ok v s₁) (same : s₁.furthest = s.furthest)
    (h : (f v).Agrees s₁ a post) : (x >>= f).Agrees s a post := by
  have step : x.Agrees s (pure ()) fun v _ s₁ => (f v).Agrees s₁ a post :=
    .of_ok run rfl (by rw [same, Attempt.reach_pure, Nat.max_zero]) h
  have both := Agrees.bind (g := fun _ => a) step
  rwa [pure_bind] at both

/-- Answers that satisfy the postcondition agree, as neither side looks at a token. -/
theorem agrees_pure {v : α} {w : β} (h : post v w s) :
    (pure v : Matching α).Agrees s (pure w) post :=
  .of_ok rfl rfl (by simp) h

theorem agrees_outOfFuel : (throw .outOfFuel : Matching α).Agrees s a post := trivial

end

end Matching

end ClosureLang
