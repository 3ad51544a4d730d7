import ClosureLang.Proofs.Rule.Congruence
import ClosureLang.Rule.Builder

/-!
# More fuel

More fuel never changes an answer: a computation goes on as before with more fuel, wherever it did
not run out of fuel before. Every way of putting matchings together respects that.
-/

set_option autoImplicit false

namespace ClosureLang

namespace Matching

variable {α β : Type}

/-- The computation runs out of fuel. -/
def Starves (x : Matching α) (s : Progress) : Prop := ∃ s', x s = .error .outOfFuel s'

/-- If the first part runs out of fuel, the composition does. -/
theorem Starves.bind {x : Matching α} {f : α → Matching β} {s : Progress} (h : x.Starves s) :
    (x >>= f).Starves s := by
  obtain ⟨s', starved⟩ := h
  exact ⟨s', bind_run_of_error starved⟩

/-- If the rest runs out of fuel, the composition does. -/
theorem Starves.bind_of_ok {x : Matching α} {f : α → Matching β} {a : α} {s s₁ : Progress}
    (run : x s = .ok a s₁) (h : (f a).Starves s₁) : (x >>= f).Starves s := by
  obtain ⟨s', starved⟩ := h
  exact ⟨s', (bind_run_of_ok run).trans starved⟩

/-- If a computation runs out of fuel, a function of its answer does. -/
theorem Starves.map {x : Matching α} {f : α → β} {s : Progress} (h : x.Starves s) :
    (f <$> x).Starves s := by
  rw [map_eq_pure_bind]
  exact h.bind

/-- Where the first computation does not run out of fuel, the second does the same. -/
def Refines (x y : Matching α) : Prop :=
  ∀ s, x.Starves s ∨ y s = x s

namespace Refines

/-- A computation refines itself. -/
theorem refl (x : Matching α) : x.Refines x := fun _ => .inr rfl

/-- Whatever is done with more fuel refines running out of it. -/
theorem outOfFuel (x : Matching α) : Refines (throw .outOfFuel) x := fun s => .inl ⟨s, rfl⟩

/-- A composition refines another one if its parts do. -/
theorem bind {x y : Matching α} {f g : α → Matching β} (h : x.Refines y)
    (later : ∀ a, (f a).Refines (g a)) : (x >>= f).Refines (y >>= g) := by
  intro s
  rcases h s with starves | same
  · exact .inl starves.bind
  · cases run : x s with
    | ok a s₁ =>
      refine (later a s₁).imp (Starves.bind_of_ok run) fun same₁ => ?_
      rw [bind_run_of_ok run, bind_run_of_ok (same.trans run), same₁]
    | error halt s₁ =>
      exact .inr ((bind_run_of_error (same.trans run)).trans (bind_run_of_error run).symm)

/-- Matching with more fuel goes on as before, step by step. -/
theorem congruence : Congruence @Refines where
  outOfFuel x := outOfFuel x
  unresolved _ := refl _
  pure _ := refl _
  bind := bind
  remembered? _ := refl _
  remember _ _ := refl _
  plant _ _ := refl _

end Refines

end Matching

/-- With more fuel a rule does the same, unless it ran out of fuel. -/
theorem Rule.match?_refines (definitions : Definitions) (tokens : Array Token) {fuel fuel' : Nat}
    (le : fuel ≤ fuel') (rule : Rule) (pos : Nat) :
    (rule.match? definitions tokens fuel pos).Refines (rule.match? definitions tokens fuel' pos) :=
  Matching.Refines.congruence.match? (fun _ _ => .refl _) (fun _ _ _ => .refl _) le rule pos

/-- With any fuel a rule runs out of it or gives the one answer there is. -/
theorem Rule.match?_starves_or_eq {definitions : Definitions} {tokens : Array Token} {enough : Nat}
    {rule : Rule} {pos : Nat} {s s₁ : Progress} {found : Option Match}
    (run : rule.match? definitions tokens enough pos s = .ok found s₁) (fuel : Nat) :
    (rule.match? definitions tokens fuel pos).Starves s ∨
      rule.match? definitions tokens fuel pos s = .ok found s₁ := by
  rcases Nat.le_total fuel enough with le | le
  · rcases match?_refines definitions tokens le rule pos s with starves | same
    · exact .inl starves
    · exact .inr (same.symm.trans run)
  · rcases match?_refines definitions tokens le rule pos s with ⟨s', starved⟩ | same
    · rw [run] at starved
      cases starved
    · exact .inr (same.trans run)

/-- Reading that does not run out of fuel has the same outcome with more of it. -/
theorem readAll_of_le {definitions : Definitions} {fuel fuel' : Nat} {root : Rule}
    {tokens : List Token} (le : fuel ≤ fuel')
    (ends : readAll definitions fuel root tokens ≠ .error .outOfFuel) :
    readAll definitions fuel' root tokens = readAll definitions fuel root tokens := by
  unfold readAll at *
  rcases Rule.match?_refines definitions tokens.toArray le root 0 .start with ⟨s', starved⟩ | same
  · rw [starved] at ends
    exact absurd rfl ends
  · rw [same]

end ClosureLang
