import ClosureLang.Proofs.Rule.Congruence
import ClosureLang.Proofs.Rule.Plain

/-!
# What holds of every rule

What goes through from one step of matching to the next need only be shown for terminals, actions
and forwards, and for these only if it holds of what the forwards stand for. Sequences, alternatives
and repetitions have it then, to whatever depth they are put together.
-/

set_option autoImplicit false

namespace ClosureLang

namespace Matching

/-- A property of computations that goes through: a relation that says nothing of the second one. -/
def Closed (P : ∀ {α : Type}, Matching α → Prop) : Prop := Compositional fun {_} x _ => P x

end Matching

section

variable {P : ∀ {α : Type}, Matching α → Prop} {definitions : Definitions} {tokens : Array Token}
  (named : Forward → Prop)

/-- Every rule that keeps to the `named` forwards has a property that goes through, if terminals and
actions have it, and these forwards have it whenever such rules do. -/
theorem Rule.match?_satisfies (closed : Matching.Closed P)
    (terminals : ∀ kind pos, P (Matching.terminal tokens kind pos))
    (actions : ∀ found action pos, P (Matching.map tokens found action pos))
    (forwards : ∀ fuel target, named target →
      (∀ rule : Rule, (∀ other ∈ rule.forwards, named other) →
        ∀ pos, P (rule.match? definitions tokens fuel pos)) →
      ∀ pos, P (Matching.forward definitions (Rule.match? definitions tokens fuel) fuel target pos))
    (fuel : Nat) (rule : Rule) (all : ∀ target ∈ rule.forwards, named target) (pos : Nat) :
    P (rule.match? definitions tokens fuel pos) := by
  induction fuel generalizing rule pos with
  | zero => exact closed.outOfFuel (throw .outOfFuel)
  | succ fuel ih =>
    let attempt := Rule.match? definitions tokens fuel
    have inside {rules : List Rule} (all : ∀ target ∈ allForwards rules, named target) (rule : Rule)
        (mem : rule ∈ rules) (pos : Nat) : P (attempt rule pos) :=
      ih rule (fun target here => all target (forwards_subset mem here)) pos
    cases rule with
    | terminal kind => exact terminals kind pos
    | sequence rules =>
      exact @Matching.Compositional.sequence _ closed attempt attempt rules (inside all) [] pos
    | alternation rules =>
      exact @Matching.Compositional.alternation _ closed attempt attempt rules (inside all) pos
    | repetition rule least most =>
      exact @Matching.Compositional.repetition _ closed (attempt rule) (attempt rule) (ih rule all)
        fuel fuel (Nat.le_refl fuel) least most pos
    | map rule action =>
      exact @Matching.Compositional.bind _ closed _ _ (attempt rule pos) (attempt rule pos) _
        (fun found => Matching.map tokens found action pos) (ih rule all pos)
        fun found => actions found action pos
    | forward target => exact forwards fuel target (all target List.mem_cons_self) ih pos

end

end ClosureLang
