import ClosureLang.Proofs.Rule.Transparency

/-!
# Rules without forwards

A rule that names no forward is tried on the tokens alone: neither what forwards stand for, nor what
is being tried, nor what is remembered plays any part in it. Nothing but a lack of fuel cuts it
short, and of that it takes no more than for its own nesting and for the tokens, because only its
repetitions go on for longer.

This is shown of evaluation first and then carried over to matching. `Plain.Direct` says that an
evaluation does not come to a forward that is being tried; with enough fuel it is then settled
(`evaluate_settled_of_forwardless`), and its outcome is the same for all definitions
(`evaluate_congr`). Matching has the outcome of a settled evaluation, and leaves the remembered
results as they were, since there is no forward to remember anything of.
-/

set_option autoImplicit false

namespace ClosureLang

namespace Plain

variable {α β : Type}

/-! ## Computations that are not cut short by a forward -/

/-- The computation does not try a forward inside itself. -/
def Direct (r : Plain α) : Prop := r ≠ .error .reentered

namespace Direct

theorem ok (a : α) : Direct (.ok a) := nofun

theorem failed (e : ParseError) : Direct (.error (.failed e) : Plain α) := nofun

theorem outOfFuel : Direct (.error .outOfFuel : Plain α) := nofun

/-- A composition is not cut short by a forward if its parts are not. -/
theorem bind {r : Plain α} {f : α → Plain β} (h : r.Direct) (later : ∀ a, (f a).Direct) :
    Direct (r >>= f) := by
  cases r with
  | ok a => exact later a
  | error cause =>
    intro same
    cases same
    exact h rfl

/-- A sequence is not cut short by a forward if its rules are not. -/
theorem sequence {attempt : Rule → Nat → Plain (Option Match)} {rules : List Rule}
    (each : ∀ rule ∈ rules, ∀ pos, (attempt rule pos).Direct) (pos : Nat) :
    (sequence attempt rules pos).Direct := by
  induction rules generalizing pos with
  | nil => exact ok _
  | cons rule rules ih =>
    refine (each rule List.mem_cons_self pos).bind fun found => ?_
    cases found with
    | none => exact ok _
    | some m =>
      exact (ih (fun rule mem => each rule (List.mem_cons_of_mem _ mem)) m.stop).bind fun _ => ok _

/-- Alternatives are not cut short by a forward if none of them is. -/
theorem alternation {attempt : Rule → Nat → Plain (Option Match)} {rules : List Rule}
    (each : ∀ rule ∈ rules, ∀ pos, (attempt rule pos).Direct) (pos : Nat) :
    (alternation attempt rules pos).Direct := by
  induction rules with
  | nil => exact ok _
  | cons rule rules ih =>
    refine (each rule List.mem_cons_self pos).bind fun found => ?_
    cases found with
    | none => exact ih fun rule mem => each rule (List.mem_cons_of_mem _ mem)
    | some m => exact ok _

/-- A repetition is not cut short by a forward if its rule is not. -/
theorem rounds {attempt : Nat → Plain (Option Match)} (each : ∀ pos, (attempt pos).Direct)
    (fuel : Nat) (left : Option Nat) (pos : Nat) : (rounds attempt fuel left pos).Direct := by
  induction fuel generalizing left pos with
  | zero => exact outOfFuel
  | succ fuel ih =>
    unfold Plain.rounds
    split
    · exact ok _
    refine (each pos).bind fun found => ?_
    cases found with
    | none => exact ok _
    | some m =>
      simp only
      split
      · exact (ih _ m.stop).bind fun _ => ok _
      · exact ok _

end Direct

/-! ## The same attempts -/

section

variable {attempt attempt' : Rule → Nat → Plain (Option Match)} {rules : List Rule}
  (same : ∀ rule ∈ rules, attempt rule = attempt' rule)

include same

/-- Sequences are the same if their rules are tried in the same way. -/
theorem sequence_congr : sequence attempt rules = sequence attempt' rules := by
  funext pos
  induction rules generalizing pos with
  | nil => rfl
  | cons rule rules ih =>
    have rest := ih fun rule mem => same rule (List.mem_cons_of_mem _ mem)
    simp only [sequence, same rule List.mem_cons_self, rest]

/-- Alternatives are the same if they are tried in the same way. -/
theorem alternation_congr : alternation attempt rules = alternation attempt' rules := by
  funext pos
  induction rules with
  | nil => rfl
  | cons rule rules ih =>
    have rest := ih fun rule mem => same rule (List.mem_cons_of_mem _ mem)
    simp only [alternation, same rule List.mem_cons_self, rest]

end

end Plain

namespace Rule

/-- The rule names no forward. -/
def Forwardless (rule : Rule) : Prop := rule.forwards = []

instance (rule : Rule) : Decidable rule.Forwardless :=
  inferInstanceAs (Decidable (rule.forwards = []))

/-- The rules of a list name no forward if the list does not. -/
theorem forwardless_of_mem {rule : Rule} {rules : List Rule} (h : allForwards rules = [])
    (mem : rule ∈ rules) : rule.Forwardless :=
  List.subset_nil.mp (h ▸ forwards_subset mem)

section

variable {definitions definitions' : Definitions} {tokens : List Token} {fuel fuel' : Nat}
  {opened opened' : List (Forward × Nat)} {rule : Rule}

/-! ## Evaluation -/

/-- What forwards stand for and what is being tried makes no difference. -/
theorem evaluate_congr (free : rule.Forwardless) :
    rule.evaluate definitions tokens fuel opened =
      rule.evaluate definitions' tokens fuel opened' := by
  induction fuel generalizing rule with
  | zero => rfl
  | succ fuel ih =>
    funext pos
    cases rule with
    | terminal kind => rfl
    | sequence rules =>
      have each := Plain.sequence_congr fun rule mem => ih (forwardless_of_mem free mem)
      simp only [evaluate, each]
    | alternation rules =>
      have each := Plain.alternation_congr fun rule mem => ih (forwardless_of_mem free mem)
      simp only [evaluate, each]
    | repetition rule least most =>
      have inner : rule.Forwardless := free
      simp only [evaluate, ih inner]
    | map rule action =>
      have inner : rule.Forwardless := free
      simp only [evaluate, ih inner]
    | forward target => cases free

/-- A rule that names no forward is not cut short by one, whatever is being tried. -/
theorem evaluate_direct (free : rule.Forwardless) (pos : Nat) :
    (rule.evaluate definitions tokens fuel opened pos).Direct := by
  induction fuel generalizing rule pos with
  | zero => exact .outOfFuel
  | succ fuel ih =>
    cases rule with
    | terminal kind =>
      unfold evaluate
      split <;> exact .ok _
    | sequence rules =>
      have each := Plain.Direct.sequence (fun rule mem => ih (forwardless_of_mem free mem)) pos
      exact each.bind fun _ => .ok _
    | alternation rules =>
      exact .alternation (fun rule mem => ih (forwardless_of_mem free mem)) pos
    | repetition rule least most =>
      have inner : rule.Forwardless := free
      refine (Plain.Direct.rounds (ih inner) fuel most pos).bind fun result => ?_
      simp only
      split
      · exact .ok _
      · split <;> exact .ok _
    | map rule action =>
      have inner : rule.Forwardless := free
      refine (ih inner pos).bind fun found => ?_
      cases found with
      | none => exact .ok _
      | some m =>
        simp only
        split
        · exact .ok _
        · exact .failed _
    | forward target => cases free

/-- Wherever the rule is tried, it comes to an end within the tokens. -/
theorem evaluate_tries_of_forwardless (free : rule.Forwardless) {low top : Nat}
    (covers : tokens.length ≤ top) (narrow : top ≤ low + tokens.length)
    (enough : rule.size + tokens.length + 1 < fuel) :
    Plain.Tries low top (rule.evaluate definitions tokens fuel opened) := by
  let nothing : Definitions := fun _ => none
  have finite : nothing.Bounded ∅ 0 := ⟨nofun, nofun⟩
  have own : nothing.OfBuilder 0 := fun _ _ found => nomatch found
  have named : rule.OfBuilder 0 := by
    intro target named
    rw [free] at named
    cases named
  have same : rule.evaluate definitions tokens fuel opened =
      rule.evaluate nothing tokens fuel [] := evaluate_congr free
  rw [same]
  refine evaluate_tries finite own covers narrow fuel [] rule named ?_
  simpa [Plain.places] using enough

/-- With enough fuel the evaluation comes to an end. -/
theorem evaluate_settled_of_forwardless (free : rule.Forwardless)
    (enough : rule.size + tokens.length + 1 < fuel) (pos : Nat) :
    (rule.evaluate definitions tokens fuel opened pos).Settled := by
  have narrow : max pos tokens.length ≤ pos + tokens.length := by omega
  have tries : Plain.Tries pos (max pos tokens.length)
      (rule.evaluate definitions tokens fuel opened) :=
    evaluate_tries_of_forwardless free (Nat.le_max_right ..) narrow enough
  exact ⟨evaluate_direct free pos,
    (tries pos (Nat.le_refl pos) (Nat.le_max_left ..)).ne_outOfFuel⟩

/-! ## Matching -/

/-- A rule without forwards has the outcome of its evaluation and leaves what is remembered as it
was. -/
theorem match?_evaluates_of_forwardless {kept : MemoTable → Prop} (free : rule.Forwardless)
    (enough : rule.size + tokens.length + 1 < fuel)
    (enough' : rule.size + tokens.length + 1 < fuel') :
    Matching.Unaffected kept (rule.match? definitions tokens.toArray fuel')
      (rule.evaluate definitions tokens fuel opened) := by
  have same : rule.evaluate definitions tokens fuel opened =
      rule.evaluate definitions tokens fuel' opened := by
    funext pos
    exact evaluate_unique (evaluate_settled_of_forwardless free enough pos)
      (evaluate_settled_of_forwardless free enough' pos)
  rw [same]
  refine match?_unaffected (fun _ => kept) (fun _ => False) ?_ fuel' opened rule
    fun target inside => ?_
  · exact fun _ _ _ named => named.elim
  · rw [free] at inside
    cases inside

end

end Rule

end ClosureLang
