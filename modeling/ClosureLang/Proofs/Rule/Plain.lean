import Mathlib.Data.Finset.Prod
import Mathlib.Order.Interval.Finset.Nat
import ClosureLang.Proofs.Rule.Termination

/-!
# Evaluation that remembers nothing

Rules can be evaluated with no memory at all: a forward is its definition, wherever and however
often it is tried. There are no seeds then, so left recursion has no meaning, and a forward that is
tried at a position at which its own body is being tried interrupts the evaluation. What is being
tried is the only thing that evaluation keeps track of.

An evaluation that is not interrupted has one outcome, whatever the fuel and whatever else is being
tried (`evaluate_unique`). That is the first half of this module. It is what makes remembering
sound: an outcome can be used at another time and in other surroundings. The relation `Settles`
carries it through sequences, alternatives and repetitions, for any set of interruptions that may be
undone by more fuel or by less being tried.

The second half is about fuel. An evaluation takes no more fuel than there are places, since every
place is entered at most once on the way to any rule: a second time would be an interruption. So
with the fuel that goes with a set of rules of one builder, an evaluation is only cut short by a
forward that is tried inside itself.
-/

set_option autoImplicit false

namespace ClosureLang

/-- Why an evaluation ended without an answer. -/
inductive Interruption where
  | failed (error : ParseError)
  /-- A forward was tried at a position at which its own body was being tried. -/
  | reentered
  | outOfFuel
  deriving DecidableEq, Repr, Inhabited

/-- A computation that may be interrupted, and has no state. -/
abbrev Plain := Except Interruption

namespace Plain

/-- The values of the rules one after the other, and the position after them. -/
def sequence (attempt : Rule → Nat → Plain (Option Match)) :
    List Rule → Nat → Plain (Option (List Value × Nat))
  | [], pos => return some ([], pos)
  | rule :: rules, pos => do
    match ← attempt rule pos with
    | none => return none
    | some m =>
      return (← sequence attempt rules m.stop).map fun (values, stop) => (m.value :: values, stop)

/-- The first of the rules that matches. -/
def alternation (attempt : Rule → Nat → Plain (Option Match)) :
    List Rule → Nat → Plain (Option Match)
  | [], _ => return none
  | rule :: rules, pos => do
    match ← attempt rule pos with
    | none => alternation attempt rules pos
    | some m => return some m

/-- The values of as many matches as there are, but no more than `left`, and the position after
them. A match that does not move on is the last one. -/
def rounds (attempt : Nat → Plain (Option Match)) :
    Nat → Option Nat → Nat → Plain (List Value × Nat)
  | 0, _, _ => throw .outOfFuel
  | fuel + 1, left, pos =>
    if left = some 0 then return ([], pos)
    else do
      match ← attempt pos with
      | none => return ([], pos)
      | some m =>
        if pos < m.stop then do
          let (values, stop) ← rounds attempt fuel (left.map (· - 1)) m.stop
          return (m.value :: values, stop)
        else return ([m.value], m.stop)

end Plain

/-- Evaluates a rule at a position, while the forwards of `opened` are being tried at their
positions. -/
def Rule.evaluate (definitions : Definitions) (tokens : List Token) :
    Nat → List (Forward × Nat) → Rule → Nat → Plain (Option Match)
  | 0, _, _, _ => throw .outOfFuel
  | _ + 1, _, .terminal kind, pos =>
    match tokens[pos]? with
    | some t => return if t.kind = kind then some ⟨.token t, pos + 1⟩ else none
    | none => return none
  | fuel + 1, opened, .sequence rules, pos => do
    return (← Plain.sequence (evaluate definitions tokens fuel opened) rules pos).map
      fun (values, stop) => ⟨.sequence values, stop⟩
  | fuel + 1, opened, .alternation rules, pos =>
    Plain.alternation (evaluate definitions tokens fuel opened) rules pos
  | fuel + 1, opened, .repetition rule least most, pos => do
    let (values, stop) ← Plain.rounds (evaluate definitions tokens fuel opened rule) fuel most pos
    if values.length < least then return none
    else if most = some 1 then return some ⟨values.getLast?.getD .nothing, stop⟩
    else return some ⟨.sequence values, stop⟩
  | fuel + 1, opened, .map rule action, pos => do
    match ← evaluate definitions tokens fuel opened rule pos with
    | none => return none
    | some m =>
      match action m.value with
      | .ok value => return some ⟨value, m.stop⟩
      | .error cause => throw (.failed (.action pos ((tokens[pos]?).map (·.span)) cause))
  | fuel + 1, opened, .forward target, pos =>
    if (target, pos) ∈ opened then throw .reentered
    else
      match definitions target with
      | none => throw (.failed (.grammar (.unresolved target.id)))
      | some body => evaluate definitions tokens fuel ((target, pos) :: opened) body pos

namespace Plain

variable {α β : Type}

/-! ## One outcome -/

/-- The computation was not cut short: it has an answer or it fails. -/
def Settled (r : Plain α) : Prop := r ≠ .error .reentered ∧ r ≠ .error .outOfFuel

theorem settled_ok (a : α) : Settled (.ok a) := ⟨nofun, nofun⟩

theorem settled_failed (e : ParseError) : Settled (.error (.failed e) : Plain α) := ⟨nofun, nofun⟩

instance : (r : Plain α) → Decidable (Settled r)
  | .ok a => .isTrue (settled_ok a)
  | .error (.failed e) => .isTrue (settled_failed e)
  | .error .reentered => .isFalse fun settled => settled.1 rfl
  | .error .outOfFuel => .isFalse fun settled => settled.2 rfl

/-- Unless the first computation is cut short for one of the `causes`, the second one has the same
outcome. -/
def Settles (causes : Interruption → Prop) (r r' : Plain α) : Prop :=
  (∃ cause, causes cause ∧ r = .error cause) ∨ r' = r

namespace Settles

variable {causes : Interruption → Prop}

/-- An outcome is settled as itself. -/
theorem refl (r : Plain α) : Settles causes r r := .inr rfl

/-- A composition is settled as its parts are. -/
theorem bind {r r' : Plain α} {f f' : α → Plain β} (h : Settles causes r r')
    (later : ∀ a, Settles causes (f a) (f' a)) : Settles causes (r >>= f) (r' >>= f') := by
  rcases h with ⟨cause, cut, rfl⟩ | rfl
  · exact .inl ⟨cause, cut, rfl⟩
  · cases r' with
    | error cause => exact refl _
    | ok a => exact later a

/-- A sequence is settled as its rules are. -/
theorem sequence {attempt attempt' : Rule → Nat → Plain (Option Match)}
    (h : ∀ rule pos, Settles causes (attempt rule pos) (attempt' rule pos)) (rules : List Rule)
    (pos : Nat) : Settles causes (sequence attempt rules pos) (sequence attempt' rules pos) := by
  induction rules generalizing pos with
  | nil => exact refl _
  | cons rule rules ih =>
    refine bind (h rule pos) fun found => ?_
    cases found with
    | none => exact refl _
    | some m => exact bind (ih m.stop) fun _ => refl _

/-- Alternatives are settled as each of them is. -/
theorem alternation {attempt attempt' : Rule → Nat → Plain (Option Match)}
    (h : ∀ rule pos, Settles causes (attempt rule pos) (attempt' rule pos)) (rules : List Rule)
    (pos : Nat) :
    Settles causes (alternation attempt rules pos) (alternation attempt' rules pos) := by
  induction rules with
  | nil => exact refl _
  | cons rule rules ih =>
    refine bind (h rule pos) fun found => ?_
    cases found with
    | none => exact ih
    | some m => exact refl _

/-- The rounds of a repetition are settled as its rule is, with as much fuel or more. -/
theorem rounds {attempt attempt' : Nat → Plain (Option Match)} (starved : causes .outOfFuel)
    (h : ∀ pos, Settles causes (attempt pos) (attempt' pos)) {fuel fuel' : Nat} (le : fuel ≤ fuel')
    (left : Option Nat) (pos : Nat) :
    Settles causes (rounds attempt fuel left pos) (rounds attempt' fuel' left pos) := by
  induction fuel generalizing fuel' left pos with
  | zero => exact .inl ⟨.outOfFuel, starved, rfl⟩
  | succ fuel ih =>
    obtain ⟨fuel', rfl⟩ := Nat.exists_eq_add_of_le' (Nat.lt_of_lt_of_le (Nat.succ_pos fuel) le)
    unfold Plain.rounds
    split
    · exact refl _
    refine bind (h pos) fun found => ?_
    cases found with
    | none => exact refl _
    | some m =>
      simp only
      split
      · exact bind (ih (Nat.le_of_succ_le_succ le) _ m.stop) fun _ => refl _
      · exact refl _

end Settles

end Plain

namespace Rule

variable {definitions : Definitions} {tokens : List Token} {fuel fuel' : Nat}
  {opened opened' : List (Forward × Nat)} {rule : Rule} {pos : Nat}

/-- More fuel helps an evaluation that ran out of it, and trying less around it helps one in which a
forward was tried again. Neither changes anything else. -/
theorem evaluate_settles {causes : Interruption → Prop} (starved : causes .outOfFuel)
    (le : fuel ≤ fuel') (sub : opened' ⊆ opened) (same : causes .reentered ∨ opened ⊆ opened')
    (rule : Rule) (pos : Nat) :
    Plain.Settles causes (rule.evaluate definitions tokens fuel opened pos)
      (rule.evaluate definitions tokens fuel' opened' pos) := by
  induction fuel generalizing fuel' opened opened' rule pos with
  | zero => exact .inl ⟨.outOfFuel, starved, rfl⟩
  | succ fuel ih =>
    obtain ⟨fuel', rfl⟩ := Nat.exists_eq_add_of_le' (Nat.lt_of_lt_of_le (Nat.succ_pos fuel) le)
    have le := Nat.le_of_succ_le_succ le
    have each := ih le sub same
    cases rule with
    | terminal kind => exact .refl _
    | sequence rules => exact (Plain.Settles.sequence each rules pos).bind fun _ => .refl _
    | alternation rules => exact .alternation each rules pos
    | repetition rule least most =>
      exact (Plain.Settles.rounds starved (each rule) le most pos).bind fun _ => .refl _
    | map rule action => exact (each rule pos).bind fun _ => .refl _
    | forward target =>
      unfold evaluate
      split
      · next mem =>
        rcases same with again | more
        · exact .inl ⟨.reentered, again, rfl⟩
        · rw [if_pos (more mem)]
          exact .refl _
      · next closed =>
        rw [if_neg fun mem => closed (sub mem)]
        split
        · exact .refl _
        · exact ih le (List.cons_subset_cons _ sub) (same.imp_right (List.cons_subset_cons _)) _ pos

/-- A settled outcome is there with more fuel, and with less being tried. -/
theorem evaluate_of_le (settled : Plain.Settled (rule.evaluate definitions tokens fuel opened pos))
    (le : fuel ≤ fuel') (sub : opened' ⊆ opened) :
    rule.evaluate definitions tokens fuel' opened' pos =
      rule.evaluate definitions tokens fuel opened pos := by
  have settles : Plain.Settles (fun cause => cause = .reentered ∨ cause = .outOfFuel)
      (rule.evaluate definitions tokens fuel opened pos)
      (rule.evaluate definitions tokens fuel' opened' pos) :=
    evaluate_settles (.inr rfl) le sub (.inl (.inl rfl)) rule pos
  rcases settles with ⟨cause, rfl | rfl, cut⟩ | same
  · exact absurd cut settled.1
  · exact absurd cut settled.2
  · exact same

/-- Settled outcomes of a rule at a position are the same. -/
theorem evaluate_unique (settled : Plain.Settled (rule.evaluate definitions tokens fuel opened pos))
    (settled' : Plain.Settled (rule.evaluate definitions tokens fuel' opened' pos)) :
    rule.evaluate definitions tokens fuel opened pos =
      rule.evaluate definitions tokens fuel' opened' pos := by
  calc rule.evaluate definitions tokens fuel opened pos
      = rule.evaluate definitions tokens (max fuel fuel') [] pos :=
        (evaluate_of_le settled (Nat.le_max_left ..) (List.nil_subset _)).symm
    _ = rule.evaluate definitions tokens fuel' opened' pos :=
        evaluate_of_le settled' (Nat.le_max_right ..) (List.nil_subset _)

/-- A settled evaluation does not try a forward again with any other fuel either. -/
theorem evaluate_ne_reentered
    (settled : Plain.Settled (rule.evaluate definitions tokens fuel opened pos)) (fuel' : Nat) :
    rule.evaluate definitions tokens fuel' opened pos ≠ .error .reentered := by
  intro again
  have same := evaluate_of_le settled (Nat.le_max_left fuel fuel') (List.Subset.refl opened)
  have settles : Plain.Settles (Eq .outOfFuel) (rule.evaluate definitions tokens fuel' opened pos)
      (rule.evaluate definitions tokens (max fuel fuel') opened pos) :=
    evaluate_settles rfl (Nat.le_max_right ..) (List.Subset.refl _) (.inr (List.Subset.refl _)) rule
      pos
  rcases settles with ⟨cause, rfl, cut⟩ | same'
  · cases again.symm.trans cut
  · exact settled.1 (same.symm.trans (same'.trans again))

end Rule

/-! ## The forwards of one builder -/

namespace Rule

mutual

/-- The forwards that a rule names. -/
def forwards : Rule → List Forward
  | .terminal _ => []
  | .sequence rules => allForwards rules
  | .alternation rules => allForwards rules
  | .repetition rule _ _ => rule.forwards
  | .map rule _ => rule.forwards
  | .forward target => [target]

/-- The forwards that the rules of a list name. -/
def allForwards : List Rule → List Forward
  | [] => []
  | rule :: rules => rule.forwards ++ allForwards rules

end

/-- All forwards that the rule names were handed out by the builder with the given number. -/
def OfBuilder (number : Nat) (rule : Rule) : Prop :=
  ∀ target ∈ rule.forwards, target.builder = number

instance (number : Nat) (rule : Rule) : Decidable (rule.OfBuilder number) :=
  inferInstanceAs (Decidable (∀ target ∈ rule.forwards, target.builder = number))

/-- A list of rules names what each of its rules names. -/
theorem forwards_subset {rule : Rule} : ∀ {rules : List Rule}, rule ∈ rules →
    rule.forwards ⊆ allForwards rules
  | other :: rules, mem => by
    rw [allForwards]
    rcases List.mem_cons.mp mem with rfl | mem
    · exact List.subset_append_left ..
    · exact List.Subset.trans (forwards_subset mem) (List.subset_append_right ..)

section

variable {number : Nat} {rule : Rule} {rules : List Rule}

/-- The rules of a sequence keep to the builder that the sequence keeps to. -/
theorem OfBuilder.of_sequence (h : (sequence rules).OfBuilder number) (mem : rule ∈ rules) :
    rule.OfBuilder number :=
  fun target named => h target (forwards_subset mem named)

/-- Alternatives keep to the builder that all of them together keep to. -/
theorem OfBuilder.of_alternation (h : (alternation rules).OfBuilder number) (mem : rule ∈ rules) :
    rule.OfBuilder number :=
  fun target named => h target (forwards_subset mem named)

/-- A forward that keeps to a builder is one of it. -/
theorem OfBuilder.of_forward {target : Forward} (h : (forward target).OfBuilder number) :
    target.builder = number :=
  h target (List.mem_singleton.mpr rfl)

end

end Rule

/-- What the forwards of a builder stand for names forwards of the same builder only. -/
def Definitions.OfBuilder (definitions : Definitions) (number : Nat) : Prop :=
  ∀ target body, definitions target = some body → target.builder = number → body.OfBuilder number

namespace Plain

/-! ## Enough fuel -/

variable {α β : Type} {r : Plain α} {post post' : α → Prop}

/-- The computation does not run out of fuel, and its answer satisfies the postcondition. -/
def Ends (r : Plain α) (post : α → Prop) : Prop :=
  match r with
  | .ok a => post a
  | .error cause => cause ≠ .outOfFuel

namespace Ends

/-- What ends does not run out of fuel. -/
theorem ne_outOfFuel (h : Ends r post) : r ≠ .error .outOfFuel := by
  rintro rfl
  exact h rfl

/-- What ends with a property ends with a weaker one. -/
theorem mono (h : Ends r post) (weaker : ∀ a, post a → post' a) : Ends r post' := by
  cases r with
  | ok a => exact weaker a h
  | error cause => exact h

/-- A composition ends if the rest does from whatever the first part ends with. -/
theorem bind {f : α → Plain β} {post : β → Prop} (h : Ends r fun a => Ends (f a) post) :
    Ends (r >>= f) post := by
  cases r with
  | ok a => exact h
  | error cause => exact h

end Ends

/-- Between `low` and `top` the rule is tried to an end, and its matches stay there. -/
def Tries (low top : Nat) (attempt : Nat → Plain (Option Match)) : Prop :=
  ∀ pos, low ≤ pos → pos ≤ top →
    Ends (attempt pos) fun found => ∀ m ∈ found, pos ≤ m.stop ∧ m.stop ≤ top

section

variable {low top : Nat}

/-- A sequence ends within the tokens if its rules do, each from where the one before it ended. -/
theorem sequence_ends {attempt : Rule → Nat → Plain (Option Match)} {rules : List Rule}
    (each : ∀ rule ∈ rules, Tries low top (attempt rule)) {pos : Nat} (above : low ≤ pos)
    (below : pos ≤ top) :
    Ends (sequence attempt rules pos) fun found =>
      ∀ result ∈ found, pos ≤ result.2 ∧ result.2 ≤ top := by
  induction rules generalizing pos with
  | nil =>
    rintro _ ⟨⟩
    exact ⟨Nat.le_refl pos, below⟩
  | cons rule rules ih =>
    refine ((each rule List.mem_cons_self pos above below).mono ?_).bind
    rintro (_ | m) within
    · exact fun _ here => by cases here
    obtain ⟨start, stop⟩ := within m rfl
    refine ((ih (fun rule mem => each rule (List.mem_cons_of_mem _ mem))
      (Nat.le_trans above start) stop).mono ?_).bind
    rintro (_ | ⟨values, last⟩) within'
    · exact fun _ here => by cases here
    · rintro _ ⟨⟩
      obtain ⟨start', stop'⟩ := within' _ rfl
      exact ⟨Nat.le_trans start start', stop'⟩

/-- Alternatives end within the tokens if each of them does. -/
theorem alternation_tries {attempt : Rule → Nat → Plain (Option Match)} {rules : List Rule}
    (each : ∀ rule ∈ rules, Tries low top (attempt rule)) :
    Tries low top (alternation attempt rules) := by
  intro pos above below
  induction rules with
  | nil => exact fun _ here => by cases here
  | cons rule rules ih =>
    refine ((each rule List.mem_cons_self pos above below).mono ?_).bind
    rintro (_ | m) within
    · exact ih fun rule mem => each rule (List.mem_cons_of_mem _ mem)
    · exact within

/-- A round that moves on has less left before it, and one that does not is the last. -/
theorem rounds_end {attempt : Nat → Plain (Option Match)} (each : Tries low top attempt)
    {fuel : Nat} (left : Option Nat) {pos : Nat} (above : low ≤ pos) (below : pos ≤ top)
    (enough : top < fuel + pos) :
    Ends (rounds attempt fuel left pos) fun result => pos ≤ result.2 ∧ result.2 ≤ top := by
  induction fuel generalizing left pos with
  | zero => omega
  | succ fuel ih =>
    unfold rounds
    split
    · exact ⟨Nat.le_refl pos, below⟩
    refine ((each pos above below).mono ?_).bind
    rintro (_ | m) within
    · exact ⟨Nat.le_refl pos, below⟩
    obtain ⟨start, stop⟩ := within m rfl
    simp only
    split
    · refine ((ih (left.map (· - 1)) (Nat.le_trans above start) stop (by omega)).mono ?_).bind
      rintro ⟨values, last⟩ ⟨start', stop'⟩
      exact ⟨Nat.le_trans start start', stop'⟩
    · exact ⟨start, stop⟩

end

/-- The places of a builder's forwards between two positions. -/
def places (number : Nat) (ids : Finset Nat) (low top : Nat) : Finset (Forward × Nat) :=
  (ids ×ˢ Finset.Icc low top).image fun pair => (⟨number, pair.1⟩, pair.2)

/-- There are at most as many places as forwards for every position between the bounds. -/
theorem card_places_le (number : Nat) (ids : Finset Nat) {low top n : Nat}
    (narrow : top ≤ low + n) : (places number ids low top).card ≤ ids.card * (n + 1) := by
  refine Finset.card_image_le.trans ?_
  rw [Finset.card_product, Nat.card_Icc]
  exact Nat.mul_le_mul_left _ (by omega)

/-- A place that is entered was one of those left. -/
theorem card_places_left {number : Nat} {ids : Finset Nat} {low top pos : Nat} {target : Forward}
    {opened : List (Forward × Nat)} (own : target.builder = number) (known : target.id ∈ ids)
    (above : low ≤ pos) (below : pos ≤ top) (closed : (target, pos) ∉ opened) :
    (places number ids low top \ ((target, pos) :: opened).toFinset).card + 1 =
      (places number ids low top \ opened.toFinset).card := by
  have left : (target, pos) ∈ places number ids low top \ opened.toFinset := by
    refine Finset.mem_sdiff.mpr ⟨Finset.mem_image.mpr ⟨(target.id, pos), ?_, by rw [← own]⟩, ?_⟩
    · exact Finset.mem_product.mpr ⟨known, Finset.mem_Icc.mpr ⟨above, below⟩⟩
    · exact fun mem => closed (List.mem_toFinset.mp mem)
  rw [List.toFinset_cons, Finset.sdiff_insert, Finset.card_erase_add_one left]

end Plain

section

variable {definitions : Definitions} {tokens : List Token} {number : Nat} {ids : Finset Nat}
  {bound low top n : Nat}

/-- Every rule is evaluated to an end, or to a forward that is tried again, with fuel for the places
that are not being tried and for the rule itself. -/
theorem Rule.evaluate_tries (finite : definitions.Bounded ids bound)
    (own : definitions.OfBuilder number) (covers : tokens.length ≤ top) (narrow : top ≤ low + n) :
    ∀ (fuel : Nat) (opened : List (Forward × Nat)) (rule : Rule), rule.OfBuilder number →
      (Plain.places number ids low top \ opened.toFinset).card * (bound + 1) + rule.size + n + 1 <
        fuel →
      Plain.Tries low top (rule.evaluate definitions tokens fuel opened)
  | 0, _, _, _, enough => by omega
  | fuel + 1, opened, .terminal kind, _, _ => by
    intro pos above below
    unfold evaluate
    split
    · next t here =>
      have inside := (List.getElem?_eq_some_iff.mp here).1
      intro m hm
      split at hm
      · cases hm
        exact ⟨Nat.le_succ pos, Nat.le_trans inside covers⟩
      · cases hm
    · exact fun m hm => by cases hm
  | fuel + 1, opened, .sequence rules, named, enough => by
    intro pos above below
    -- each of the rules is smaller than the sequence, and the same places are left for it
    refine ((Plain.sequence_ends (fun rule mem => ?_) above below).mono ?_).bind
    · refine evaluate_tries finite own covers narrow fuel opened rule (named.of_sequence mem) ?_
      have smaller := Rule.size_le_sizes mem
      simp only [Rule.size] at enough
      omega
    · rintro (_ | ⟨values, stop⟩) within
      · exact fun m hm => by cases hm
      · rintro _ ⟨⟩
        exact within _ rfl
  | fuel + 1, opened, .alternation rules, named, enough => by
    refine Plain.alternation_tries fun rule mem => ?_
    refine evaluate_tries finite own covers narrow fuel opened rule (named.of_alternation mem) ?_
    have smaller := Rule.size_le_sizes mem
    simp only [Rule.size] at enough
    omega
  | fuel + 1, opened, .repetition rule least most, named, enough => by
    simp only [Rule.size] at enough
    have each := evaluate_tries finite own covers narrow fuel opened rule named (by omega)
    intro pos above below
    refine ((Plain.rounds_end each most above below (by omega)).mono ?_).bind
    rintro ⟨values, stop⟩ within
    simp only
    split
    · exact fun m hm => by cases hm
    · split <;> rintro _ ⟨⟩ <;> exact within
  | fuel + 1, opened, .map rule action, named, enough => by
    simp only [Rule.size] at enough
    have each := evaluate_tries finite own covers narrow fuel opened rule named (by omega)
    intro pos above below
    refine ((each pos above below).mono ?_).bind
    rintro (_ | m) within
    · exact fun m hm => by cases hm
    · simp only
      split
      · rintro _ ⟨⟩
        exact within m rfl
      · intro same
        cases same
  | fuel + 1, opened, .forward target, named, enough => by
    intro pos above below
    unfold evaluate
    split
    · intro same
      cases same
    · next closed =>
      split
      · intro same
        cases same
      · next body defined =>
        have mine := named.of_forward
        refine evaluate_tries finite own covers narrow fuel _ body (own target body defined mine) ?_
          pos above below
        -- the body may be as large as any, which is paid for by the place that is no longer left
        have smaller := finite.size_le target body defined
        have fewer := Plain.card_places_left mine (finite.id_mem target body defined) above below
          closed
        rw [← fewer, Nat.add_mul, Nat.one_mul] at enough
        simp only [Rule.size] at enough
        omega

/-- With fuel for every place and every rule there, only a forward that is tried again cuts an
evaluation short. -/
theorem Rule.evaluate_ne_outOfFuel {rule : Rule} {pos fuel : Nat}
    (finite : definitions.Bounded ids bound) (own : definitions.OfBuilder number)
    (named : rule.OfBuilder number)
    (enough : ids.card * (tokens.length + 1) * (bound + 1) + rule.size + tokens.length + 1 < fuel) :
    rule.evaluate definitions tokens fuel [] pos ≠ .error .outOfFuel := by
  have narrow : max pos tokens.length ≤ pos + tokens.length := by omega
  have places := Nat.mul_le_mul_right (bound + 1) (Plain.card_places_le number ids narrow)
  have tries := evaluate_tries finite own (Nat.le_max_right ..) narrow fuel [] rule named
    (by rw [List.toFinset_nil, Finset.sdiff_empty]; omega)
  exact (tries pos (Nat.le_refl pos) (Nat.le_max_left ..)).ne_outOfFuel

end

end ClosureLang
