import ClosureLang.Rule.Match

/-!
# Corresponding computations

Two ways of trying rules correspond if they differ in their fuel, in the token list that they look
at, or in the numbers under which they remember, and in nothing else. What relates the answers of
corresponding computations is shown once for everything that rules are put together of: a relation
that the single steps respect, and that goes through from one step to the next, holds between all of
them.

There are several kinds of relations, each with the steps that it has to respect. A `Compositional`
one goes through pure answers and composition, and anything is related to running out of fuel,
because more fuel may change that. It is all that sequences, alternatives and repetitions need. A
`Remembering` one also respects looking up, entering and planting, where the second computation may
use other numbers; that is enough to enter a forward and to grow a seed. A `Translation` respects
the error of an undefined forward as well. A `Congruence` is one for the same numbers on both sides,
and covers all rules once looking at tokens and applying actions are known to be related.

Most of the modules about matching are instances: more fuel, other numbers, other tokens after the
reported one, what is kept of marks, and what can halt a computation. A property of a single
computation is an instance as well, as a relation that says nothing of the second one.
-/

set_option autoImplicit false

namespace ClosureLang

/-- The place of the same position under another number. -/
def Place.renumber (f : Nat → Nat) (place : Place) : Place := ⟨f place.id, place.position⟩

namespace Matching

/-! ## Steps that are known -/

/-- After a computation that answers, the rest goes on from its progress. -/
theorem bind_run_of_ok {α β : Type} {x : Matching α} {f : α → Matching β} {s s₁ : Progress} {a : α}
    (run : x s = .ok a s₁) : (x >>= f) s = f a s₁ := by
  show EStateM.bind x f s = f a s₁
  rw [EStateM.bind, run]

/-- After a computation that halts, nothing goes on. -/
theorem bind_run_of_error {α β : Type} {x : Matching α} {f : α → Matching β} {s s₁ : Progress}
    {halt : Halt} (run : x s = .error halt s₁) : (x >>= f) s = .error halt s₁ := by
  show EStateM.bind x f s = .error halt s₁
  rw [EStateM.bind, run]

/-! ## Forwards by what is remembered -/

section

variable {α : Type} {definitions : Definitions} {attempt : Rule → Nat → Matching (Option Match)}
  {fuel pos : Nat} {target : Forward} {s : Progress}

/-- Looking up a place goes on with what is remembered there. -/
theorem remembered?_bind {f : Option Memo → Matching α} {place : Place} {memo : Option Memo}
    (found : s.memo.find? place = memo) : (remembered? place >>= f) s = f memo s := by
  rw [← found]
  rfl

/-- A forward whose result is remembered answers with it and changes nothing. -/
theorem forward_of_resolved {result : Option Match}
    (found : s.memo.find? ⟨target.id, pos⟩ = some (.resolved result)) :
    forward definitions attempt fuel target pos s = .ok result s := by
  unfold forward
  rw [remembered?_bind found]
  rfl

/-- A forward that is being tried at the position does not match there, and is marked as met
again. -/
theorem forward_of_pending {b : Bool}
    (found : s.memo.find? ⟨target.id, pos⟩ = some (.pending b)) :
    forward definitions attempt fuel target pos s =
      .ok none { s with memo := s.memo.insert ⟨target.id, pos⟩ (.pending true) } := by
  unfold forward
  rw [remembered?_bind found]
  rfl

/-- A forward of which nothing is remembered is entered with its definition. -/
theorem forward_of_absent {body : Rule} (absent : s.memo.find? ⟨target.id, pos⟩ = none)
    (defined : definitions target = some body) :
    forward definitions attempt fuel target pos s =
      enter (attempt body pos) fuel ⟨target.id, pos⟩ s := by
  unfold forward
  rw [remembered?_bind absent, defined]

/-- A forward that stands for nothing fails, and the error names it. -/
theorem forward_of_undefined (absent : s.memo.find? ⟨target.id, pos⟩ = none)
    (undefined : definitions target = none) :
    forward definitions attempt fuel target pos s =
      .error (.failed (.grammar (.unresolved target.id))) s := by
  unfold forward
  rw [remembered?_bind absent, undefined]
  rfl

end

/-! ## Relations that go through -/

/-- A relation between computations that goes through from one step to the next. Whatever is done
with more fuel corresponds to running out of it. -/
structure Compositional (R : ∀ {α : Type}, Matching α → Matching α → Prop) : Prop where
  outOfFuel {α : Type} (x : Matching α) : R (throw .outOfFuel) x
  pure {α : Type} (a : α) : R (Pure.pure a) (Pure.pure a)
  bind {α β : Type} {x y : Matching α} {f g : α → Matching β} : R x y → (∀ a, R (f a) (g a)) →
    R (x >>= f) (y >>= g)

namespace Compositional

variable {R : ∀ {α : Type}, Matching α → Matching α → Prop} (c : Compositional R)

include c

section

variable {attempt attempt' : Rule → Nat → Matching (Option Match)} {rules : List Rule}
  (h : ∀ rule ∈ rules, ∀ pos, R (attempt rule pos) (attempt' rule pos))

include h

/-- Sequences correspond if their rules do. -/
theorem sequence (before : List Value) (pos : Nat) :
    R (sequence attempt rules before pos) (sequence attempt' rules before pos) := by
  induction rules generalizing before pos with
  | nil => exact c.pure _
  | cons rule rules ih =>
    apply c.bind (h rule List.mem_cons_self pos)
    intro found
    cases found with
    | none => exact c.pure _
    | some m => exact ih (fun rule mem => h rule (List.mem_cons_of_mem _ mem)) _ m.stop

/-- Alternatives correspond if each of them does. -/
theorem alternation (pos : Nat) :
    R (alternation attempt rules pos) (alternation attempt' rules pos) := by
  induction rules with
  | nil => exact c.pure _
  | cons rule rules ih =>
    apply c.bind (h rule List.mem_cons_self pos)
    intro found
    cases found with
    | none => exact ih fun rule mem => h rule (List.mem_cons_of_mem _ mem)
    | some m => exact c.pure _

end

section

variable {attempt attempt' : Nat → Matching (Option Match)}

/-- Rounds correspond if the rule does, also with more fuel on the second side. -/
theorem rounds (h : ∀ pos, R (attempt pos) (attempt' pos)) (most : Option Nat) :
    ∀ {fuel fuel' : Nat}, fuel ≤ fuel' → ∀ (before : List Value) (pos : Nat),
      R (rounds attempt fuel most before pos) (rounds attempt' fuel' most before pos) := by
  intro fuel
  induction fuel with
  | zero =>
    intro fuel' _ before pos
    exact c.outOfFuel _
  | succ fuel ih =>
    intro fuel' le before pos
    obtain ⟨fuel', rfl⟩ := Nat.exists_eq_add_of_le' (Nat.lt_of_lt_of_le (Nat.succ_pos fuel) le)
    unfold Matching.rounds
    split
    · exact c.pure _
    apply c.bind (h pos)
    intro found
    cases found with
    | none => exact c.pure _
    | some m =>
      simp only
      split
      · exact ih (Nat.le_of_succ_le_succ le) (m.value :: before) m.stop
      · exact c.pure _

/-- Repetitions correspond if the rule does. -/
theorem repetition (h : ∀ pos, R (attempt pos) (attempt' pos)) {fuel fuel' : Nat}
    (le : fuel ≤ fuel') (least : Nat) (most : Option Nat) (pos : Nat) :
    R (repetition attempt fuel least most pos) (repetition attempt' fuel' least most pos) := by
  refine c.bind (c.rounds h most le [] pos) fun found => ?_
  simp only
  split
  · exact c.pure _
  · exact c.pure _

end

end Compositional

/-- A relation that goes through and that the steps on what is remembered respect, if the second
computation remembers under the number `f id` what the first one remembers under `id`. -/
structure Remembering (f : Nat → Nat) (R : ∀ {α : Type}, Matching α → Matching α → Prop) : Prop
    extends Compositional R where
  remembered? (place : Place) : R (remembered? place) (remembered? (place.renumber f))
  remember (place : Place) (memo : Memo) :
    R (remember place memo) (remember (place.renumber f) memo)
  plant (place : Place) (seed : Match) : R (plant place seed) (plant (place.renumber f) seed)

namespace Remembering

variable {f : Nat → Nat} {R : ∀ {α : Type}, Matching α → Matching α → Prop} (c : Remembering f R)
  {body body' : Matching (Option Match)} {fuel fuel' : Nat}

include c

/-- Growing corresponds if the bodies do, under the other number and with more fuel. -/
theorem grow (h : R body body') (place : Place) :
    ∀ {fuel fuel' : Nat}, fuel ≤ fuel' → ∀ seed : Match,
      R (grow body place fuel seed) (grow body' (place.renumber f) fuel' seed) := by
  intro fuel
  induction fuel with
  | zero =>
    intro fuel' _ seed
    exact c.outOfFuel _
  | succ fuel ih =>
    intro fuel' le seed
    obtain ⟨fuel', rfl⟩ := Nat.exists_eq_add_of_le' (Nat.lt_of_lt_of_le (Nat.succ_pos fuel) le)
    unfold Matching.grow
    apply c.bind (c.plant place seed)
    intro _
    apply c.bind h
    intro found
    cases found with
    | none => exact c.pure _
    | some grown =>
      simp only
      split
      · exact ih (Nat.le_of_succ_le_succ le) grown
      · exact c.pure _

/-- Entering a forward corresponds if the bodies do, under the other number. -/
theorem enter (h : R body body') (le : fuel ≤ fuel') (place : Place) :
    R (enter body fuel place) (enter body' fuel' (place.renumber f)) := by
  unfold Matching.enter
  refine c.bind (c.remember place _) fun _ => c.bind h fun first =>
    c.bind (c.remembered? place) fun marked => ?_
  have settle (result : Option Match) :
      R (do Matching.remember place (.resolved result); return result)
        (do Matching.remember (place.renumber f) (.resolved result); return result) :=
    c.bind (c.remember place _) fun _ => c.pure _
  split
  · rw [map_eq_pure_bind, map_eq_pure_bind]
    exact c.bind (c.bind (c.grow h place le _) fun _ => c.pure _) settle
  · exact c.bind (c.pure _) settle

end Remembering

/-- A relation that goes through and that single steps respect, under other numbers. -/
structure Translation (f : Nat → Nat) (R : ∀ {α : Type}, Matching α → Matching α → Prop) : Prop
    extends Remembering f R where
  unresolved {α : Type} (id : Nat) :
    R (throw (.failed (.grammar (.unresolved id))) : Matching α)
      (throw (.failed (.grammar (.unresolved id))))

/-- A relation between computations that single steps respect, and that goes through from one step
to the next. Whatever is done with more fuel corresponds to running out of it. -/
structure Congruence (R : ∀ {α : Type}, Matching α → Matching α → Prop) : Prop where
  outOfFuel {α : Type} (x : Matching α) : R (throw .outOfFuel) x
  unresolved {α : Type} (id : Nat) :
    R (throw (.failed (.grammar (.unresolved id))) : Matching α)
      (throw (.failed (.grammar (.unresolved id))))
  pure {α : Type} (a : α) : R (Pure.pure a) (Pure.pure a)
  bind {α β : Type} {x y : Matching α} {f g : α → Matching β} : R x y → (∀ a, R (f a) (g a)) →
    R (x >>= f) (y >>= g)
  remembered? (place : Place) : R (remembered? place) (remembered? place)
  remember (place : Place) (memo : Memo) : R (remember place memo) (remember place memo)
  plant (place : Place) (seed : Match) : R (plant place seed) (plant place seed)

namespace Congruence

variable {R : ∀ {α : Type}, Matching α → Matching α → Prop} (c : Congruence R)

include c

/-- Both computations remember under the same numbers. -/
theorem translation : Translation id R where
  outOfFuel := c.outOfFuel
  unresolved := c.unresolved
  pure := c.pure
  bind := c.bind
  remembered? := c.remembered?
  remember := c.remember
  plant := c.plant

/-- Forwards with the same definitions correspond if the rules they stand for do. -/
theorem forward {attempt attempt' : Rule → Nat → Matching (Option Match)} {fuel fuel' : Nat}
    (definitions : Definitions) (h : ∀ rule pos, R (attempt rule pos) (attempt' rule pos))
    (le : fuel ≤ fuel') (target : Forward) (pos : Nat) :
    R (forward definitions attempt fuel target pos)
      (forward definitions attempt' fuel' target pos) := by
  unfold Matching.forward
  refine c.bind (c.remembered? _) fun found => ?_
  split
  · exact c.bind (c.remember _ _) fun _ => c.pure _
  · exact c.pure _
  · split
    · exact c.unresolved target.id
    · next body _ => exact c.translation.enter (h body pos) le ⟨target.id, pos⟩

/-- A rule that is tried with at least as much fuel, on two token lists on which terminals and
actions are related. -/
theorem match? {definitions : Definitions} {tokens tokens' : Array Token}
    (terminals : ∀ kind pos, R (terminal tokens kind pos) (terminal tokens' kind pos))
    (actions : ∀ found action pos, R (map tokens found action pos) (map tokens' found action pos)) :
    ∀ {fuel fuel' : Nat}, fuel ≤ fuel' → ∀ (rule : Rule) (pos : Nat),
      R (rule.match? definitions tokens fuel pos) (rule.match? definitions tokens' fuel' pos) := by
  intro fuel
  induction fuel with
  | zero =>
    intro fuel' _ rule pos
    exact c.outOfFuel _
  | succ fuel ih =>
    intro fuel' le rule pos
    obtain ⟨fuel', rfl⟩ := Nat.exists_eq_add_of_le' (Nat.lt_of_lt_of_le (Nat.succ_pos fuel) le)
    have le := Nat.le_of_succ_le_succ le
    have each := fun rule pos => ih le rule pos
    cases rule with
    | terminal kind => exact terminals kind pos
    | sequence rules => exact c.translation.sequence (fun rule _ => each rule) [] pos
    | alternation rules => exact c.translation.alternation (fun rule _ => each rule) pos
    | repetition rule least most => exact c.translation.repetition (each rule) le least most pos
    | map rule action => exact c.bind (each rule pos) fun found => actions found action pos
    | forward target => exact c.forward definitions each le target pos

end Congruence

end Matching

end ClosureLang
