import Mathlib.Data.List.Nodup
import ClosureLang.Proofs.Rule.Fuel
import ClosureLang.Proofs.Rule.Plain

/-!
# Remembering under other numbers

Results are remembered under the number that a builder gave to its forward, and builders count
independently of each other. Matching is stated here with any other way of numbering the forwards
(`Rule.matchUnder?`). If it numbers no two forwards alike, every forward has a memory of its own,
whoever handed it out.

Only which forwards share a number makes a difference, not which number it is. So as long as every
number in use belongs to one forward, matching does what it would do if every forward had a memory
of its own. `Rule.OwnedBy` says of a rule that every number in it belongs to the forward that it is
used for, given who owns each number; `Definitions.OwnedBy` says the same of everything that the
owners stand for.

The two ways of matching are related as a computation is to itself with more fuel: `Renumbers` says
that the second does what the first does, with the numbers changed in everything that is remembered.
The lemmas about remembering come first: looking up a place, entering a result and dropping results
commute with the change of numbers. The rest is the general account of corresponding computations.
-/

set_option autoImplicit false

namespace ClosureLang

/-! ## Remembered results -/

section

variable {f : Nat → Nat} (injective : Function.Injective f)

include injective

/-- Places under other numbers are the same if the places are. -/
theorem Place.renumber_inj {place other : Place} :
    place.renumber f = other.renumber f ↔ place = other := by
  cases place
  cases other
  simp [Place.renumber, injective.eq_iff]

/-- The rows under other numbers. -/
def MemoTable.renumberRow (f : Nat → Nat) (row : Place × Memo) : Place × Memo :=
  (row.1.renumber f, row.2)

/-- The remembered results under other numbers. -/
def MemoTable.renumber (t : MemoTable) : MemoTable :=
  ⟨t.rows.map (renumberRow f), by
    have keys := t.nodup.map (fun _ _ => (Place.renumber_inj injective).mp)
    simpa [Function.comp_def, renumberRow] using keys⟩

namespace MemoTable

/-- What is remembered at a place is found at the place with the other number. -/
theorem find?_renumber (t : MemoTable) (place : Place) :
    (t.renumber injective).find? (place.renumber f) = t.find? place := by
  simp only [find?, renumber]
  induction t.rows with
  | nil => rfl
  | cons row rows ih =>
    obtain ⟨key, memo⟩ := row
    have same : (place.renumber f == key.renumber f) = (place == key) := by
      simp [Place.renumber_inj injective]
    rw [List.map_cons, renumberRow, List.lookup_cons, List.lookup_cons, same, ih]

/-- Remembering and giving other numbers may change their order. -/
theorem renumber_insert (t : MemoTable) (place : Place) (memo : Memo) :
    (t.insert place memo).renumber injective =
      (t.renumber injective).insert (place.renumber f) memo := by
  have others : (rowsWithout place t.rows).map (renumberRow f) =
      rowsWithout (place.renumber f) (t.rows.map (renumberRow f)) := by
    induction t.rows with
    | nil => rfl
    | cons row rows ih =>
      simp only [rowsWithout, List.map_cons, renumberRow, Place.renumber_inj injective]
      split
      · rfl
      · rw [List.map_cons, ih, renumberRow]
  simp [renumber, insert, renumberRow, others]

/-- Dropping results and giving other numbers may change their order: which results are dropped
depends on the position. -/
theorem renumber_forget (t : MemoTable) (place : Place) :
    (t.forget place).renumber injective = (t.renumber injective).forget (place.renumber f) := by
  have same : survives (place.renumber f) ∘ renumberRow f = survives place := by
    funext row
    have id : (f row.1.id == f place.id) = (row.1.id == place.id) := by simp [injective.eq_iff]
    simp [survives, renumberRow, Place.renumber, id]
  simp [renumber, forget, List.filter_map, same]

end MemoTable

/-- The progress with what is remembered under other numbers. -/
def Progress.renumber (s : Progress) : Progress :=
  { s with memo := s.memo.renumber injective }

end

namespace Matching

variable {α β : Type}

/-- The outcome with its progress changed. -/
def mapProgress (g : Progress → Progress) :
    EStateM.Result Halt Progress α → EStateM.Result Halt Progress α
  | .ok a s => .ok a (g s)
  | .error halt s => .error halt (g s)

/-- Where the first computation does not run out of fuel, the second one does the same under other
numbers. -/
def Renumbers {f : Nat → Nat} (injective : Function.Injective f) (x y : Matching α) : Prop :=
  ∀ s, x.Starves s ∨ y (s.renumber injective) = mapProgress (·.renumber injective) (x s)

namespace Renumbers

variable {f : Nat → Nat} {injective : Function.Injective f}

/-- Compositions do the same under other numbers if their parts do. -/
theorem bind {x y : Matching α} {g h : α → Matching β} (first : Renumbers injective x y)
    (later : ∀ a, Renumbers injective (g a) (h a)) :
    Renumbers injective (x >>= g) (y >>= h) := by
  intro s
  rcases first s with starves | same
  · exact .inl starves.bind
  · cases run : x s with
    | ok a s₁ =>
      rw [run] at same
      refine (later a s₁).imp (Starves.bind_of_ok run) fun same₁ => ?_
      rw [bind_run_of_ok run, bind_run_of_ok same, same₁]
    | error halt s₁ =>
      rw [run] at same
      exact .inr ((bind_run_of_error same).trans
        (congrArg (mapProgress _) (bind_run_of_error run)).symm)

/-- Remembering does the same under the other number. -/
theorem remember (place : Place) (memo : Memo) :
    Renumbers injective (remember place memo) (remember (place.renumber f) memo) := by
  intro s
  right
  show EStateM.Result.ok () _ = .ok () _
  simp only [Progress.renumber, s.memo.renumber_insert]

/-- Planting a seed does the same under the other number. -/
theorem plant (place : Place) (seed : Match) :
    Renumbers injective (plant place seed) (plant (place.renumber f) seed) := by
  intro s
  right
  show EStateM.Result.ok () _ = .ok () _
  simp only [Progress.renumber, MemoTable.renumber_forget, MemoTable.renumber_insert]

/-- Doing the same under other numbers goes through from step to step. -/
theorem translation : Translation f fun {_} x y => Renumbers injective x y where
  outOfFuel _ s := .inl ⟨s, rfl⟩
  unresolved _ _ := .inr rfl
  pure _ _ := .inr rfl
  bind := bind
  remembered? place s :=
    .inr (congrArg (EStateM.Result.ok · _) (s.memo.find?_renumber injective place))
  remember := remember
  plant := plant

end Renumbers

/-! ## Matching under other numbers -/

/-- The result of a forward that is remembered under the number `key target`. -/
def forwardUnder (key : Forward → Nat) (definitions : Definitions)
    (attempt : Rule → Nat → Matching (Option Match)) (fuel : Nat) (target : Forward) (pos : Nat) :
    Matching (Option Match) := do
  let place := ⟨key target, pos⟩
  match ← remembered? place with
  | some (.pending _) =>
    Matching.remember place (.pending true)
    return none
  | some (.resolved result) => return result
  | none =>
    match definitions target with
    | none => throw (.failed (.grammar (.unresolved target.id)))
    | some body => enter (attempt body pos) fuel place

end Matching

/-- Tries a rule at a position, with the results of every forward remembered under its `key`. -/
def Rule.matchUnder? (key : Forward → Nat) (definitions : Definitions) (tokens : Array Token) :
    Nat → Rule → Nat → Matching (Option Match)
  | 0, _, _ => throw .outOfFuel
  | _ + 1, .terminal kind, pos => Matching.terminal tokens kind pos
  | fuel + 1, .sequence rules, pos =>
    Matching.sequence (matchUnder? key definitions tokens fuel) rules [] pos
  | fuel + 1, .alternation rules, pos =>
    Matching.alternation (matchUnder? key definitions tokens fuel) rules pos
  | fuel + 1, .repetition rule least most, pos =>
    Matching.repetition (matchUnder? key definitions tokens fuel rule) fuel least most pos
  | fuel + 1, .map rule action, pos => do
    Matching.map tokens (← matchUnder? key definitions tokens fuel rule pos) action pos
  | fuel + 1, .forward target, pos =>
    Matching.forwardUnder key definitions (matchUnder? key definitions tokens fuel) fuel target pos

/-- With the numbers of the builders this is matching as it is. -/
theorem Rule.matchUnder?_id (definitions : Definitions) (tokens : Array Token) (fuel : Nat) :
    Rule.matchUnder? Forward.id definitions tokens fuel = Rule.match? definitions tokens fuel := by
  induction fuel with
  | zero => rfl
  | succ fuel ih =>
    funext rule pos
    cases rule <;> simp only [matchUnder?, match?, ih]
    rfl

/-! ## Numbers with one owner -/

/-- Every number that the rule uses belongs to the forward that it uses it for. -/
def Rule.OwnedBy (owner : Nat → Forward) (rule : Rule) : Prop :=
  ∀ target ∈ rule.forwards, owner target.id = target

instance (owner : Nat → Forward) (rule : Rule) : Decidable (rule.OwnedBy owner) :=
  inferInstanceAs (Decidable (∀ target ∈ rule.forwards, owner target.id = target))

/-- What the owners stand for uses the numbers of owners only. -/
def Definitions.OwnedBy (definitions : Definitions) (owner : Nat → Forward) : Prop :=
  ∀ target body, definitions target = some body → owner target.id = target → body.OwnedBy owner

/-- If all numbers belong to the forwards of one builder, that is the builder that handed out every
forward in use. -/
theorem Rule.ownedBy_iff {number : Nat} {rule : Rule} :
    rule.OwnedBy (Forward.mk number) ↔ rule.OfBuilder number := by
  refine forall₂_congr fun target _ => ?_
  cases target
  simp [eq_comm]

/-- That all forwards are of one builder means that every number belongs to the forward of that
builder. -/
theorem Definitions.ownedBy_iff {number : Nat} {definitions : Definitions} :
    definitions.OwnedBy (Forward.mk number) ↔ definitions.OfBuilder number := by
  refine forall₃_congr fun target body _ => ?_
  cases target
  simp [Rule.ownedBy_iff, eq_comm]

namespace Matching

/-- A forward does the same under other numbers if its own is the other one of its number and its
definition does the same. -/
theorem forward_renumbers {f : Nat → Nat} {injective : Function.Injective f} {key : Forward → Nat}
    {definitions : Definitions} {attempt attempt' : Rule → Nat → Matching (Option Match)}
    {fuel fuel' : Nat} (le : fuel ≤ fuel') {target : Forward} (known : key target = f target.id)
    (h : ∀ body, definitions target = some body → ∀ pos,
      Renumbers injective (attempt body pos) (attempt' body pos)) (pos : Nat) :
    Renumbers injective (forward definitions attempt fuel target pos)
      (forwardUnder key definitions attempt' fuel' target pos) := by
  have c := @Renumbers.translation f injective
  unfold forward forwardUnder
  rw [known]
  refine c.bind (c.remembered? _) fun found => ?_
  match found, definitions target, h with
  | some (.pending _), _, _ => exact c.bind (c.remember _ _) fun _ => c.pure _
  | some (.resolved _), _, _ => exact c.pure _
  | none, none, _ => exact c.unresolved target.id
  | none, some body, h => exact c.enter (h body rfl pos) le ⟨target.id, pos⟩

/-- An action does the same under other numbers, as it looks at nothing that is remembered. -/
theorem map_renumbers {f : Nat → Nat} {injective : Function.Injective f} (tokens : Array Token)
    (found : Option Match) (action : Action) (pos : Nat) :
    Renumbers injective (map tokens found action pos) (map tokens found action pos) := by
  intro s
  right
  unfold map
  cases found with
  | none => rfl
  | some m =>
    simp only
    cases action m.value <;> rfl

end Matching

/-- A rule of a list uses numbers of owners if the whole list does. -/
theorem Rule.OwnedBy.of_mem {owner : Nat → Forward} {rule : Rule} {rules : List Rule}
    (h : ∀ target ∈ allForwards rules, owner target.id = target) (mem : rule ∈ rules) :
    rule.OwnedBy owner :=
  fun target inside => h target (forwards_subset mem inside)

/-- With other numbers, and at least as much fuel, a rule does the same as long as every number has
one owner. -/
theorem Rule.match?_renumbers {f : Nat → Nat} (injective : Function.Injective f)
    {key : Forward → Nat} {owner : Nat → Forward} {definitions : Definitions}
    (known : ∀ target, owner target.id = target → key target = f target.id)
    (closed : definitions.OwnedBy owner) (tokens : Array Token) {fuel fuel' : Nat}
    (le : fuel ≤ fuel') (rule : Rule) (owned : rule.OwnedBy owner) (pos : Nat) :
    Matching.Renumbers injective (rule.match? definitions tokens fuel pos)
      (rule.matchUnder? key definitions tokens fuel' pos) := by
  have c := @Matching.Renumbers.translation f injective
  induction fuel generalizing fuel' rule pos with
  | zero => exact c.outOfFuel _
  | succ fuel ih =>
    obtain ⟨fuel', rfl⟩ := Nat.exists_eq_add_of_le' (Nat.lt_of_lt_of_le (Nat.succ_pos fuel) le)
    have le := Nat.le_of_succ_le_succ le
    have each := ih le
    cases rule with
    | terminal kind => exact fun s => .inr rfl
    | sequence rules => exact c.sequence (fun rule mem => each rule (.of_mem owned mem)) [] pos
    | alternation rules => exact c.alternation (fun rule mem => each rule (.of_mem owned mem)) pos
    | repetition rule least most => exact c.repetition (each rule owned) le least most pos
    | map rule action =>
      exact c.bind (each rule owned pos) fun found =>
        Matching.map_renumbers tokens found action pos
    | forward target =>
      have mine := owned target List.mem_cons_self
      exact Matching.forward_renumbers le (known target mine)
        (fun body defined => each body (closed target body defined mine)) pos

end ClosureLang
