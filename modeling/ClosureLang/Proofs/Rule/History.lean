import Mathlib.Data.List.Basic
import ClosureLang.Proofs.Rule.Plain
import ClosureLang.Rule.Workshop

/-!
# The history of a workshop

A workshop comes about step by step: builders are put up, forwards are handed out and defined,
builders are finished, and what is not needed any more is dropped. A `Step` is one of these, and a
history is the list of the steps with the last one first. Not every list is a history: `after?` says
to which workshop the steps lead, and that they lead to one only if each of them is possible in the
workshop that the steps before it lead to. A rule can only name forwards that were handed out
before, though they may be defined later.

What there is to know of a history can be said without any workshop. `handedOut` are the forwards
that the steps hand out, each with the builder and the number under which it is handed out, and
`firstDefinition?` is the rule that is given first for a forward. Both are computed from the steps
alone, and both only grow: what was handed out stays handed out, and the first rule for a forward
stays the first.

## The invariant

`Workshop.Reflects` says that a workshop keeps exactly that, whatever is dropped in between:

- the handles are the forwards that were handed out, in their order;
- every builder has as many cells as forwards were handed out under its number, and each cell holds
  the first rule that was given for its forward (`Builder.Reflects`);
- only builders that are there own forwards, and the rules of the rule sets name forwards that were
  handed out;
- a rule set holds the forwards of its builder, and nothing is left to define in it.

The last part is what makes finished rule sets safe to use. It cannot be shown of a rule set alone:
the builder is the one place where definitions are kept, and other handles to it may be used after
the set was made. They change nothing, because a forward that has a rule is refused another one, and
all forwards of a finished builder have one.

## How it is kept

Every kind of step has a lemma that takes the invariant from the workshop before it to the one after
it: `newBuilder`, `addForward`, `define`, `finish` and the three ways of dropping something. Of
these, only `addForward` and `define` say anything new about a history; all others go through
`cons`, which is for steps that hand out nothing and define nothing first. `perform` puts them
together, one case for each kind of step, and `reflects_of_after?` goes through a whole history by
induction on it.

Dropping takes away who holds something, never what is held: the cells of a builder that was
dropped, or could not be finished, are still there for the handles that hold a forward of it. So a
step of this kind changes a holder or a flag and nothing else, and `setHolder` is all there is to
show of it. Whether a forward still stands for something after that is another question, and is left
to the next module.
-/

set_option autoImplicit false

namespace ClosureLang

namespace Workshop

/-- What can be done in a workshop. Builders, handles and rule sets are named by their numbers. -/
inductive Step where
  | newBuilder
  | addForward (builder : Nat)
  | define (handle : Nat) (rule : Rule)
  | finish (builder : Nat) (root : Rule)
  | dropBuilder (builder : Nat)
  | dropHandle (handle : Nat)
  | dropSet (set : Nat)
  deriving Inhabited

/-- The forwards that the rule of a step names. -/
def Step.forwards : Step → List Forward
  | define _ rule => rule.forwards
  | finish _ root => root.forwards
  | _ => []

/-- The workshop after a step, if the step is possible. What the step answers is left aside. -/
def perform (w : Workshop) : Step → Option Workshop
  | .newBuilder => some w.newBuilder.2
  | .addForward number => (w.addForward number).map Prod.snd
  | .define handle rule => (w.define handle rule).map Prod.snd
  | .finish number root => (w.finish number root).map Prod.snd
  | .dropBuilder number => w.dropBuilder number
  | .dropHandle number => w.dropHandle number
  | .dropSet number => w.dropSet number

/-- The forwards that the steps hand out, in the order of their handles. The last step comes
first. -/
def handedOut : List Step → List Forward
  | [] => []
  | .addForward number :: earlier =>
    handedOut earlier ++ [⟨number, (handedOut earlier).countP (·.builder = number)⟩]
  | _ :: earlier => handedOut earlier

/-- The rule that the steps give for a forward first. The last step comes first. -/
def firstDefinition? (target : Forward) : List Step → Option Rule
  | [] => none
  | .define handle rule :: earlier =>
    (firstDefinition? target earlier).or
      (if (handedOut earlier)[handle]? = some target then some rule else none)
  | _ :: earlier => firstDefinition? target earlier

/-- The workshop that the steps lead to, if all of them are possible. The last step comes first. -/
def after? : List Step → Option Workshop
  | [] => some empty
  | step :: earlier => do
    let w ← after? earlier
    if ∀ target ∈ step.forwards, target ∈ handedOut earlier then w.perform step else none

/-! ## What the steps say -/

section

variable {steps : List Step} {step : Step} {target : Forward} {rule : Rule}

/-- The last of the steps was done in the workshop that the earlier ones lead to, and only named
forwards that had been handed out. -/
theorem after?_cons {w' : Workshop} (made : after? (step :: steps) = some w') :
    ∃ w, after? steps = some w ∧ (∀ target ∈ step.forwards, target ∈ handedOut steps) ∧
      w.perform step = some w' := by
  obtain ⟨w, before, made⟩ := Option.bind_eq_some_iff.mp made
  split at made
  · next known => exact ⟨w, before, known, made⟩
  · cases made

/-- A builder numbers its forwards in the order in which it hands them out. -/
theorem mem_handedOut :
    target ∈ handedOut steps ↔
      target.id < (handedOut steps).countP (·.builder = target.builder) := by
  induction steps with
  | nil => simp [handedOut]
  | cons step steps ih =>
    cases step with
    | addForward number =>
      rw [handedOut, List.mem_append, List.countP_append, ih, List.mem_singleton]
      by_cases own : target.builder = number
      · subst own
        cases target
        simp
        omega
      · have other : target ≠ ⟨number, (handedOut steps).countP (·.builder = number)⟩ := by
          rintro rfl
          exact own rfl
        simp [other, Ne.symm own]
    | _ => exact ih

/-- What was handed out stays handed out. -/
theorem handedOut_cons (step : Step) (known : target ∈ handedOut steps) :
    target ∈ handedOut (step :: steps) := by
  cases step with
  | addForward number => exact List.mem_append_left _ known
  | _ => exact known

/-- The rule that was given for a forward first stays so. -/
theorem firstDefinition?_cons (step : Step) (given : firstDefinition? target steps = some rule) :
    firstDefinition? target (step :: steps) = some rule := by
  cases step with
  | define handle other => rw [firstDefinition?, given, Option.some_or]
  | _ => exact given

/-- A forward is handed out before a rule is given for it. -/
theorem mem_of_firstDefinition? (given : firstDefinition? target steps = some rule) :
    target ∈ handedOut steps := by
  induction steps with
  | nil => cases given
  | cons step steps ih =>
    cases step with
    | define handle other =>
      rcases Option.or_eq_some_iff.mp given with before | ⟨-, now⟩
      · exact ih before
      · split at now
        · next here => exact List.mem_of_getElem? here
        · cases now
    | addForward number => exact handedOut_cons _ (ih given)
    | _ => exact ih given

/-- Rules that are given for forwards name forwards that were handed out. -/
theorem mem_of_named {w : Workshop} (made : after? steps = some w) {other : Forward}
    (given : firstDefinition? target steps = some rule) (named : other ∈ rule.forwards) :
    other ∈ handedOut steps := by
  induction steps generalizing w with
  | nil => cases given
  | cons step steps ih =>
    obtain ⟨w, before, known, -⟩ := after?_cons made
    cases step with
    | define handle rule' =>
      rcases Option.or_eq_some_iff.mp given with given | ⟨-, now⟩
      · exact ih before given
      · split at now
        · cases now
          exact known other named
        · cases now
    | addForward number => exact handedOut_cons _ (ih before given)
    | _ => exact ih before given

end

end Workshop

/-! ## Builders -/

namespace Builder

variable {b : Builder} {id : Nat}

/-- What a cell holds is the definition of its number. -/
theorem definition?_of_lt (inside : id < b.cells.length) : b.definition? id = b.cells[id] := by
  rw [definition?, List.getElem?_eq_getElem inside, Option.join_some]

/-- No cell of a builder is empty exactly if every number of it is defined. -/
theorem firstUndefined?_eq_none_iff :
    b.firstUndefined? = none ↔ ∀ id < b.cells.length, (b.definition? id).isSome := by
  rw [firstUndefined?, List.findIdx?_eq_none_iff, List.forall_mem_iff_getElem]
  refine forall₂_congr fun id inside => ?_
  rw [definition?_of_lt inside]
  simp

/-- The first empty cell is that of the lowest number that is not defined. -/
theorem firstUndefined?_eq_some_iff : b.firstUndefined? = some id ↔
    id < b.cells.length ∧ b.definition? id = none ∧ ∀ lower < id, (b.definition? lower).isSome := by
  rw [firstUndefined?, List.findIdx?_eq_some_iff_getElem]
  constructor
  · rintro ⟨inside, undefined, least⟩
    refine ⟨inside, ?_, fun lower lt => ?_⟩
    · rw [definition?_of_lt inside]
      simpa using undefined
    · rw [definition?_of_lt (Nat.lt_trans lt inside)]
      simpa [Option.isSome_iff_ne_none] using least lower lt
  · rintro ⟨inside, undefined, least⟩
    refine ⟨inside, ?_, fun lower lt => ?_⟩
    · rw [definition?_of_lt inside] at undefined
      simpa using undefined
    · have defined := least lower lt
      rw [definition?_of_lt (Nat.lt_trans lt inside)] at defined
      simpa [Option.isSome_iff_ne_none] using defined

/-- Handing out a forward defines nothing. -/
theorem definition?_addForward (b : Builder) (id : Nat) :
    b.addForward.2.definition? id = b.definition? id := by
  simp only [definition?, addForward]
  rcases Nat.lt_trichotomy id b.cells.length with inside | rfl | outside
  · rw [List.getElem?_append_left inside]
  · rw [List.getElem?_concat_length, List.getElem?_eq_none le_rfl]
    rfl
  · have after : (b.cells ++ [none]).length ≤ id := by
      rw [List.length_append, List.length_singleton]
      omega
    rw [List.getElem?_eq_none after, List.getElem?_eq_none outside.le]

/-- A definition is added to those that there are. -/
theorem definition?_set (inside : id < b.cells.length) (undefined : b.definition? id = none)
    (rule : Rule) (other : Nat) :
    { b with cells := b.cells.set id (some rule) }.definition? other =
      (b.definition? other).or (if id = other then some rule else none) := by
  simp only [definition?] at undefined ⊢
  by_cases same : id = other
  · subst same
    rw [List.getElem?_set_self inside, if_pos rfl, undefined]
    rfl
  · rw [List.getElem?_set_ne same, if_neg same, Option.or_none]

end Builder

/-! ## What is kept of the steps -/

/-- The builder keeps what the steps handed out and defined under its number. -/
structure Builder.Reflects (steps : List Workshop.Step) (number : Nat) (b : Builder) : Prop where
  number_eq : b.number = number
  count : b.cells.length = (Workshop.handedOut steps).countP (·.builder = number)
  definitions : ∀ id, b.definition? id = Workshop.firstDefinition? ⟨number, id⟩ steps

namespace Builder.Reflects

open Workshop

variable {steps : List Workshop.Step} {number id : Nat} {b : Builder}

/-- A forward of the builder was handed out exactly if there is a cell for it. -/
theorem mem_handedOut_iff (kept : b.Reflects steps number) :
    ⟨number, id⟩ ∈ handedOut steps ↔ id < b.cells.length := by
  rw [mem_handedOut, kept.count]

/-- No cell is empty exactly if every forward that the steps handed out under this number was given
a rule. -/
theorem firstUndefined?_eq_none_iff (kept : b.Reflects steps number) :
    b.firstUndefined? = none ↔ ∀ target ∈ handedOut steps, target.builder = number →
      (firstDefinition? target steps).isSome := by
  simp only [Builder.firstUndefined?_eq_none_iff, kept.definitions, ← kept.mem_handedOut_iff]
  constructor
  · rintro defined target known rfl
    exact defined target.id known
  · exact fun defined id known => defined _ known rfl

/-- The first empty cell is that of the lowest forward that was handed out and never given a
rule. -/
theorem firstUndefined?_eq_some_iff (kept : b.Reflects steps number) :
    b.firstUndefined? = some id ↔ ⟨number, id⟩ ∈ handedOut steps ∧
      firstDefinition? ⟨number, id⟩ steps = none ∧
        ∀ lower < id, (firstDefinition? ⟨number, lower⟩ steps).isSome := by
  simp only [Builder.firstUndefined?_eq_some_iff, kept.definitions, kept.mem_handedOut_iff]

end Builder.Reflects

namespace Workshop

/-- The workshop keeps what the steps handed out and defined, and nothing is left to define in the
builder of a rule set. -/
structure Reflects (steps : List Step) (w : Workshop) : Prop where
  handles : w.handles.map (·.target) = handedOut steps
  builders : ∀ (number : Nat) (owned : OwnedBuilder), w.builders[number]? = some owned →
    owned.builder.Reflects steps number
  owners : ∀ target ∈ handedOut steps, target.builder < w.builders.length
  roots : ∀ (number : Nat) (set : OwnedSet), w.sets[number]? = some set →
    ∀ target ∈ set.root.forwards, target ∈ handedOut steps
  holders : ∀ (number : Nat) (set : OwnedSet), w.sets[number]? = some set →
    ∃ owned : OwnedBuilder, w.builders[set.builder]? = some owned ∧ owned.holder = .ruleSet number
  defined : ∀ (number : Nat) (set : OwnedSet), w.sets[number]? = some set →
    ∀ target ∈ handedOut steps, target.builder = set.builder →
      (firstDefinition? target steps).isSome

/-- A builder is open if it is there and nothing else holds it. -/
theorem openBuilder?_eq_some_iff {w : Workshop} {number : Nat} {owned : OwnedBuilder} :
    w.openBuilder? number = some owned ↔
      w.builders[number]? = some owned ∧ owned.holder = .builder := by
  rw [openBuilder?, Option.filter_eq_some_iff, beq_iff_eq]

/-! ## Finishing and defining, by what the builder holds -/

section

variable {w : Workshop} {number handle : Nat} {owned : OwnedBuilder} {target : Forward}

/-- If no cell is empty, finishing makes a rule set, which holds the builder from then on. -/
theorem finish_of_complete (here : w.openBuilder? number = some owned)
    (complete : owned.builder.firstUndefined? = none) (root : Rule) :
    w.finish number root = some (.ok w.sets.length,
      { w with
        builders := w.builders.set number { owned with holder := .ruleSet w.sets.length }
        sets := w.sets ++ [⟨number, root, true⟩] }) := by
  rw [Workshop.finish, here, Option.bind_eq_bind, Option.bind_some, Builder.finish, complete]
  rfl

/-- If some cell is empty, finishing names the first such number, and the builder is gone. -/
theorem finish_of_incomplete {id : Nat} (here : w.openBuilder? number = some owned)
    (undefined : owned.builder.firstUndefined? = some id) (root : Rule) :
    w.finish number root = some (.error (.unresolved id),
      { w with builders := w.builders.set number { owned with holder := .nobody } }) := by
  rw [Workshop.finish, here, Option.bind_eq_bind, Option.bind_some, Builder.finish, undefined]
  rfl

/-- A forward that has a rule is refused another one, and nothing changes. -/
theorem define_of_defined {first : Rule} (found : w.target? handle = some target)
    (here : w.builders[target.builder]? = some owned)
    (defined : owned.builder.definition? target.id = some first) (rule : Rule) :
    w.define handle rule = some (.error (.redefined target.id), w) := by
  rw [Workshop.define, found, Option.bind_eq_bind, Option.bind_some, here, Option.bind_eq_bind,
    Option.bind_some, Builder.define, defined]
  rfl

/-- A forward without a rule gets it. -/
theorem define_of_undefined (found : w.target? handle = some target)
    (here : w.builders[target.builder]? = some owned)
    (undefined : owned.builder.definition? target.id = none) (rule : Rule) :
    w.define handle rule = some (.ok (),
      { w with
        builders := w.builders.set target.builder
          { owned with
            builder := { owned.builder with
              cells := owned.builder.cells.set target.id (some rule) } } }) := by
  rw [Workshop.define, found, Option.bind_eq_bind, Option.bind_some, here, Option.bind_eq_bind,
    Option.bind_some, Builder.define, undefined]
  rfl

end

/-- What stands in a list with one entry replaced. -/
theorem getElem?_set_eq_some {α : Type} {l : List α} {i j : Nat} {a b : α}
    (found : (l.set i a)[j]? = some b) : i = j ∧ b = a ∨ i ≠ j ∧ l[j]? = some b := by
  rw [List.getElem?_set] at found
  split at found
  · next same =>
    split at found
    · exact .inl ⟨same, (Option.some.inj found).symm⟩
    · cases found
  · next other => exact .inr ⟨other, found⟩

namespace Reflects

variable {steps : List Step} {w w' : Workshop} {number : Nat} {owned : OwnedBuilder}

/-- The empty workshop keeps no steps. -/
theorem empty : Workshop.empty.Reflects [] where
  handles := rfl
  builders _ _ found := by cases found
  owners _ known := by cases known
  roots _ _ found := by cases found
  holders _ _ found := by cases found
  defined _ _ found := by cases found

/-- A step that hands out nothing and defines nothing new. -/
theorem cons (h : w.Reflects steps) {step : Step}
    (out : handedOut (step :: steps) = handedOut steps)
    (given : ∀ target, firstDefinition? target (step :: steps) = firstDefinition? target steps) :
    w.Reflects (step :: steps) where
  handles := h.handles.trans out.symm
  builders number owned found :=
    have kept := h.builders number owned found
    ⟨kept.number_eq, out ▸ kept.count, fun id => (kept.definitions id).trans (given _).symm⟩
  owners := out ▸ h.owners
  roots := out ▸ h.roots
  holders := h.holders
  defined number set found target known own := by
    rw [given]
    exact h.defined number set found target (out ▸ known) own

/-- The builder of a rule set is not in use any more. -/
theorem set_builder_ne (h : w.Reflects steps) (here : w.openBuilder? number = some owned)
    {k : Nat} {set : OwnedSet} (found : w.sets[k]? = some set) : number ≠ set.builder := by
  rintro rfl
  obtain ⟨inUse, held⟩ := openBuilder?_eq_some_iff.mp here
  obtain ⟨same, there, sealed⟩ := h.holders k set found
  rw [inUse] at there
  cases there
  rw [held] at sealed
  cases sealed

/-- Another holder for the forwards of a builder that is in use. -/
theorem setHolder (h : w.Reflects steps) (here : w.openBuilder? number = some owned)
    (holder : Holder) :
    { w with builders := w.builders.set number { owned with holder } }.Reflects steps where
  handles := h.handles
  builders other owned' found := by
    rcases getElem?_set_eq_some found with ⟨rfl, rfl⟩ | ⟨-, found⟩
    · exact h.builders number owned (openBuilder?_eq_some_iff.mp here).1
    · exact h.builders other owned' found
  owners target known := by
    rw [List.length_set]
    exact h.owners target known
  roots := h.roots
  holders k set found := by
    obtain ⟨owned', there, held⟩ := h.holders k set found
    exact ⟨owned', by rw [List.getElem?_set_ne (h.set_builder_ne here found), there], held⟩
  defined := h.defined

/-- Putting up a builder hands out nothing and defines nothing. -/
theorem newBuilder (h : w.Reflects steps) : w.newBuilder.2.Reflects steps where
  handles := h.handles
  builders number owned found := by
    rcases Nat.lt_trichotomy number w.builders.length with inside | rfl | outside
    · exact h.builders number owned (by rwa [← List.getElem?_append_left inside])
    · -- nothing was handed out under the number of the new builder
      have unknown : ∀ target ∈ handedOut steps, target.builder ≠ w.builders.length :=
        fun target known => Nat.ne_of_lt (h.owners target known)
      rw [Workshop.newBuilder, List.getElem?_append_right (Nat.le_refl _), Nat.sub_self] at found
      cases found
      refine ⟨rfl, Eq.symm ?_, fun id => ?_⟩
      · rw [Builder.new, List.length_nil, List.countP_eq_zero]
        simpa using unknown
      · cases given : firstDefinition? ⟨w.builders.length, id⟩ steps with
        | none => rfl
        | some rule => exact absurd rfl (unknown _ (mem_of_firstDefinition? given))
    · rw [Workshop.newBuilder, List.getElem?_eq_none (by simp; omega)] at found
      cases found
  owners target known := by
    rw [Workshop.newBuilder, List.length_append]
    exact Nat.lt_add_right 1 (h.owners target known)
  roots := h.roots
  holders k set found := by
    obtain ⟨owned, there, held⟩ := h.holders k set found
    have inside := (List.getElem?_eq_some_iff.mp there).1
    exact ⟨owned, (List.getElem?_append_left inside).trans there, held⟩
  defined := h.defined

/-- What is done to a builder leaves its holder as it is. -/
theorem holders_set (h : w.Reflects steps) (here : w.builders[number]? = some owned)
    {owned' : OwnedBuilder} (same : owned'.holder = owned.holder) (k : Nat) (set : OwnedSet)
    (found : w.sets[k]? = some set) : ∃ other : OwnedBuilder,
      (w.builders.set number owned')[set.builder]? = some other ∧ other.holder = .ruleSet k := by
  obtain ⟨other, there, held⟩ := h.holders k set found
  by_cases own : number = set.builder
  · subst own
    rw [here] at there
    cases there
    have inside := (List.getElem?_eq_some_iff.mp here).1
    exact ⟨owned', List.getElem?_set_self inside, same.trans held⟩
  · exact ⟨other, by rw [List.getElem?_set_ne own, there], held⟩

/-- Handing out a forward adds one cell to its builder, under the number that comes next. -/
theorem addForward (h : w.Reflects steps) {target : Forward}
    (done : w.addForward number = some (target, w')) :
    w'.Reflects (.addForward number :: steps) := by
  obtain ⟨owned, here, done⟩ := Option.bind_eq_some_iff.mp done
  have inUse := (openBuilder?_eq_some_iff.mp here).1
  have kept := h.builders number owned inUse
  cases done
  have new : (⟨owned.builder.number, owned.builder.cells.length⟩ : Forward) =
      ⟨number, (handedOut steps).countP (·.builder = number)⟩ := by
    rw [kept.number_eq, kept.count]
  have out : handedOut (.addForward number :: steps) =
      handedOut steps ++ [⟨owned.builder.number, owned.builder.cells.length⟩] := by
    rw [new, handedOut]
  refine ⟨?_, fun other owned' found => ?_, fun target known => ?_,
    fun k set found target named => ?_, h.holders_set inUse rfl,
    fun k set found target known own => ?_⟩
  · rw [out, List.map_append, h.handles]
    rfl
  -- the other builders keep their counts, since the new forward is none of theirs
  · rcases getElem?_set_eq_some found with ⟨rfl, rfl⟩ | ⟨other, found⟩
    · refine ⟨kept.number_eq, ?_, fun id => ?_⟩
      · simp [out, kept.count, kept.number_eq]
      · exact (owned.builder.definition?_addForward id).trans (kept.definitions id)
    · have kept' := h.builders _ owned' found
      refine ⟨kept'.number_eq, ?_, kept'.definitions⟩
      simp [out, kept'.count, kept.number_eq, other]
  · rw [List.length_set]
    rw [out, List.mem_append, List.mem_singleton] at known
    rcases known with known | rfl
    · exact h.owners target known
    · rw [kept.number_eq]
      exact (List.getElem?_eq_some_iff.mp inUse).1
  · exact handedOut_cons _ (h.roots k set found target named)
  · rw [out, List.mem_append, List.mem_singleton] at known
    rcases known with known | rfl
    · exact h.defined k set found target known own
    · rw [kept.number_eq] at own
      exact absurd own (h.set_builder_ne here found)

/-- Handles are numbered in the order in which the forwards are handed out. -/
theorem getElem?_handedOut (h : w.Reflects steps) {handle : Nat} {target : Forward}
    (found : w.target? handle = some target) : (handedOut steps)[handle]? = some target := by
  rw [target?, Option.map_eq_some_iff] at found
  obtain ⟨entry, found, rfl⟩ := found
  rw [← h.handles, List.getElem?_map, (Option.filter_eq_some_iff.mp found).1, Option.map_some]

/-- Defining a forward enters the rule if it is the first one, and changes nothing otherwise. Either
way the workshop keeps what the steps gave first. -/
theorem define (h : w.Reflects steps) {handle : Nat} {rule : Rule}
    {outcome : Except GrammarError Unit} (done : w.define handle rule = some (outcome, w')) :
    w'.Reflects (.define handle rule :: steps) := by
  obtain ⟨target, found, inner⟩ := Option.bind_eq_some_iff.mp done
  obtain ⟨owned, here, -⟩ := Option.bind_eq_some_iff.mp inner
  have handed := h.getElem?_handedOut found
  have kept := h.builders target.builder owned here
  -- what the step says of each forward
  have given (other : Forward) : firstDefinition? other (.define handle rule :: steps) =
      (firstDefinition? other steps).or (if target = other then some rule else none) := by
    simp only [firstDefinition?, handed, Option.some_inj]
  cases definition : owned.builder.definition? target.id with
  | some first =>
    rw [define_of_defined found here definition rule] at done
    cases done
    rw [kept.definitions] at definition
    refine h.cons rfl fun other => ?_
    rw [given]
    split
    · next same => rw [← same, definition, Option.some_or]
    · rw [Option.or_none]
  | none =>
    rw [define_of_undefined found here definition rule] at done
    cases done
    have inside := kept.mem_handedOut_iff.mp (List.mem_of_getElem? handed)
    refine ⟨h.handles, fun other owned' found => ?_, fun target known => ?_, h.roots,
      h.holders_set here rfl, fun k set found other known own => ?_⟩
    · rcases getElem?_set_eq_some found with ⟨rfl, rfl⟩ | ⟨apart, found⟩
      · refine ⟨kept.number_eq, List.length_set.trans kept.count, fun id => ?_⟩
        rw [Builder.definition?_set inside definition, given, kept.definitions]
        cases target
        simp
      · have kept' := h.builders other owned' found
        refine ⟨kept'.number_eq, kept'.count, fun id => ?_⟩
        have another : target ≠ ⟨other, id⟩ := by
          rintro rfl
          exact apart rfl
        rw [given, if_neg another, Option.or_none, kept'.definitions]
    · rw [List.length_set]
      exact h.owners target known
    · obtain ⟨first, before⟩ := Option.isSome_iff_exists.mp (h.defined k set found other known own)
      rw [firstDefinition?_cons _ before]
      rfl

/-- A new rule set whose builder has nothing left to define. -/
theorem addSet (h : w.Reflects steps) {set : OwnedSet}
    (roots : ∀ target ∈ set.root.forwards, target ∈ handedOut steps)
    (held : ∃ owned : OwnedBuilder,
      w.builders[set.builder]? = some owned ∧ owned.holder = .ruleSet w.sets.length)
    (defined : ∀ target ∈ handedOut steps, target.builder = set.builder →
      (firstDefinition? target steps).isSome) :
    { w with sets := w.sets ++ [set] }.Reflects steps := by
  have each {k : Nat} {other : OwnedSet} (found : (w.sets ++ [set])[k]? = some other) :
      w.sets[k]? = some other ∨ k = w.sets.length ∧ other = set := by
    rw [List.getElem?_append] at found
    split at found
    · exact .inl found
    · obtain ⟨inside, rfl⟩ := List.getElem?_eq_some_iff.mp found
      rw [List.length_singleton] at inside
      exact .inr ⟨by omega, List.getElem_singleton inside⟩
  refine ⟨h.handles, h.builders, h.owners, fun k other found => ?_, fun k other found => ?_,
    fun k other found => ?_⟩
  · rcases each found with found | ⟨-, rfl⟩
    · exact h.roots k other found
    · exact roots
  · rcases each found with found | ⟨rfl, rfl⟩
    · exact h.holders k other found
    · exact held
  · rcases each found with found | ⟨-, rfl⟩
    · exact h.defined k other found
    · exact defined

/-- Finishing changes only who holds the builder; if it succeeds, nothing is left to define in
it. -/
theorem finish (h : w.Reflects steps) {root : Rule} {outcome : Except GrammarError Nat}
    (known : ∀ target ∈ root.forwards, target ∈ handedOut steps)
    (done : w.finish number root = some (outcome, w')) : w'.Reflects steps := by
  obtain ⟨owned, here, -⟩ := Option.bind_eq_some_iff.mp done
  have inUse := (openBuilder?_eq_some_iff.mp here).1
  cases undefined : owned.builder.firstUndefined? with
  | some id =>
    rw [finish_of_incomplete here undefined root] at done
    cases done
    exact h.setHolder here .nobody
  | none =>
    rw [finish_of_complete here undefined root] at done
    cases done
    have inside := (List.getElem?_eq_some_iff.mp inUse).1
    refine (h.setHolder here (.ruleSet w.sets.length)).addSet known
      ⟨_, List.getElem?_set_self inside, rfl⟩ ?_
    exact (h.builders number owned inUse).firstUndefined?_eq_none_iff.mp undefined

/-- Dropping a builder changes only who holds it. -/
theorem dropBuilder (h : w.Reflects steps) (done : w.dropBuilder number = some w') :
    w'.Reflects steps := by
  obtain ⟨owned, here, done⟩ := Option.bind_eq_some_iff.mp done
  split at done
  · next held =>
    cases done
    exact h.setHolder (openBuilder?_eq_some_iff.mpr ⟨here, held⟩) .nobody
  · cases done
    exact h

/-- Dropping a handle changes nothing that was handed out or defined. -/
theorem dropHandle (h : w.Reflects steps) (done : w.dropHandle number = some w') :
    w'.Reflects steps := by
  obtain ⟨handle, here, done⟩ := Option.bind_eq_some_iff.mp done
  cases done
  refine ⟨?_, h.builders, h.owners, h.roots, h.holders, h.defined⟩
  obtain ⟨inside, rfl⟩ := List.getElem?_eq_some_iff.mp here
  rw [← h.handles, List.map_set]
  have inside' : number < (w.handles.map (·.target)).length := by rwa [List.length_map]
  have same : w.handles[number].target = (w.handles.map (·.target))[number] :=
    (List.getElem_map _).symm
  simp only [same, List.set_getElem_self]

/-- Dropping a rule set takes nothing from its builder. -/
theorem dropSet (h : w.Reflects steps) (done : w.dropSet number = some w') :
    w'.Reflects steps := by
  obtain ⟨set, here, done⟩ := Option.bind_eq_some_iff.mp done
  cases done
  -- whatever is dropped keeps its builder and its root
  have each {k : Nat} {other : OwnedSet}
      (found : (w.sets.set number { set with held := false })[k]? = some other) :
      ∃ before, w.sets[k]? = some before ∧ other.builder = before.builder ∧
        other.root = before.root := by
    rcases getElem?_set_eq_some found with ⟨rfl, rfl⟩ | ⟨-, found⟩
    · exact ⟨set, here, rfl, rfl⟩
    · exact ⟨other, found, rfl, rfl⟩
  refine ⟨h.handles, h.builders, h.owners, fun k other found => ?_, fun k other found => ?_,
    fun k other found => ?_⟩
  · obtain ⟨before, found, -, root⟩ := each found
    rw [root]
    exact h.roots k before found
  · obtain ⟨before, found, builder, -⟩ := each found
    rw [builder]
    exact h.holders k before found
  · obtain ⟨before, found, builder, -⟩ := each found
    rw [builder]
    exact h.defined k before found

/-- One step after the other. -/
theorem perform (h : w.Reflects steps) {step : Step}
    (known : ∀ target ∈ step.forwards, target ∈ handedOut steps)
    (done : w.perform step = some w') : w'.Reflects (step :: steps) := by
  cases step with
  | newBuilder =>
    cases done
    exact h.newBuilder.cons rfl fun _ => rfl
  | addForward number =>
    obtain ⟨⟨target, _⟩, answer, rfl⟩ := Option.map_eq_some_iff.mp done
    exact h.addForward answer
  | define handle rule =>
    obtain ⟨⟨outcome, _⟩, answer, rfl⟩ := Option.map_eq_some_iff.mp done
    exact h.define answer
  | finish number root =>
    obtain ⟨⟨outcome, _⟩, answer, rfl⟩ := Option.map_eq_some_iff.mp done
    exact (h.finish known answer).cons rfl fun _ => rfl
  | dropBuilder number => exact (h.dropBuilder done).cons rfl fun _ => rfl
  | dropHandle number => exact (h.dropHandle done).cons rfl fun _ => rfl
  | dropSet number => exact (h.dropSet done).cons rfl fun _ => rfl

end Reflects

/-- Whatever the steps are, the workshop they lead to keeps what they handed out and defined. -/
theorem reflects_of_after? {steps : List Step} {w : Workshop} (made : after? steps = some w) :
    w.Reflects steps := by
  induction steps generalizing w with
  | nil =>
    cases made
    exact .empty
  | cons step steps ih =>
    obtain ⟨w, before, known, done⟩ := after?_cons made
    exact (ih before).perform known done

end Workshop

end ClosureLang
