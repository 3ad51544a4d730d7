import ClosureLang.Proofs.Rule.Everywhere
import ClosureLang.Proofs.Rule.History

/-!
# Finished rule sets

A builder is finished when every forward that it handed out was defined, and what a forward stands
for is the rule that was given for it first. A rule set holds all forwards of its builder. So as
long as its rules keep to these, every forward that reading comes to is defined, and reading fails
only for the tokens: because no rule matches them, or because an action fails. Whatever is dropped
besides the rule set itself changes nothing about that.

Two accounts meet here. The first one is about computations: `HaltsByAction` says that a computation
ends without an answer only because an action failed or the fuel ran out, and it goes through
everything that rules are put together of, as long as each forward that a rule can come to is
defined. The second one is the history of the workshop, which knows which forwards were handed out,
and which of them have a rule.

They meet in what it takes for a forward to stand for something: that it has a rule, and that
somebody holds it. For the forwards of a rule set the set itself does (`isHeld_of_set?`), so nothing
depends on the handles. A forward of another builder may be named as well; if its handle and its
builder are gone it stands for nothing, and reading reports that. This is why the last statements
ask that the rules keep to one builder.
-/

set_option autoImplicit false

namespace ClosureLang

/-- Matching ended because an action failed, or for lack of fuel. -/
def Halt.ByAction (halt : Halt) : Prop :=
  halt = .outOfFuel ∨ ∃ position span cause, halt = .failed (.action position span cause)

namespace Matching

variable {α : Type}

/-- The computation ends without an answer only because an action failed, or for lack of fuel. -/
def HaltsByAction (x : Matching α) : Prop := ∀ s halt s', x s = .error halt s' → halt.ByAction

namespace HaltsByAction

/-- A computation that always answers. -/
theorem of_ok {x : Matching α} (answers : ∀ s, ∃ a s', x s = .ok a s') : HaltsByAction x := by
  intro s halt s' run
  obtain ⟨a, s₁, answer⟩ := answers s
  rw [answer] at run
  cases run

/-- A computation that halts for a reason of the sort halts so. -/
theorem throw {halt : Halt} (sort : halt.ByAction) : HaltsByAction (throw halt : Matching α) := by
  intro s halt' s' run
  cases run
  exact sort

/-- A computation that answers does not halt. -/
theorem pure (a : α) : HaltsByAction (Pure.pure a) := of_ok fun s => ⟨a, s, rfl⟩

/-- Compositions halt so if their parts do. -/
theorem bind {β : Type} {x : Matching α} {f : α → Matching β} (first : HaltsByAction x)
    (later : ∀ a, HaltsByAction (f a)) : HaltsByAction (x >>= f) := by
  intro s halt s' run
  cases answer : x s with
  | ok a s₁ =>
    rw [bind_run_of_ok answer] at run
    exact later a s₁ halt s' run
  | error halt' s₁ =>
    rw [bind_run_of_error answer] at run
    cases run
    exact first s halt s' answer

/-- Looking up a place does not halt. -/
theorem remembered? (place : Place) : HaltsByAction (remembered? place) :=
  of_ok fun s => ⟨_, s, rfl⟩

/-- Remembering does not halt. -/
theorem remember (place : Place) (memo : Memo) : HaltsByAction (remember place memo) :=
  of_ok fun _ => ⟨(), _, rfl⟩

/-- That only actions halt passes to rules from the rules they are made of. -/
theorem remembering : Remembering id fun {_} x _ => HaltsByAction x where
  outOfFuel _ := throw (.inl rfl)
  pure := pure
  bind := bind
  remembered? := remembered?
  remember := remember
  plant _ _ := of_ok fun _ => ⟨(), _, rfl⟩

end HaltsByAction

/-- An action halts for its own error only. -/
theorem map_haltsByAction (tokens : Array Token) (found : Option Match) (action : Action)
    (pos : Nat) : HaltsByAction (map tokens found action pos) := by
  unfold map
  split
  · exact .pure none
  · split
    · exact .pure _
    · exact .throw (.inr ⟨_, _, _, rfl⟩)

/-- A forward that is defined, and whose body ends without an answer in this way only. -/
theorem forward_haltsByAction {definitions : Definitions}
    {attempt : Rule → Nat → Matching (Option Match)} {target : Forward} {body : Rule}
    (defined : definitions target = some body) (each : ∀ pos, HaltsByAction (attempt body pos))
    (fuel pos : Nat) : HaltsByAction (forward definitions attempt fuel target pos) := by
  unfold forward
  refine .bind (.remembered? _) fun found => ?_
  match found with
  | some (.pending _) => exact .bind (.remember _ _) fun _ => .pure none
  | some (.resolved result) => exact .pure result
  | none =>
    simp only [defined]
    exact @Remembering.enter id _ HaltsByAction.remembering _ (attempt body pos) fuel fuel
      (each pos) (Nat.le_refl fuel) ⟨target.id, pos⟩

end Matching

/-- If all forwards that a rule can come to are defined, it ends without an answer only because an
action failed, or for lack of fuel. -/
theorem Rule.match?_haltsByAction {definitions : Definitions} {named : Forward → Prop}
    (closed : ∀ target, named target → ∃ body, definitions target = some body ∧
      ∀ other ∈ body.forwards, named other)
    (tokens : Array Token) (fuel : Nat) (rule : Rule) (all : ∀ target ∈ rule.forwards, named target)
    (pos : Nat) : Matching.HaltsByAction (rule.match? definitions tokens fuel pos) := by
  refine match?_satisfies named Matching.HaltsByAction.remembering.toCompositional
    (fun _ _ => .of_ok fun _ => ⟨_, _, rfl⟩) (Matching.map_haltsByAction tokens)
    (fun fuel target known each pos => ?_) fuel rule all pos
  obtain ⟨body, defined, inside⟩ := closed target known
  exact Matching.forward_haltsByAction defined (each body inside) fuel pos

/-- If all forwards that the root can come to are defined, reading fails only because no rule
matches the tokens, or because an action fails. -/
theorem readAll_failure {definitions : Definitions} {named : Forward → Prop}
    (closed : ∀ target, named target → ∃ body, definitions target = some body ∧
      ∀ other ∈ body.forwards, named other)
    {root : Rule} (all : ∀ target ∈ root.forwards, named target) {fuel : Nat} {tokens : List Token}
    {error : ParseError}
    (fails : readAll definitions fuel root tokens = .error (.failed error)) :
    (∃ position found span, error = .unexpected position found span) ∨
      ∃ position span cause, error = .action position span cause := by
  unfold readAll at fails
  cases run : root.match? definitions tokens.toArray fuel 0 .start with
  | error halt s =>
    rw [run] at fails
    cases fails
    have sort := Rule.match?_haltsByAction closed tokens.toArray fuel root all 0 .start _ s run
    rcases sort with starved | ⟨position, span, cause, same⟩
    · cases starved
    · cases same
      exact .inr ⟨position, span, cause, rfl⟩
  | ok found s =>
    rw [run] at fails
    left
    cases found with
    | none =>
      cases fails
      exact ⟨_, _, _, rfl⟩
    | some m =>
      simp only at fails
      split at fails
      · cases fails
      · cases fails
        exact ⟨_, _, _, rfl⟩

namespace Workshop

variable {steps : List Step} {w : Workshop}

namespace Reflects

/-- A forward that somebody holds stands for the rule that was given for it first. -/
theorem definition?_eq (h : w.Reflects steps) {target : Forward} (held : w.isHeld target = true) :
    w.definition? target = firstDefinition? target steps := by
  rw [definition?, if_pos held]
  cases found : w.builders[target.builder]? with
  | some owned =>
    rw [Option.bind_some, (h.builders target.builder owned found).definitions]
  | none =>
    rw [Option.bind_none]
    cases given : firstDefinition? target steps with
    | none => rfl
    | some rule =>
      have inside := h.owners target (mem_of_firstDefinition? given)
      exact absurd inside (Nat.not_lt.mpr (List.getElem?_eq_none_iff.mp found))

/-- A handle holds its forward. -/
theorem isHeld_of_target? {handle : Nat} {target : Forward}
    (found : w.target? handle = some target) : w.isHeld target = true := by
  rw [target?, Option.map_eq_some_iff] at found
  obtain ⟨entry, found, rfl⟩ := found
  obtain ⟨found, held⟩ := Option.filter_eq_some_iff.mp found
  rw [isHeld, Bool.or_eq_true, List.any_eq_true]
  exact .inr ⟨entry, List.mem_of_getElem? found, by simp [held]⟩

/-- A rule set holds the forwards of its builder. -/
theorem isHeld_of_set? (h : w.Reflects steps) {number : Nat} {set : OwnedSet}
    (found : w.set? number = some set) {target : Forward} (own : target.builder = set.builder) :
    w.isHeld target = true := by
  obtain ⟨found, held⟩ := Option.filter_eq_some_iff.mp found
  obtain ⟨owned, there, holder⟩ := h.holders number set found
  rw [isHeld, own, there, Bool.or_eq_true]
  left
  simp [holder, holds, found, held]

/-- A builder that is in use can be finished if all its forwards are defined. Otherwise the lowest
one that is not is reported. -/
theorem finish_outcome (h : w.Reflects steps) {number : Nat}
    (inUse : (w.openBuilder? number).isSome) (root : Rule) :
    ∃ outcome w', w.finish number root = some (outcome, w') ∧
      ((∃ set, outcome = .ok set) ↔ ∀ target ∈ handedOut steps, target.builder = number →
        (firstDefinition? target steps).isSome) ∧
      ∀ error, outcome = .error error → ∃ id, error = .unresolved id ∧
        ⟨number, id⟩ ∈ handedOut steps ∧ firstDefinition? ⟨number, id⟩ steps = none ∧
          ∀ lower < id, (firstDefinition? ⟨number, lower⟩ steps).isSome := by
  obtain ⟨owned, here⟩ := Option.isSome_iff_exists.mp inUse
  have kept := h.builders number owned (openBuilder?_eq_some_iff.mp here).1
  cases undefined : owned.builder.firstUndefined? with
  | none =>
    have complete := kept.firstUndefined?_eq_none_iff.mp undefined
    exact ⟨_, _, finish_of_complete here undefined root, iff_of_true ⟨_, rfl⟩ complete, nofun⟩
  | some id =>
    have done := finish_of_incomplete here undefined root
    refine ⟨_, _, done, iff_of_false nofun fun complete => ?_, ?_⟩
    · rw [kept.firstUndefined?_eq_none_iff.mpr complete] at undefined
      cases undefined
    · rintro _ ⟨⟩
      exact ⟨id, rfl, kept.firstUndefined?_eq_some_iff.mp undefined⟩

/-- The forward of a handle can be defined once. A second definition changes nothing. -/
theorem define_outcome (h : w.Reflects steps) {handle : Nat} {target : Forward}
    (found : w.target? handle = some target) (rule : Rule) :
    match firstDefinition? target steps with
    | some _ => w.define handle rule = some (.error (.redefined target.id), w)
    | none => ∃ w', w.define handle rule = some (.ok (), w') ∧
        w'.definition? target = some rule := by
  have handed := h.getElem?_handedOut found
  have inside := h.owners target (List.mem_of_getElem? handed)
  have here : w.builders[target.builder]? = some w.builders[target.builder] :=
    List.getElem?_eq_getElem inside
  have definition := (h.builders target.builder _ here).definitions target.id
  split
  · next first given =>
    rw [given] at definition
    exact define_of_defined found here definition rule
  · next given =>
    rw [given] at definition
    have done := define_of_undefined found here definition rule
    refine ⟨_, done, ?_⟩
    rw [(h.define done).definition?_eq (isHeld_of_target? found), firstDefinition?, given, handed,
      if_pos rfl, Option.none_or]

/-- Reading by a rule set whose rules keep to the forwards of its builder fails only for the
tokens. -/
theorem readAll_failure (h : w.Reflects steps) (made : after? steps = some w) {number : Nat}
    {set : OwnedSet} (found : w.set? number = some set) (root : set.root.OfBuilder set.builder)
    (own : w.definition?.OfBuilder set.builder) {fuel : Nat} {tokens : List Token}
    {error : ParseError}
    (fails : readAll w.definition? fuel set.root tokens = .error (.failed error)) :
    (∃ position found span, error = .unexpected position found span) ∨
      ∃ position span cause, error = .action position span cause := by
  have there := (Option.filter_eq_some_iff.mp found).1
  let named (target : Forward) : Prop := target ∈ handedOut steps ∧ target.builder = set.builder
  refine ClosureLang.readAll_failure (fun target ⟨known, mine⟩ => ?_)
    (fun target inside => (⟨h.roots number set there target inside, root target inside⟩ :
      named target)) fails
  obtain ⟨body, given⟩ := Option.isSome_iff_exists.mp (h.defined number set there target known mine)
  have defined : w.definition? target = some body :=
    (h.definition?_eq (h.isHeld_of_set? found mine)).trans given
  exact ⟨body, defined, fun other inside =>
    ⟨mem_of_named made given inside, own target body defined mine other inside⟩⟩

end Reflects

/-- Grammars hold together, whatever the steps are that lead to a workshop and in whatever order
they are made. A builder can be finished if and only if every forward that it handed out was
defined, and otherwise the lowest one that was not is reported. A forward stands for the rule that
was given for it first, as long as somebody holds it, and a second definition is refused and changes
nothing. A rule set that still exists, and whose rules keep to the forwards of its builder, can be
used on every token list, and with whatever fuel it fails only because no rule matches or because an
action fails. -/
theorem grammars_holdTogether (made : after? steps = some w) :
    (∀ number root, (w.openBuilder? number).isSome →
      ∃ outcome w', w.finish number root = some (outcome, w') ∧
        ((∃ set, outcome = .ok set) ↔ ∀ target ∈ handedOut steps, target.builder = number →
          (firstDefinition? target steps).isSome) ∧
        ∀ error, outcome = .error error → ∃ id, error = .unresolved id ∧
          ⟨number, id⟩ ∈ handedOut steps ∧ firstDefinition? ⟨number, id⟩ steps = none ∧
            ∀ lower < id, (firstDefinition? ⟨number, lower⟩ steps).isSome) ∧
    (∀ target, w.isHeld target = true → w.definition? target = firstDefinition? target steps) ∧
    (∀ handle target rule, w.target? handle = some target →
      w.isHeld target = true ∧
      match firstDefinition? target steps with
      | some _ => w.define handle rule = some (.error (.redefined target.id), w)
      | none => ∃ w', w.define handle rule = some (.ok (), w') ∧
          w'.definition? target = some rule) ∧
    ∀ number set, w.set? number = some set → set.root.OfBuilder set.builder →
      w.definition?.OfBuilder set.builder → ∀ tokens,
        w.read number tokens =
            some (readAll w.definition? (w.fuel [set.root] tokens.length) set.root tokens) ∧
          ∀ fuel error, readAll w.definition? fuel set.root tokens = .error (.failed error) →
            (∃ position found span, error = .unexpected position found span) ∨
              ∃ position span cause, error = .action position span cause := by
  have h := reflects_of_after? made
  refine ⟨fun number root inUse => h.finish_outcome inUse root,
    fun target held => h.definition?_eq held,
    fun handle target rule found => ⟨Reflects.isHeld_of_target? found, h.define_outcome found rule⟩,
    fun number set found root own tokens => ⟨?_, fun fuel error fails => ?_⟩⟩
  · rw [read, found]
    rfl
  · exact h.readAll_failure made found root own fails

/-- Two builders, in the order of time: the first one's forwards stand for paths and for their
names, the second one's forward is left undefined. Paths are defined twice, of which the second time
fails, the rule set is made, and the handle of the paths is dropped. -/
def pathSteps : List Step :=
  [.newBuilder, .newBuilder, .addForward 0, .addForward 0, .addForward 1,
    .define 0 (.alternation [
      .sequence [.forward ⟨0, 0⟩, .terminal .dot, .forward ⟨0, 1⟩], .forward ⟨0, 1⟩]),
    .define 1 (.terminal .word), .define 0 (.terminal .dot), .finish 0 (.forward ⟨0, 0⟩),
    .dropHandle 0].reverse

/-- What these steps lead to. -/
def pathWorkshop : Workshop where
  builders := [⟨⟨0, [
    some (.alternation [
      .sequence [.forward ⟨0, 0⟩, .terminal .dot, .forward ⟨0, 1⟩], .forward ⟨0, 1⟩]),
    some (.terminal .word)]⟩, .ruleSet 0⟩, ⟨⟨1, [none]⟩, .builder⟩]
  handles := [⟨⟨0, 0⟩, false⟩, ⟨⟨0, 1⟩, true⟩, ⟨⟨1, 0⟩, true⟩]
  sets := [⟨0, .forward ⟨0, 0⟩, true⟩]

/-- The rules of the paths keep to the forwards of the first builder. -/
theorem pathWorkshop_ofBuilder : pathWorkshop.definition?.OfBuilder 0 := by
  rintro ⟨builder, id⟩ body found rfl
  match id, found with
  | 0, found => cases found; decide
  | 1, found => cases found; decide
  | id + 2, found => cases found

/-- In the workshop of the paths: the builder with the undefined forward cannot be finished,
defining the names a second time is refused and they still stand for a word, and the rule set fails
on a dot because no rule matches there. -/
theorem pathWorkshop_holdsTogether :
    let error : ParseError := .unexpected 0 (some .dot) (some ⟨0, 1⟩)
    after? pathSteps = some pathWorkshop ∧
    (∃ w', pathWorkshop.finish 1 (.forward ⟨1, 0⟩) = some (.error (.unresolved 0), w')) ∧
    pathWorkshop.define 1 (.terminal .dot) = some (.error (.redefined 1), pathWorkshop) ∧
    pathWorkshop.definition? ⟨0, 1⟩ = some (.terminal .word) ∧
    pathWorkshop.read 0 [⟨.dot, .none, ⟨0, 1⟩⟩] = some (.error (.failed error)) ∧
    ((∃ position found span, error = .unexpected position found span) ∨
      ∃ position span cause, error = .action position span cause) := by
  intro error
  have made : after? pathSteps = some pathWorkshop := rfl
  obtain ⟨finishes, stands, defines, reads⟩ := grammars_holdTogether made
  obtain ⟨held, redefined⟩ := defines 1 ⟨0, 1⟩ (.terminal .dot) rfl
  obtain ⟨read, fails⟩ := reads 0 ⟨0, .forward ⟨0, 0⟩, true⟩ rfl (by decide) pathWorkshop_ofBuilder
    [⟨.dot, .none, ⟨0, 1⟩⟩]
  have failed := fails (pathWorkshop.fuel [.forward ⟨0, 0⟩] 1) error rfl
  refine ⟨made, ?_, redefined, stands ⟨0, 1⟩ held, read, failed⟩
  obtain ⟨outcome, w', done, complete, incomplete⟩ := finishes 1 (.forward ⟨1, 0⟩) rfl
  cases outcome with
  | ok set => exact absurd (complete.mp ⟨set, rfl⟩ ⟨1, 0⟩ (by decide) rfl) (by decide)
  | error e =>
    obtain ⟨id, rfl, known, -⟩ := incomplete e rfl
    have known : (⟨1, id⟩ : Forward) ∈ [⟨0, 0⟩, ⟨0, 1⟩, ⟨1, 0⟩] := known
    have least : id = 0 := by simpa using known
    exact ⟨w', least ▸ done⟩

end Workshop

end ClosureLang
