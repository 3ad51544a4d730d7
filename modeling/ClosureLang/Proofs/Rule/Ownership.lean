import Mathlib.Data.Nat.Pairing
import ClosureLang.Proofs.Rule.Everywhere
import ClosureLang.Proofs.Rule.Numbering
import ClosureLang.Proofs.Rule.Reading

/-!
# Results and their owners

A result is remembered for the forward that owns the number, and it is what the definition of that
forward came to: at that position, and from results of which the same is true. As long as every
number has one owner this holds whatever is tried, and in whatever order, whether it ends with an
answer or fails. So a forward comes to what its own definition comes to, and one that stands for
nothing always fails for that reason.

Nothing is said here about left recursion or about evaluation without memory. What a forward came to
may well depend on what was remembered when it was tried; `Forward.ComesTo` is an inductive notion
for that reason. It says that the definition of the forward comes to an outcome from some progress,
in which every result in turn is one that the definition of its owner came to. `MemoTable.Earned` is
the invariant: all results are so, and only forwards that stand for something are marked.

Builders number their forwards independently of each other, so forwards of two builders may have the
same number, and then they share what is remembered. The module ends with both sides of this: with
numbers that are not shared every forward behaves as if it had a memory of its own, and with numbers
that are shared a forward answers with what the other one matched.
-/

set_option autoImplicit false

namespace ClosureLang

namespace Matching

variable {α β : Type}

/-- The outcome of a computation, without its progress. -/
def outcome : EStateM.Result Halt Progress α → Except Halt α
  | .ok a _ => .ok a
  | .error halt _ => .error halt

/-- Changing the progress of an outcome leaves the outcome. -/
theorem outcome_mapProgress (g : Progress → Progress) (r : EStateM.Result Halt Progress α) :
    outcome (mapProgress g r) = outcome r := by
  cases r <;> rfl

/-- The progress that a computation made, whether it answers or fails. -/
def progress : EStateM.Result Halt Progress α → Progress
  | .ok _ s => s
  | .error _ s => s

/-- What is remembered satisfies `kept` afterwards if it did before, and the outcome then satisfies
the postcondition. -/
def Keeps (kept : MemoTable → Prop) (x : Matching α) (post : Except Halt α → Prop) : Prop :=
  ∀ s, kept s.memo → kept (progress (x s)).memo ∧ post (outcome (x s))

namespace Keeps

variable {kept : MemoTable → Prop} {x : Matching α} {post post' : Except Halt α → Prop}

/-- An outcome that satisfies a postcondition satisfies a weaker one. -/
theorem mono (h : Keeps kept x post) (weaker : ∀ outcome, post outcome → post' outcome) :
    Keeps kept x post' :=
  fun s here => ⟨(h s here).1, weaker _ (h s here).2⟩

/-- A computation that does nothing keeps what is remembered. -/
theorem pure {a : α} (h : post (.ok a)) : Keeps kept (Pure.pure a) post := fun _ here => ⟨here, h⟩

/-- A computation that halts keeps what is remembered. -/
theorem throw {halt : Halt} (h : post (.error halt)) : Keeps kept (throw halt : Matching α) post :=
  fun _ here => ⟨here, h⟩

/-- What a computation keeps is kept through composition, and a failure of the first part is one of
the whole. -/
theorem bind {f : α → Matching β} {post' : Except Halt β → Prop} (h : Keeps kept x post)
    (later : ∀ a, post (.ok a) → Keeps kept (f a) post')
    (fails : ∀ halt, post (.error halt) → post' (.error halt)) : Keeps kept (x >>= f) post' := by
  intro s here
  have first := h s here
  cases run : x s with
  | ok a s₁ =>
    rw [run] at first
    rw [bind_run_of_ok run]
    exact later a first.2 s₁ first.1
  | error halt s₁ =>
    rw [run] at first
    rw [bind_run_of_error run]
    exact ⟨first.1, fails halt first.2⟩

/-- A function of the answer changes the outcome and not what is remembered. -/
theorem map {f : α → β} {post : Except Halt β → Prop}
    (h : Keeps kept x fun outcome => post (f <$> outcome)) : Keeps kept (f <$> x) post := by
  rw [map_eq_pure_bind]
  exact h.bind (fun _ here => .pure here) fun _ here => here

/-- A step that always answers. -/
theorem step {f : α → Matching β} {post : Except Halt β → Prop}
    (run : ∀ s, kept s.memo → ∃ a s', x s = .ok a s' ∧ kept s'.memo)
    (later : ∀ a, Keeps kept (f a) post) : Keeps kept (x >>= f) post := by
  intro s here
  obtain ⟨a, s', answer, here'⟩ := run s here
  rw [bind_run_of_ok answer]
  exact later a s' here'

end Keeps

end Matching

section

variable (definitions : Definitions) (tokens : Array Token) (owner : Nat → Forward)

/-- Only forwards that stand for something are being tried. -/
def MemoTable.MarksDefined (t : MemoTable) : Prop :=
  ∀ place reentered, t.find? place = some (.pending reentered) →
    ∃ body, definitions (owner place.id) = some body

/-- The definition of a forward comes to the outcome at the position, if what is remembered are
results that the definitions of their owners came to. -/
inductive Forward.ComesTo : Forward → Nat → Except Halt (Option Match) → Prop where
  | intro {target : Forward} {body : Rule} {pos : Nat} (fuel : Nat) (s : Progress) :
    definitions target = some body →
    s.memo.MarksDefined definitions owner →
    (∀ place found, s.memo.find? place = some (.resolved found) →
      ComesTo (owner place.id) place.position (.ok found)) →
    ComesTo target pos (Matching.outcome (body.match? definitions tokens fuel pos s))

/-- What is remembered are results that the definitions of their owners came to, and marks of
forwards that stand for something. -/
structure MemoTable.Earned (t : MemoTable) : Prop where
  marks : t.MarksDefined definitions owner
  results : ∀ place found, t.find? place = some (.resolved found) →
    (owner place.id).ComesTo definitions tokens owner place.position (.ok found)

end

section

variable {definitions : Definitions} {tokens : Array Token} {owner : Nat → Forward}
  {t : MemoTable} {place : Place}

/-- What comes to an outcome stands for something. -/
theorem Forward.ComesTo.defined {target : Forward} {pos : Nat}
    {outcome : Except Halt (Option Match)}
    (h : target.ComesTo definitions tokens owner pos outcome) :
    ∃ body, definitions target = some body := by
  cases h with
  | intro _ _ defined => exact ⟨_, defined⟩

namespace MemoTable.Earned

/-- Where nothing is remembered, everything is earned. -/
theorem empty : (∅ : MemoTable).Earned definitions tokens owner where
  marks place reentered found := by cases found
  results place found known := by cases known

/-- Marks of forwards that stand for something may be entered, and results that the definitions of
their owners came to. -/
theorem insert (h : t.Earned definitions tokens owner) {memo : Memo}
    (mark : memo.isPending → ∃ body, definitions (owner place.id) = some body)
    (result : ∀ found, memo = .resolved found →
      (owner place.id).ComesTo definitions tokens owner place.position (.ok found)) :
    (t.insert place memo).Earned definitions tokens owner where
  marks other reentered found := by
    by_cases same : other = place
    · rw [same, find?_insert_self] at found
      rw [same]
      exact mark (Option.some.inj found ▸ rfl)
    · rw [find?_insert_of_ne t memo same] at found
      exact h.marks other reentered found
  results other found known := by
    by_cases same : other = place
    · rw [same, find?_insert_self] at known
      rw [same]
      exact result found (Option.some.inj known)
    · rw [find?_insert_of_ne t memo same] at known
      exact h.results other found known

/-- A forward that stands for something may be marked as being tried. -/
theorem insert_pending (h : t.Earned definitions tokens owner)
    (defined : ∃ body, definitions (owner place.id) = some body) (reentered : Bool) :
    (t.insert place (.pending reentered)).Earned definitions tokens owner :=
  h.insert (fun _ => defined) (by simp)

/-- A result may be remembered that its owner's definition comes to. -/
theorem insert_resolved (h : t.Earned definitions tokens owner) {found : Option Match}
    (earned : (owner place.id).ComesTo definitions tokens owner place.position (.ok found)) :
    (t.insert place (.resolved found)).Earned definitions tokens owner :=
  h.insert (fun _ => earned.defined) (by rintro _ ⟨⟩; exact earned)

/-- Dropping results leaves those that are earned. -/
theorem forget (h : t.Earned definitions tokens owner) :
    (t.forget place).Earned definitions tokens owner where
  marks other reentered found := by
    rw [find?_forget] at found
    exact h.marks other reentered (Option.filter_eq_some_iff.mp found).1
  results other found known := by
    rw [find?_forget] at known
    exact h.results other found (Option.filter_eq_some_iff.mp known).1

end MemoTable.Earned

end

namespace Matching

/-! ## Trying rules -/

section

variable {kept : MemoTable → Prop}

/-- What is remembered satisfies `kept` afterwards if it did before, whatever the outcome. -/
def Preserves (kept : MemoTable → Prop) {α : Type} (x : Matching α) : Prop :=
  Keeps kept x fun _ => True

/-- That what is remembered is kept passes to rules from the rules they are made of. -/
theorem Preserves.closed : Closed (Preserves kept) where
  outOfFuel _ := .throw trivial
  pure _ := .pure trivial
  bind first later := first.bind (fun a _ => later a) fun _ _ => trivial

/-- An action changes nothing that is remembered. -/
theorem Preserves.map {tokens : Array Token} {found : Option Match} {action : Action} {pos : Nat} :
    Preserves kept (map tokens found action pos) := by
  unfold Matching.map
  cases found with
  | none => exact .pure trivial
  | some m =>
    simp only
    cases action m.value with
    | ok value => exact .pure trivial
    | error cause => exact .throw trivial

end

/-! ## Forwards -/

section

variable {definitions : Definitions} {tokens : Array Token} {owner : Nat → Forward}
  {body : Matching (Option Match)} {place : Place}

/-- Something that is earned may be remembered before a computation that keeps what is earned. -/
theorem remember_keeps {α : Type} {memo : Memo} {rest : Matching α}
    {post : Except Halt α → Prop}
    (kept : ∀ {t : MemoTable}, t.Earned definitions tokens owner →
      (t.insert place memo).Earned definitions tokens owner)
    (later : Keeps (MemoTable.Earned definitions tokens owner) rest post) :
    Keeps (MemoTable.Earned definitions tokens owner)
      (do Matching.remember place memo; rest) post :=
  .step (fun _ here => ⟨(), _, rfl, kept here⟩) fun _ => later

/-- A forward may remember and answer with what its own definition came to. -/
theorem settle_keeps {result : Option Match}
    (earned : (owner place.id).ComesTo definitions tokens owner place.position (.ok result)) :
    Keeps (MemoTable.Earned definitions tokens owner)
      (do Matching.remember place (.resolved result); return result)
      ((owner place.id).ComesTo definitions tokens owner place.position) :=
  remember_keeps (·.insert_resolved earned) (.pure earned)

variable (each : Keeps (MemoTable.Earned definitions tokens owner) body
    ((owner place.id).ComesTo definitions tokens owner place.position))
  (starved : (owner place.id).ComesTo definitions tokens owner place.position (.error .outOfFuel))

include each starved

/-- A seed that grows is one match of the definition after another. -/
theorem grow_keeps (fuel : Nat) (seed : Match)
    (earned : (owner place.id).ComesTo definitions tokens owner place.position (.ok (some seed))) :
    Keeps (MemoTable.Earned definitions tokens owner) (grow body place fuel seed) fun outcome =>
      (owner place.id).ComesTo definitions tokens owner place.position (some <$> outcome) := by
  induction fuel generalizing seed with
  | zero => exact .throw starved
  | succ fuel ih =>
    unfold grow
    refine .step (fun s here => ⟨(), _, rfl, (here.insert_resolved earned).forget⟩) fun _ => ?_
    refine each.bind (fun found here => ?_) fun _ here => here
    cases found with
    | none => exact .pure earned
    | some grown =>
      simp only
      split
      · exact ih grown here
      · exact .pure earned

/-- Entering a forward comes to what its definition comes to, and all that is remembered on the way
is earned. -/
theorem enter_keeps (fuel : Nat) (defined : ∃ body, definitions (owner place.id) = some body) :
    Keeps (MemoTable.Earned definitions tokens owner) (enter body fuel place)
      ((owner place.id).ComesTo definitions tokens owner place.position) := by
  unfold enter
  refine remember_keeps (·.insert_pending defined false) ?_
  refine each.bind (fun first here => ?_) fun _ here => here
  refine .step (fun s here => ⟨_, s, rfl, here⟩) fun marked => ?_
  split
  · next seed =>
    exact (grow_keeps each starved fuel seed here).map.bind (fun _ here => settle_keeps here)
      fun _ here => here
  · exact settle_keeps here

end

/-! ## Whatever is tried -/

/-- What a forward comes to: where its body is being tried it does not match, and otherwise it comes
to what its definition comes to. -/
theorem forward_keeps {definitions : Definitions} {tokens : Array Token} {owner : Nat → Forward}
    {fuel : Nat} {target : Forward} (mine : owner target.id = target)
    (each : ∀ body, definitions target = some body → ∀ pos,
      Preserves (MemoTable.Earned definitions tokens owner)
        (body.match? definitions tokens fuel pos))
    (pos : Nat) (s : Progress) (here : s.memo.Earned definitions tokens owner) :
    let run := forward definitions (Rule.match? definitions tokens fuel) fuel target pos s
    (progress run).memo.Earned definitions tokens owner ∧
      match definitions target with
      | none => run = .error (.failed (.grammar (.unresolved target.id))) s
      | some _ => target.ComesTo definitions tokens owner pos (outcome run) ∨
        outcome run = .ok none ∧ ∃ reentered,
          s.memo.find? ⟨target.id, pos⟩ = some (.pending reentered) := by
  intro run
  cases known : s.memo.find? ⟨target.id, pos⟩ with
  | none =>
    cases defined : definitions target with
    | none =>
      -- nothing is remembered for a forward that stands for nothing, so it is always looked up
      have fails : run = .error (.failed (.grammar (.unresolved target.id))) s :=
        forward_of_undefined known defined
      rw [fails]
      exact ⟨here, rfl⟩
    | some body =>
      have entered : run =
          enter (body.match? definitions tokens fuel pos) fuel ⟨target.id, pos⟩ s :=
        forward_of_absent known defined
      have defined' : definitions (owner target.id) = some body := by rw [mine, defined]
      have each : Keeps (MemoTable.Earned definitions tokens owner)
          (body.match? definitions tokens fuel pos)
          ((owner target.id).ComesTo definitions tokens owner pos) := fun s here =>
        ⟨(each body defined pos s here).1, .intro fuel s defined' here.marks here.results⟩
      -- growing may run out of fuel by itself, which a trial without fuel does as well
      have starved : (owner target.id).ComesTo definitions tokens owner pos (.error .outOfFuel) :=
        .intro 0 s defined' here.marks here.results
      have kept := @enter_keeps _ _ _ _ ⟨target.id, pos⟩ each starved fuel ⟨body, defined'⟩ s here
      simp only [mine] at kept
      rw [entered]
      exact ⟨kept.1, .inl kept.2⟩
  | some memo =>
    cases memo with
    | pending reentered =>
      -- the mark was made by the owner of the number, which is this forward
      obtain ⟨body, defined⟩ := here.marks ⟨target.id, pos⟩ reentered known
      have again : run =
          .ok none { s with memo := s.memo.insert ⟨target.id, pos⟩ (.pending true) } :=
        forward_of_pending known
      have marked := here.insert_pending ⟨body, defined⟩ true
      simp only [mine] at defined
      rw [again, defined]
      exact ⟨marked, .inr ⟨rfl, reentered, rfl⟩⟩
    | resolved found =>
      have result := here.results ⟨target.id, pos⟩ found known
      simp only [mine] at result
      obtain ⟨body, defined⟩ := result.defined
      have remembered : run = .ok found s := forward_of_resolved known
      rw [remembered, defined]
      exact ⟨here, .inl result⟩

end Matching

/-- Whatever is tried, what is remembered afterwards are results that the definitions of their
owners came to. -/
theorem Rule.match?_preserves {definitions : Definitions} {tokens : Array Token}
    {owner : Nat → Forward} (closed : definitions.OwnedBy owner) (fuel : Nat) (rule : Rule)
    (owned : rule.OwnedBy owner) (pos : Nat) :
    Matching.Preserves (MemoTable.Earned definitions tokens owner)
      (rule.match? definitions tokens fuel pos) := by
  refine match?_satisfies (fun target => owner target.id = target) Matching.Preserves.closed
    (fun _ _ s here => ⟨here, trivial⟩) (fun _ _ _ => Matching.Preserves.map)
    (fun fuel target mine each pos s here => ?_) fuel rule owned pos
  have bodies (body : Rule) (defined : definitions target = some body) :=
    each body (closed target body defined mine)
  exact ⟨(Matching.forward_keeps mine bodies pos s here).1, trivial⟩

/-- As long as every number in use belongs to one forward, forwards do not see each other's results:
every rule does what it would do if every forward had a memory of its own, from any progress. From
progress in which the results are those of their owners, as they are at the start and stay whatever
is tried, a forward comes to what its own definition comes to, or does not match because its body is
being tried there. One that stands for nothing fails for that reason. -/
theorem Rule.forwards_apart {definitions : Definitions} {owner : Nat → Forward}
    (numbered : Function.LeftInverse Forward.id owner) (closed : definitions.OwnedBy owner)
    (tokens : Array Token) {key : Forward → Nat} (apart : Function.Injective key) (rule : Rule)
    (owned : rule.OwnedBy owner) :
    (∀ fuel pos, (rule.match? definitions tokens fuel pos).Renumbers (apart.comp numbered.injective)
      (rule.matchUnder? key definitions tokens fuel pos)) ∧
    (∀ fuel pos, Matching.Preserves (MemoTable.Earned definitions tokens owner)
      (rule.match? definitions tokens fuel pos)) ∧
    ∀ target ∈ rule.forwards, ∀ fuel pos s, s.memo.Earned definitions tokens owner →
      let run := (Rule.forward target).match? definitions tokens (fuel + 1) pos s
      match definitions target with
      | none => run = .error (.failed (.grammar (.unresolved target.id))) s
      | some _ => target.ComesTo definitions tokens owner pos (Matching.outcome run) ∨
        Matching.outcome run = .ok none ∧ ∃ reentered,
          s.memo.find? ⟨target.id, pos⟩ = some (.pending reentered) := by
  refine ⟨fun fuel pos => ?_, fun fuel pos => match?_preserves closed fuel rule owned pos, ?_⟩
  · have known : ∀ target, owner target.id = target → key target = (key ∘ owner) target.id :=
      fun target mine => by rw [Function.comp_apply, mine]
    exact match?_renumbers _ known closed tokens (Nat.le_refl fuel) rule owned pos
  · intro target named fuel pos s here
    have mine := owned target named
    exact (Matching.forward_keeps mine
      (fun body defined => match?_preserves closed fuel body (closed target body defined mine))
      pos s here).2

namespace Workshop

/-- Two builders that gave out different numbers: the first one's forward stands for a word, and the
second one's for words with dots between them, read by the first one's. -/
def neighbours : Workshop where
  builders := [⟨⟨0, [some (.terminal .word)]⟩, .builder⟩,
    ⟨⟨1, [none, some (.alternation [
      .sequence [.forward ⟨1, 1⟩, .terminal .dot, .forward ⟨0, 0⟩], .forward ⟨0, 0⟩])]⟩, .builder⟩]
  handles := [⟨⟨0, 0⟩, true⟩, ⟨⟨1, 0⟩, true⟩, ⟨⟨1, 1⟩, true⟩]
  sets := []

/-- The number 1 belongs to the second builder, and all others to the first one. -/
def neighbour (id : Nat) : Forward := ⟨if id = 1 then 1 else 0, id⟩

/-- A forward of each builder. -/
def either : Rule := .alternation [.forward ⟨1, 1⟩, .forward ⟨0, 2⟩]

/-- The path `a.b`. -/
def path : List Token :=
  [⟨.word, .text "a", ⟨0, 1⟩⟩, ⟨.dot, .none, ⟨1, 2⟩⟩, ⟨.word, .text "b", ⟨2, 3⟩⟩]

/-- In the two builders every number has one owner. -/
theorem neighbours_ownedBy : neighbours.definition?.OwnedBy neighbour := by
  intro target body found _
  obtain ⟨owned, mem, found⟩ := definition?_eq_some found
  rcases List.mem_pair.mp mem with rfl | rfl
  · match target.id, found with
    | 0, found => cases found; decide
    | id + 1, found => cases found
  · match target.id, found with
    | 0, found => cases found
    | 1, found => cases found; decide
    | id + 2, found => cases found

/-- Both builders are used in one rule. Matching is as if each forward had a memory of its own, the
second builder's forward comes to what its definition comes to, and a forward that stands for
nothing is refused. -/
theorem neighbours_apart :
    let key (target : Forward) := Nat.pair target.builder target.id
    let run := (Rule.forward ⟨1, 1⟩).match? neighbours.definition? path.toArray 20 0 .start
    Function.Injective key ∧
    Matching.outcome (either.matchUnder? key neighbours.definition? path.toArray 20 0 .start) =
      Matching.outcome (either.match? neighbours.definition? path.toArray 20 0 .start) ∧
    (Matching.outcome run).map (Option.map Match.stop) = .ok (some 3) ∧
    Forward.ComesTo neighbours.definition? path.toArray neighbour ⟨1, 1⟩ 0 (Matching.outcome run) ∧
    (Rule.forward ⟨0, 2⟩).match? neighbours.definition? path.toArray 20 0 .start =
      .error (.failed (.grammar (.unresolved 2))) .start := by
  intro key run
  have apart : Function.Injective key := by
    intro target other same
    obtain ⟨builder, id⟩ := Nat.pair_eq_pair.mp same
    cases target
    cases other
    simp_all
  obtain ⟨same, -, each⟩ := Rule.forwards_apart (fun _ => rfl) neighbours_ownedBy path.toArray apart
    either (by decide)
  have read := each ⟨1, 1⟩ (by decide) 19 0 .start .empty
  have unread := each ⟨0, 2⟩ (by decide) 19 0 .start .empty
  have matched : (Matching.outcome
      (either.match? neighbours.definition? path.toArray 20 0 .start)).map (Option.map Match.stop) =
        .ok (some 3) := by decide +kernel
  refine ⟨apart, ?_, by decide +kernel, ?_, unread⟩
  · rcases same 20 0 .start with ⟨s, starved⟩ | same
    · rw [starved] at matched
      cases matched
    · exact (congrArg Matching.outcome same).trans (Matching.outcome_mapProgress ..)
  · rcases read with own | ⟨-, _, marked⟩
    · exact own
    · cases marked

/-- Two builders whose first forwards stand for a word and for a dot. -/
def twins : Workshop where
  builders :=
    [⟨⟨0, [some (.terminal .word)]⟩, .ruleSet 0⟩, ⟨⟨1, [some (.terminal .dot)]⟩, .builder⟩]
  handles := [⟨⟨0, 0⟩, true⟩, ⟨⟨1, 0⟩, true⟩]
  sets := [⟨0, .alternation [.forward ⟨0, 0⟩, .forward ⟨1, 0⟩], true⟩]

/-- A single dot. -/
def dot : List Token := [⟨.dot, .none, ⟨0, 1⟩⟩]

/-- The forward of the second builder stands for a dot, which matches whatever is remembered. It
finds the result of the forward with the same number and does not match, so the rule set cannot read
the dot. -/
theorem twins_confused :
    twins.definition? ⟨1, 0⟩ = some (.terminal .dot) ∧
      (∀ fuel s, Matching.outcome
        ((Rule.terminal .dot).match? twins.definition? dot.toArray (fuel + 1) 0 s) =
          .ok (some ⟨.token ⟨.dot, .none, ⟨0, 1⟩⟩, 1⟩)) ∧
      twins.matchEach dot [(.forward ⟨0, 0⟩, 0), (.forward ⟨1, 0⟩, 0)] = [.ok none, .ok none] ∧
      twins.read 0 dot = some (.error (.failed (.unexpected 0 (some .dot) (some ⟨0, 1⟩)))) :=
  ⟨rfl, fun _ _ => rfl, rfl, rfl⟩

end Workshop

end ClosureLang
