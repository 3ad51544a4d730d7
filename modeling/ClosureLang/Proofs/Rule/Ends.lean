import ClosureLang.Proofs.Rule.Open
import ClosureLang.Rule.Match

/-!
# Matching ends

A computation that tries rules ends from some progress if it does not run out of fuel there; what is
known about its answer and about the progress after it is a postcondition. The rules for sequences,
alternatives and repetitions are stated for any way of trying single rules, and know nothing of
forwards; what they need of a single rule is `Tries`.

Failing counts as ending: the error of an action, or an undefined forward, is an outcome, and
nothing is tried after it. What ends with an answer hands on two things, where the match ends and
what became of the places that are open at the position (`Tried`). In a sequence the second rule
starts where the first one ended. If that is further on, no open place is of concern to it; if the
first rule matched nothing, the second one tries forwards at the same position, which is why the
list of forwards of a sequence goes on behind a rule that may be empty.

A repetition stops with a round that does not move on, so there are no more rounds than positions.
-/

set_option autoImplicit false

namespace ClosureLang

namespace Matching

variable {α β : Type} {x : Matching α} {s : Progress} {post post' : α → Progress → Prop}

/-- The computation does not run out of fuel, and its answer satisfies the postcondition. -/
def Ends (x : Matching α) (s : Progress) (post : α → Progress → Prop) : Prop :=
  match x s with
  | .ok a s' => post a s'
  | .error halt _ => halt ≠ .outOfFuel

/-- A computation that ends with a property ends with a weaker one. -/
theorem Ends.mono (h : x.Ends s post) (weaker : ∀ a s', post a s' → post' a s') :
    x.Ends s post' := by
  unfold Ends at *
  split
  · next run =>
    rw [run] at h
    exact weaker _ _ h
  · next run =>
    rw [run] at h
    exact h

/-- A composition ends if the rest does from wherever the first part ends. -/
theorem Ends.bind {f : α → Matching β} {post : β → Progress → Prop}
    (h : x.Ends s fun a s' => (f a).Ends s' post) : (x >>= f).Ends s post := by
  unfold Ends at *
  show match EStateM.bind x f s with
    | .ok b s' => post b s'
    | .error halt _ => halt ≠ .outOfFuel
  unfold EStateM.bind
  cases run : x s with
  | ok a s' =>
    rw [run] at h
    exact h
  | error halt s' =>
    rw [run] at h
    exact h

/-- A function of the answer ends where the computation does. -/
theorem Ends.map {f : α → β} {post : β → Progress → Prop}
    (h : x.Ends s fun a s' => post (f a) s') : (f <$> x).Ends s post := by
  rw [map_eq_pure_bind]
  exact (h.mono fun a s' found => found).bind

/-- A computation that does nothing ends. -/
theorem ends_pure {a : α} (h : post a s) : (pure a : Matching α).Ends s post := h

/-- A computation that fails ends: only running out of fuel does not count. -/
theorem ends_failed {error : ParseError} : (throw (.failed error) : Matching α).Ends s post :=
  fun h => by cases h

/-- Looking up a place ends with what is remembered there. -/
theorem ends_remembered? {place : Place} {post : Option Memo → Progress → Prop}
    (h : post (s.memo.find? place) s) : (remembered? place).Ends s post := h

/-- Remembering something ends with it entered. -/
theorem ends_remember {place : Place} {memo : Memo} {post : Unit → Progress → Prop}
    (h : post () { s with memo := s.memo.insert place memo }) :
    (remember place memo).Ends s post := h

/-- Planting a seed ends with it entered and the other results of its position dropped. -/
theorem ends_plant {place : Place} {seed : Match} {post : Unit → Progress → Prop}
    (h : post () { s with memo := (s.memo.insert place (.resolved (some seed))).forget place }) :
    (plant place seed).Ends s post := h

/-- Looking at a position ends with it among those looked at. -/
theorem ends_reach {pos : Nat} {post : Unit → Progress → Prop}
    (h : post () { s with furthest := max s.furthest pos }) : (reach pos).Ends s post := h

/-! ## What trying a rule does -/

section

variable (definitions : Definitions) (empty : Nat → Bool) (n : Nat) (opened grown : Finset Place)

/-- The answer of a rule that may try `forwards` where it starts. -/
def Tried (forwards : List Nat) (nullable : Bool) (pos : Nat) (s : Progress) (found : Option Match)
    (s' : Progress) : Prop :=
  Kept definitions empty n opened pos forwards s.memo s'.memo ∧
    ∀ m, found = some m → m.Within n pos nullable

/-- Wherever it can be tried, the rule is tried to an end. -/
def Tries (attempt : Nat → Matching (Option Match)) (forwards : List Nat) (nullable : Bool) :
    Prop :=
  ∀ pos s, pos ≤ n → Ready definitions empty n opened grown pos forwards s.memo →
    (attempt pos).Ends s (Tried definitions empty n opened forwards nullable pos s)

end

variable {definitions : Definitions} {empty : Nat → Bool} {n : Nat} {opened grown : Finset Place}

/-- A token is tried to an end; it tries no forward and is not empty. -/
theorem terminal_tries {tokens : Array Token} {kind : TokenKind} (size : tokens.size = n) :
    Tries definitions empty n opened grown (terminal tokens kind) [] false := by
  intro pos s _ ready
  refine (ends_reach ?_).bind
  refine ends_pure ⟨.refl ready.sound, fun m hm => ?_⟩
  obtain ⟨token, found, rfl⟩ := Option.map_eq_some_iff.mp hm
  have inside := (Array.getElem?_eq_some_iff.mp (Option.filter_eq_some_iff.mp found).1).1
  exact ⟨Nat.le_succ pos, size ▸ inside, fun same => absurd same (Nat.succ_ne_self pos)⟩

/-- Rules one after the other, where each of them is tried to an end. -/
theorem sequence_tries {attempt : Rule → Nat → Matching (Option Match)} {rules : List Rule}
    (each : ∀ rule ∈ rules, Tries definitions empty n opened grown (attempt rule)
      (rule.starts empty) (rule.nullable empty)) (before : List Value) :
    Tries definitions empty n opened grown (sequence attempt rules before)
      (Rule.startsOfSequence empty rules) (Rule.nullableAll empty rules) := by
  induction rules generalizing before with
  | nil =>
    intro pos s le ready
    refine ends_pure ⟨.refl ready.sound, fun m hm => ?_⟩
    cases hm
    exact ⟨Nat.le_refl pos, le, fun _ => rfl⟩
  | cons rule rules ih =>
    intro pos s le ready
    have first := each rule List.mem_cons_self
    have rest := ih fun other mem => each other (List.mem_cons_of_mem rule mem)
    refine ((first pos s le ready.left).mono ?_).bind
    rintro (_ | m) s₁ ⟨kept, within⟩
    · exact ends_pure ⟨kept.mono (List.subset_append_left ..), fun m hm => by cases hm⟩
    have here := within m rfl
    rcases Nat.lt_or_eq_of_le here.start with lt | same
    · -- the first rule used up a token, so the others are tried further on
      refine (rest _ m.stop s₁ here.stop (ready.further kept.sound lt)).mono ?_
      rintro found s' ⟨kept', within'⟩
      refine ⟨(kept.mono (List.subset_append_left ..)).further lt kept', fun m' hm' => ?_⟩
      have there := within' m' hm'
      have start := there.start
      exact ⟨by omega, there.stop, fun back => by omega⟩
    · -- the first rule matched no tokens, so the others are tried here
      have nullable := here.empty same.symm
      have starts : Rule.startsOfSequence empty (rule :: rules) =
          rule.starts empty ++ Rule.startsOfSequence empty rules := by
        rw [Rule.startsOfSequence, nullable, if_pos rfl]
      rw [starts] at ready
      have ready' := ready.right kept
      rw [starts, Rule.nullableAll, nullable, Bool.true_and]
      subst same
      refine (rest _ m.stop s₁ here.stop ready').mono fun found s' ⟨kept', within'⟩ => ?_
      exact ⟨(kept.mono (List.subset_append_left ..)).trans
        (kept'.mono (List.subset_append_right ..)), within'⟩

/-- Alternatives, where each of them is tried to an end. -/
theorem alternation_tries {attempt : Rule → Nat → Matching (Option Match)} {rules : List Rule}
    (each : ∀ rule ∈ rules, Tries definitions empty n opened grown (attempt rule)
      (rule.starts empty) (rule.nullable empty)) :
    Tries definitions empty n opened grown (alternation attempt rules)
      (Rule.startsOfAlternation empty rules) (Rule.nullableAny empty rules) := by
  induction rules with
  | nil =>
    intro pos s _ ready
    exact ends_pure ⟨.refl ready.sound, fun m hm => by cases hm⟩
  | cons rule rules ih =>
    intro pos s le ready
    have first := each rule List.mem_cons_self
    have rest := ih fun other mem => each other (List.mem_cons_of_mem rule mem)
    refine ((first pos s le ready.left).mono ?_).bind
    rintro (_ | m) s₁ ⟨kept, within⟩
    · refine (rest pos s₁ le (ready.right kept)).mono fun found s' ⟨kept', within'⟩ => ?_
      refine ⟨(kept.mono (List.subset_append_left ..)).trans
        (kept'.mono (List.subset_append_right ..)), fun m hm => ?_⟩
      have there := within' m hm
      exact ⟨there.start, there.stop, fun same => by simp [Rule.nullableAny, there.empty same]⟩
    · refine ends_pure ⟨kept.mono (List.subset_append_left ..), fun m' hm' => ?_⟩
      cases hm'
      have here := within m rfl
      exact ⟨here.start, here.stop, fun same => by simp [Rule.nullableAny, here.empty same]⟩

/-- A match whose value is handed to an action. -/
theorem map_tries {attempt : Nat → Matching (Option Match)} {tokens : Array Token}
    {action : Action} {forwards : List Nat} {nullable : Bool}
    (each : Tries definitions empty n opened grown attempt forwards nullable) :
    Tries definitions empty n opened grown
      (fun pos => do map tokens (← attempt pos) action pos) forwards nullable := by
  intro pos s le ready
  refine ((each pos s le ready).mono ?_).bind
  rintro (_ | m) s₁ ⟨kept, within⟩
  · exact ends_pure ⟨kept, fun m hm => by cases hm⟩
  · unfold map
    simp only
    split
    · have here := within m rfl
      refine ends_pure ⟨kept, fun m' hm' => ?_⟩
      cases hm'
      exact ⟨here.start, here.stop, here.empty⟩
    · exact ends_failed

/-- As many matches as there are, each of which moves on. -/
theorem rounds_end {attempt : Nat → Matching (Option Match)} {most : Option Nat}
    {forwards : List Nat} {nullable : Bool}
    (each : Tries definitions empty n opened grown attempt forwards nullable) {fuel pos : Nat}
    {before : List Value} (le : pos ≤ n) (enough : n < fuel + pos)
    (ready : Ready definitions empty n opened grown pos forwards s.memo) :
    (rounds attempt fuel most before pos).Ends s fun result s' =>
      Kept definitions empty n opened pos forwards s.memo s'.memo ∧ pos ≤ result.2 ∧
        result.2 ≤ n ∧ (result.2 = pos → before.length < result.1.length → nullable = true) := by
  induction fuel generalizing before pos s with
  | zero => omega
  | succ fuel ih =>
    unfold rounds
    split
    · refine ends_pure ⟨.refl ready.sound, Nat.le_refl pos, le, fun _ longer => ?_⟩
      simp at longer
    refine ((each pos s le ready).mono ?_).bind
    rintro (_ | m) s₁ ⟨kept, within⟩
    · refine ends_pure ⟨kept, Nat.le_refl pos, le, fun _ longer => ?_⟩
      simp at longer
    have here := within m rfl
    simp only
    split
    · next lt =>
      refine (ih here.stop (by omega) (ready.further kept.sound lt)).mono ?_
      rintro result s' ⟨kept', start, stop, -⟩
      exact ⟨kept.further lt kept', by omega, stop, fun same => by omega⟩
    · next still =>
      have start := here.start
      exact ends_pure ⟨kept, start, here.stop, fun same _ => here.empty same⟩

/-- A repetition is tried to an end if its rule is: a round that does not move on is the last one,
so there are at most as many as positions. -/
theorem repetition_tries {attempt : Nat → Matching (Option Match)} {fuel least : Nat}
    {most : Option Nat} {forwards : List Nat} {nullable : Bool} (enough : n < fuel)
    (each : Tries definitions empty n opened grown attempt forwards nullable) :
    Tries definitions empty n opened grown (repetition attempt fuel least most) forwards
      (least == 0 || nullable) := by
  intro pos s le ready
  refine ((rounds_end each le (by omega) ready).mono ?_).bind
  rintro ⟨values, stop⟩ s₁ ⟨kept, start, inside, moved⟩
  simp only
  split
  · exact ends_pure ⟨kept, fun m hm => by cases hm⟩
  · next many =>
    refine ends_pure ⟨kept, fun m hm => ?_⟩
    cases hm
    refine ⟨start, inside, fun same => ?_⟩
    rcases Nat.eq_zero_or_pos least with rfl | some
    · rfl
    · have longer : ([] : List Value).length < values.length := by
        simp only [List.length_nil]
        omega
      rw [moved same longer, Bool.or_true]

end Matching

end ClosureLang
