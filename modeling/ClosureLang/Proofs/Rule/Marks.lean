import ClosureLang.Proofs.Rule.Everywhere
import ClosureLang.Proofs.Rule.Furthest
import ClosureLang.Proofs.Rule.Reading

/-!
# Marks

A place is marked while the body of its forward is being tried there. A rule that is tried to an
answer leaves the marks as it found them: it takes back the ones it makes and no others, and all it
changes about those is to note that their forwards were met again. Growing a seed drops results but
no mark, and a forward that is tried anew after its seed was dropped is not marked at the time, so
what it marks in the midst of its own growth it takes back as well.

`SameMarks` relates the table before to the table after: the same places are marked, and where it
was known that a forward was met again it still is. Most steps keep it step by step. Entering a
forward does not, since it makes a mark; `SameMarks.release` closes the account when the mark is
replaced by a result. In between, growing carries the relation for all places but its own, because
the first round replaces the mark by the seed.

Nothing is assumed of the definitions, not even that matching ends: the statement is about rules
that were tried to an answer. Together with the bounds on matches this is what trying a rule does to
the progress around it.
-/

set_option autoImplicit false

namespace ClosureLang

/-- Whether the forward was met again meanwhile, if its body is being tried. -/
def Memo.mark? : Memo → Option Bool
  | pending reentered => some reentered
  | resolved _ => none

namespace MemoTable

variable {t t₁ t' : MemoTable} {place other : Place}

/-- The mark at a place, if it is marked. -/
def mark? (t : MemoTable) (place : Place) : Option Bool := (t.find? place).bind Memo.mark?

/-- A place is marked if it is pending. -/
theorem mark?_eq_some_iff {reentered : Bool} :
    t.mark? place = some reentered ↔ t.find? place = some (.pending reentered) := by
  rw [mark?, Option.bind_eq_some_iff]
  constructor
  · rintro ⟨memo, found, mark⟩
    cases memo with
    | pending _ => rw [found, Option.some.inj mark]
    | resolved _ => cases mark
  · exact fun found => ⟨_, found, rfl⟩

/-- A place of which nothing is remembered is not marked. -/
theorem mark?_eq_none (absent : t.find? place = none) : t.mark? place = none := by
  rw [mark?, absent, Option.bind_none]

/-- What is remembered at a place decides whether it is marked. -/
@[simp] theorem mark?_insert_self (t : MemoTable) (place : Place) (memo : Memo) :
    (t.insert place memo).mark? place = memo.mark? := by
  rw [mark?, find?_insert_self, Option.bind_some]

/-- The marks of other places stay. -/
theorem mark?_insert_of_ne (t : MemoTable) (memo : Memo) (ne : other ≠ place) :
    (t.insert place memo).mark? other = t.mark? other := by
  rw [mark?, find?_insert_of_ne t memo ne, mark?]

/-- Only results are dropped, never marks. -/
@[simp] theorem mark?_forget (t : MemoTable) (place other : Place) :
    (t.forget place).mark? other = t.mark? other := by
  rw [mark?, find?_forget, mark?]
  cases t.find? other with
  | none => rfl
  | some memo =>
    cases memo with
    | pending reentered => simp [Option.filter, survives, Memo.isPending]
    | resolved result => cases kept : survives place (other, .resolved result) <;>
        simp [Option.filter, kept, Memo.mark?]

/-- The same places are marked, and where a forward was met again that is still known. -/
structure SameMarks (t t' : MemoTable) : Prop where
  marked : ∀ place, (t'.mark? place).isSome = (t.mark? place).isSome
  reentered : ∀ place, t.mark? place = some true → t'.mark? place = some true

namespace SameMarks

/-- Nothing changes about the marks where nothing happens. -/
theorem refl (t : MemoTable) : SameMarks t t := ⟨fun _ => rfl, fun _ here => here⟩

/-- What two steps do with the marks, the two together do. -/
theorem trans (h : SameMarks t t₁) (h' : SameMarks t₁ t') : SameMarks t t' :=
  ⟨fun place => (h'.marked place).trans (h.marked place),
    fun place here => h'.reentered place (h.reentered place here)⟩

/-- Dropping results drops no mark: only what is resolved is dropped. -/
theorem forget (h : SameMarks t t') : SameMarks t (t'.forget place) :=
  ⟨fun other => by rw [mark?_forget, h.marked],
    fun other here => by rw [mark?_forget, h.reentered other here]⟩

/-- A forward that was met again is noted as such. -/
theorem reenter {reentered : Bool} (mark : t.mark? place = some reentered) :
    SameMarks t (t.insert place (.pending true)) where
  marked other := by
    by_cases same : other = place
    · rw [same, mark?_insert_self, mark]
      rfl
    · rw [mark?_insert_of_ne t _ same]
  reentered other here := by
    by_cases same : other = place
    · rw [same, mark?_insert_self]
      rfl
    · rw [mark?_insert_of_ne t _ same, here]

/-- A place that was not marked before may have been marked meanwhile, as long as it is not in the
end. -/
theorem settle (unmarked : t.mark? place = none)
    (h : ∀ other, other ≠ place → (t'.mark? other).isSome = (t.mark? other).isSome ∧
      (t.mark? other = some true → t'.mark? other = some true)) (result : Option Match) :
    SameMarks t (t'.insert place (.resolved result)) where
  marked other := by
    by_cases same : other = place
    · rw [same, mark?_insert_self, unmarked]
      rfl
    · rw [mark?_insert_of_ne t' _ same, (h other same).1]
  reentered other here := by
    by_cases same : other = place
    · rw [same, unmarked] at here
      cases here
    · rw [mark?_insert_of_ne t' _ same, (h other same).2 here]

/-- The mark that trying a forward makes is taken back when its result is known. -/
theorem release (unmarked : t.mark? place = none) {memo : Memo}
    (h : SameMarks (t.insert place memo) t') (result : Option Match) :
    SameMarks t (t'.insert place (.resolved result)) := by
  refine settle unmarked (fun other ne => ?_) result
  have marked := h.marked other
  have reentered := h.reentered other
  rw [mark?_insert_of_ne t memo ne] at marked reentered
  exact ⟨marked, reentered⟩

end SameMarks

end MemoTable

namespace Matching

/-- Answers are given with the marks as they were found. -/
def KeepsMarks {α : Type} (x : Matching α) : Prop :=
  ∀ s, x.Answers s fun _ s' => s.memo.SameMarks s'.memo

namespace KeepsMarks

variable {α β : Type}

/-- A computation that does nothing keeps the marks. -/
theorem pure (a : α) : KeepsMarks (Pure.pure a) := fun s => .pure (.refl s.memo)

/-- Compositions keep the marks if their parts do. -/
theorem bind {x : Matching α} {f : α → Matching β} (first : KeepsMarks x)
    (later : ∀ a, KeepsMarks (f a)) : KeepsMarks (x >>= f) := by
  intro s
  refine ((first s).mono fun a s₁ same => ?_).bind
  exact (later a s₁).mono fun _ _ same' => same.trans same'

/-- That the marks are kept passes to rules from the rules they are made of. -/
theorem closed : Closed KeepsMarks where
  outOfFuel _ _ := .throw
  pure := pure
  bind := bind

end KeepsMarks

/-- Looking at a token keeps the marks. -/
theorem terminal_keepsMarks (tokens : Array Token) (kind : TokenKind) (pos : Nat) :
    KeepsMarks (terminal tokens kind pos) := by
  intro s found s' run
  cases run
  exact .refl s.memo

/-- An action keeps the marks. -/
theorem map_keepsMarks (tokens : Array Token) (found : Option Match) (action : Action) (pos : Nat) :
    KeepsMarks (map tokens found action pos) := by
  unfold map
  split
  · exact .pure none
  · split
    · exact .pure _
    · exact fun _ => .throw

section

variable {body : Matching (Option Match)} {place : Place} {t : MemoTable} {s : Progress}

/-- Growing a seed keeps the marks of `t`, but for one at the place itself until its result is
known. -/
theorem grow_keepsMarks (each : KeepsMarks body) (unmarked : t.mark? place = none) (fuel : Nat)
    {seed : Match} (here : ∀ result, t.SameMarks (s.memo.insert place (.resolved result))) :
    (grow body place fuel seed).Answers s fun _ s' =>
      ∀ result, t.SameMarks (s'.memo.insert place (.resolved result)) := by
  induction fuel generalizing seed s with
  | zero => exact .throw
  | succ fuel ih =>
    unfold grow
    refine (Answers.plant ?_).bind
    refine ((each _).mono fun found s₁ same => ?_).bind
    have there : ∀ result, t.SameMarks (s₁.memo.insert place (.resolved result)) := by
      have planted := (here (some seed)).forget.trans same
      exact .settle unmarked fun other _ => ⟨planted.marked other, planted.reentered other⟩
    cases found with
    | none => exact .pure there
    | some grown =>
      simp only
      split
      · exact ih there
      · exact .pure there

/-- A forward whose body is not being tried. -/
theorem enter_keepsMarks (each : KeepsMarks body) (fuel : Nat)
    (unmarked : s.memo.mark? place = none) :
    (enter body fuel place).Answers s fun _ s' => s.memo.SameMarks s'.memo := by
  -- the mark is taken back when the result is remembered, whichever way it came about
  have settled (result : Option Match) (s' : Progress)
      (here : ∀ result, s.memo.SameMarks (s'.memo.insert place (.resolved result))) :
      (do remember place (.resolved result); return result : Matching _).Answers s'
        fun _ s' => s.memo.SameMarks s'.memo :=
    (Answers.remember (.pure (here result))).bind
  unfold enter
  refine (Answers.remember ?_).bind
  refine ((each _).mono fun first s₁ same => ?_).bind
  have here := same.release unmarked
  refine (Answers.remembered? ?_).bind
  split
  · rw [map_eq_pure_bind]
    refine Answers.bind (.bind ?_)
    exact (grow_keepsMarks each unmarked fuel here).mono fun grown s₂ there =>
      .pure (settled (some grown) s₂ there)
  · exact Answers.bind (.pure (settled _ s₁ here))

end

/-- A forward keeps the marks: it takes back its own when it is done. -/
theorem forward_keepsMarks {definitions : Definitions}
    {attempt : Rule → Nat → Matching (Option Match)}
    (each : ∀ rule pos, KeepsMarks (attempt rule pos)) (fuel : Nat) (target : Forward) (pos : Nat) :
    KeepsMarks (forward definitions attempt fuel target pos) := by
  intro s
  unfold forward
  refine (Answers.remembered? ?_).bind
  split
  · next found =>
    exact (Answers.remember (.pure (.reenter (MemoTable.mark?_eq_some_iff.mpr found)))).bind
  · exact .pure (.refl s.memo)
  · next absent =>
    split
    · exact .throw
    · exact enter_keepsMarks (each _ pos) fuel (MemoTable.mark?_eq_none absent)

end Matching

/-- Every rule keeps the marks, whatever the forwards stand for. -/
theorem Rule.match?_keepsMarks (definitions : Definitions) (tokens : Array Token) (fuel : Nat)
    (rule : Rule) (pos : Nat) : Matching.KeepsMarks (rule.match? definitions tokens fuel pos) := by
  refine match?_satisfies (fun _ => True) Matching.KeepsMarks.closed
    (Matching.terminal_keepsMarks tokens) (Matching.map_keepsMarks tokens)
    (fun fuel target _ each pos => ?_) fuel rule (fun _ _ => trivial) pos
  exact Matching.forward_keepsMarks (fun rule => each rule fun _ _ => trivial) fuel target pos

/-- What a rule does that is tried to an answer, if the matches that are remembered end within the
tokens, or where they start past them: a match that it finds does so too, and so do all that are
remembered then, reading got no less far, and the marks are as they were, except for noting which
forwards were met again. -/
theorem Rule.answer_disciplined {definitions : Definitions} {tokens : Array Token} {fuel : Nat}
    {rule : Rule} {pos : Nat} {s s' : Progress} {found : Option Match}
    (spanning : s.memo.Spanning tokens.size)
    (run : rule.match? definitions tokens fuel pos s = .ok found s') :
    (∀ m, found = some m → pos ≤ m.stop ∧ m.stop ≤ max pos tokens.size) ∧
      s'.memo.Spanning tokens.size ∧ s.furthest ≤ s'.furthest ∧
      (∀ place, (∃ reentered, s'.memo.find? place = some (.pending reentered)) ↔
        ∃ reentered, s.memo.find? place = some (.pending reentered)) ∧
      ∀ place, s.memo.find? place = some (.pending true) →
        s'.memo.find? place = some (.pending true) := by
  obtain ⟨within, spans⟩ := match?_stays definitions tokens fuel rule pos s spanning found s' run
  have same := match?_keepsMarks definitions tokens fuel rule pos s found s' run
  have agree : ∀ i ≤ s.furthest, tokens[i]? = tokens[i]? := fun _ _ => rfl
  have further := ((match?_reproduces agree rule pos).ok run).1
  refine ⟨fun m hm => ⟨(spans m hm).start, (spans m hm).stop⟩, within.spanning, further,
    fun place => ?_, fun place here => ?_⟩
  · have marked := same.marked place
    rw [Bool.eq_iff_iff, Option.isSome_iff_exists, Option.isSome_iff_exists] at marked
    simpa only [MemoTable.mark?_eq_some_iff] using marked
  · rw [← MemoTable.mark?_eq_some_iff] at here ⊢
    exact same.reentered place here

namespace Workshop

/-- A sum with a dot after it, or a call. -/
def dottedOrCall : Rule :=
  .alternation [.sequence [.forward ⟨0, 0⟩, .terminal .dot], .forward ⟨0, 2⟩]

/-- The call `a()()`. -/
def callTwice : List Token :=
  [⟨.word, .text "a", ⟨0, 1⟩⟩, ⟨.openParen, .none, ⟨1, 2⟩⟩, ⟨.closeParen, .none, ⟨2, 3⟩⟩,
    ⟨.openParen, .none, ⟨3, 4⟩⟩, ⟨.closeParen, .none, ⟨4, 5⟩⟩]

/-- The body of a sum is being tried. -/
def withinSum : Progress := ⟨(∅ : MemoTable).insert ⟨0, 0⟩ (.pending false), 0⟩

/-- A call is grown from its seed `a()`. To grow it a product is tried, which is grown from the same
seed, and that drops the seed of the call. So the call is tried anew within the product, which gets
to the end in this way, though the call itself stops before. The sum was met again and is still
marked, and nothing else is. -/
theorem callTwice_disciplined :
    let run := dottedOrCall.match? layered.definition? callTwice.toArray 30 0 withinSum
    withinSum.memo.Spanning callTwice.toArray.size ∧
    ∃ m s', run = .ok (some m) s' ∧ (0 ≤ m.stop ∧ m.stop ≤ 5) ∧ m.stop = 3 ∧
      (∃ product, s'.memo.find? ⟨1, 0⟩ = some (.resolved (some product)) ∧ product.stop = 5) ∧
      s'.memo.Spanning callTwice.toArray.size ∧ withinSum.furthest ≤ s'.furthest ∧
      s'.memo.find? ⟨0, 0⟩ = some (.pending true) ∧
      ∀ place, (∃ reentered, s'.memo.find? place = some (.pending reentered)) ↔
        place = ⟨0, 0⟩ := by
  intro run
  have spanning : withinSum.memo.Spanning callTwice.toArray.size :=
    MemoTable.Spanning.empty.insert fun m hm => by cases hm
  obtain ⟨m, s', answer, stop, product, sum⟩ : ∃ m s', run = .ok (some m) s' ∧ m.stop = 3 ∧
      (∃ product, s'.memo.find? ⟨1, 0⟩ = some (.resolved (some product)) ∧ product.stop = 5) ∧
      s'.memo.find? ⟨0, 0⟩ = some (.pending true) :=
    ⟨_, _, rfl, rfl, ⟨_, rfl, rfl⟩, rfl⟩
  obtain ⟨ends, spanning', furthest, marked, -⟩ := Rule.answer_disciplined spanning answer
  refine ⟨spanning, m, s', answer, ends m rfl, stop, product, spanning', furthest, sum,
    fun place => (marked place).trans ?_⟩
  constructor
  · rintro ⟨reentered, found⟩
    by_contra other
    rw [withinSum, MemoTable.find?_insert_of_ne _ _ other] at found
    cases found
  · rintro rfl
    exact ⟨false, rfl⟩

end Workshop

end ClosureLang
