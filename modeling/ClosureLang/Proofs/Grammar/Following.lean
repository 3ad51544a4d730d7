import ClosureLang.Proofs.Grammar.Agreement

/-!
# Rules follow readers

Reading by rules and reading by recursive descent go through the same tokens in the same order, but
the rules remember and the readers do not. A rule may therefore find a result where a reader reads,
and the two can only be compared if every result that may be found is what would be read there. This
module says what that means, and shows that it goes through the ways in which rules are put
together.

## What may be remembered

The forwards of the language are those of expressions and of statements, so a place is a position
with one of the two. Places are put in an order in which the body of a forward only gets to later
places (`Place.order`): the statement at a position comes before the expression there, since a
statement may begin with an expression and no expression begins with a statement at its own
position, and both come before everything that starts further on.

- `Justified` says of a result that the reader for its place finds the same, whatever the depth it
  may go to, and looks no further than the furthest position so far. The second half is needed for
  errors: a result that is found and not read again leaves the furthest position as it is.
- `Progress.Clean` says that all results from some place on are justified, and that nothing there is
  pending.
- `Progress.Keeps` says that what is remembered before some place is left alone. There is one
  exception. Growing an expression drops the result of a statement at the same position, which may
  have been built on the outgrown seed. A mark is never dropped.

`Clean` is what a rule asks for and what it leaves behind. `Keeps` is what lets the rule that tried
it go on: the results before the place are those that it left itself.

## Following

A computation follows an attempt at reading from some place on, `FollowsFrom`, if the two agree in
every state that is clean from there on, and the state afterwards is clean from there on and keeps
what comes before. Agreement is that of the module before this one: unless the computation runs out
of fuel, the two fail with the same error, or they have related answers and have looked equally far.

Following goes through composition (`bind`) for any relation of the answers. The other modules of
this part use it for sequences, alternatives and repetitions, then for expressions and statements
themselves by induction on the fuel.
-/

set_option autoImplicit false

namespace ClosureLang

/-- The forward for expressions, as a rule. -/
def Grammar.expression : Rule := .forward ⟨0, 0⟩

/-- The forward for statements, as a rule. -/
def Grammar.statement : Rule := .forward ⟨0, 1⟩

/-- A match shows what was read: it has its value and its end, which lies between `low` and `n`. -/
inductive Match.Shows {α : Type} (val : α → Value) (low n : Nat) :
    Option Match → Option (α × Nat) → Prop where
  | nothing : Shows val low n none none
  | found (a : α) (stop : Nat) : low ≤ stop → stop ≤ n →
      Shows val low n (some ⟨val a, stop⟩) (some (a, stop))

/-- The reader for what the forward with number `id` stands for. -/
def Descent.reader (precedence : Precedence) (id depth : Nat) : Descent Node :=
  if id = 0 then expression precedence depth else statement precedence depth

/-- The place of an expression comes right after that of the statement at the same position. -/
def Place.order (place : Place) : Nat := 2 * place.position + if place.id = 0 then 1 else 0

/-- How deep parts can be nested from a place on. -/
def Place.depth (n : Nat) (place : Place) : Nat :=
  2 * (n - place.position) + if place.id = 0 then 1 else 2

section

variable (precedence : Precedence) (tokens : Array Token)

/-- The result is what would be read at the place, and reading it would not look any further. -/
def Justified (place : Place) (result : Option Match) (furthest : Nat) : Prop :=
  ∀ depth, place.depth tokens.size ≤ depth →
    let attempt := Descent.reader precedence place.id depth tokens place.position
    attempt.reach ≤ furthest ∧ ∃ found, attempt.result = .ok found ∧
      Match.Shows .node (place.position + 1) tokens.size result found

namespace Progress

/-- What is remembered for expressions and statements from `k` on are justified results. -/
def Clean (k : Nat) (s : Progress) : Prop :=
  ∀ place memo, place.id ≤ 1 → k ≤ place.order → s.memo.find? place = some memo →
    ∃ result, memo = .resolved result ∧ Justified precedence tokens place result s.furthest

/-- What is remembered for places before `k` stays. Only if `k` is an expression, the result of a
statement at its position may be dropped. -/
def Keeps (k : Nat) (s s' : Progress) : Prop :=
  ∀ place, place.order < k → s'.memo.find? place = s.memo.find? place ∨
    k = 2 * place.position + 1 ∧ s'.memo.find? place = none ∧
      ∀ b, s.memo.find? place ≠ some (.pending b)

end Progress

end

section

variable {precedence : Precedence} {tokens : Array Token} {k k' : Nat} {s s₁ s' : Progress}

/-- A result stays justified when more was looked at. -/
theorem Justified.mono {place : Place} {result : Option Match} {furthest further : Nat}
    (h : Justified precedence tokens place result furthest) (le : furthest ≤ further) :
    Justified precedence tokens place result further := fun depth enough =>
  ⟨Nat.le_trans (h depth enough).1 le, (h depth enough).2⟩

theorem Place.le_order (place : Place) : 2 * place.position ≤ place.order := Nat.le_add_right ..

theorem Place.order_le (place : Place) : place.order ≤ 2 * place.position + 1 := by
  unfold order
  split <;> omega

namespace Progress

/-- What is remembered as it would be read from a place on is so from a later place on. -/
theorem Clean.further (h : s.Clean precedence tokens k) (le : k ≤ k') :
    s.Clean precedence tokens k' :=
  fun place memo known after found => h place memo known (Nat.le_trans le after) found

/-- Looking further on does not change what is justified. -/
theorem Clean.of_memo_eq (h : s.Clean precedence tokens k) (same : s'.memo = s.memo)
    (le : s.furthest ≤ s'.furthest) : s'.Clean precedence tokens k := by
  intro place memo known after found
  rw [same] at found
  obtain ⟨result, rfl, justified⟩ := h place memo known after found
  exact ⟨result, rfl, justified.mono le⟩

/-- What leaves the memory alone keeps everything. -/
theorem Keeps.of_memo_eq (same : s'.memo = s.memo) : Keeps k s s' :=
  fun _ _ => .inl (by rw [same])

/-- Keeping goes through two steps. -/
theorem Keeps.trans (h : Keeps k s s₁) (h' : Keeps k s₁ s') : Keeps k s s' := by
  intro place before
  rcases h place before with same | ⟨here, gone, resolved⟩
  · rcases h' place before with same' | ⟨here, gone, resolved⟩
    · exact .inl (same'.trans same)
    · exact .inr ⟨here, gone, fun b => same ▸ resolved b⟩
  · refine .inr ⟨here, ?_, resolved⟩
    rcases h' place before with same | ⟨-, gone', -⟩
    · exact same.trans gone
    · exact gone'

/-- What keeps all places before a later one keeps those before an earlier one. -/
theorem Keeps.sooner (h : Keeps k' s s') (le : k ≤ k') : Keeps k s s' := by
  intro place before
  refine (h place (Nat.lt_of_lt_of_le before le)).imp_right fun ⟨here, gone⟩ => ⟨?_, gone⟩
  have := place.le_order
  omega

/-- What was clean before the places that a computation gets to is clean afterwards. -/
theorem Clean.sooner (h : s.Clean precedence tokens k) (h' : s'.Clean precedence tokens k')
    (keeps : Keeps k' s s') (le : s.furthest ≤ s'.furthest) : s'.Clean precedence tokens k := by
  intro place memo known after found
  by_cases inside : k' ≤ place.order
  · exact h' place memo known inside found
  · rcases keeps place (Nat.lt_of_not_le inside) with same | ⟨-, gone, -⟩
    · rw [same] at found
      obtain ⟨result, rfl, justified⟩ := h place memo known after found
      exact ⟨result, rfl, justified.mono le⟩
    · rw [gone] at found
      cases found

end Progress

end

/-! ## Following -/

namespace Matching

variable {α β γ δ : Type}

/-- In every state that is clean from `k` on, the computation agrees with the attempt. -/
def FollowsFrom (precedence : Precedence) (tokens : Array Token) (k : Nat) (x : Matching α)
    (a : Attempt β) (related : α → β → Prop) : Prop :=
  ∀ s : Progress, s.Clean precedence tokens k → x.Agrees s a fun v w s' =>
    related v w ∧ s'.Clean precedence tokens k ∧ Progress.Keeps k s s'

namespace FollowsFrom

variable {precedence : Precedence} {tokens : Array Token} {k k' : Nat} {x : Matching α}
  {a : Attempt β} {related related' : α → β → Prop}

/-- A computation that follows an attempt in fewer states follows it in those that are clean from
further back. -/
theorem sooner (h : FollowsFrom precedence tokens k' x a related) (le : k ≤ k') :
    FollowsFrom precedence tokens k x a related := by
  intro s clean
  refine (h s (clean.further le)).mono fun v w s' _ furthest ⟨shown, clean', keeps⟩ => ?_
  have further : s.furthest ≤ s'.furthest := furthest ▸ Nat.le_max_left ..
  exact ⟨shown, clean.sooner clean' keeps further, keeps.sooner le⟩

/-- The answers may be related by less. -/
theorem mono (h : FollowsFrom precedence tokens k x a related)
    (weaker : ∀ v w, related v w → related' v w) : FollowsFrom precedence tokens k x a related' :=
  fun s clean => (h s clean).mono fun v w _ _ _ ⟨shown, rest⟩ => ⟨weaker v w shown, rest⟩

/-- Answers that are related follow one another: nothing is tried. -/
theorem answer {v : α} {w : β} (h : related v w) :
    FollowsFrom precedence tokens k (pure v) (pure w) related :=
  fun _ clean => agrees_pure ⟨h, clean, .of_memo_eq rfl⟩

/-- A computation that is out of fuel follows anything. -/
theorem outOfFuel : FollowsFrom precedence tokens k (throw .outOfFuel) a related :=
  fun _ _ => agrees_outOfFuel

/-- Following goes through composition, for whatever answers are related. -/
theorem bind {f : α → Matching γ} {g : β → Attempt δ} {later : γ → δ → Prop}
    (h : FollowsFrom precedence tokens k x a related)
    (next : ∀ v w, related v w → FollowsFrom precedence tokens k (f v) (g w) later) :
    FollowsFrom precedence tokens k (x >>= f) (a >>= g) later := by
  intro s clean
  refine ((h s clean).mono fun v w s₁ _ _ ⟨shown, clean₁, keeps₁⟩ => ?_).bind
  refine (next v w shown s₁ clean₁).mono fun v' w' s' _ _ ⟨shown', clean', keeps'⟩ => ?_
  exact ⟨shown', clean', keeps₁.trans keeps'⟩

end FollowsFrom

end Matching

end ClosureLang
