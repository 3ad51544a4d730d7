import Mathlib.Data.Finset.Card
import ClosureLang.Proofs.Rule.Start

/-!
# Open places

A place is open while the body of its forward is being tried at its position. Most of the time the
remembered results show it: the body is tried for the first time and the place is pending, or it is
tried again and the place holds the seed. The seed may be gone, but then the forward is not tried
there any more.

The seed of a forward that is grown may also be dropped and the forward be tried again, if all its
left recursion goes through another one. Its place is then said to be grown and does not count as
open: the forward can be tried there once more, with the other one open, and is not grown again.

## Before and after a rule

`Ready` is what holds before a rule is tried, and `Kept` says what trying it does to the remembered
results. Both speak of one position and of the forwards that the rule may try there; what happens
further on does not matter for the places that are open.

`Ready` has two parts that do the work. For an open place at the position, `found` says that its
mark or its seed is there, or that nothing to be tried leads to it; and that the seed is kept for as
long as it is needed. For a grown place, `anchored` names the forward whose seed stays and through
which all its left recursion goes: it is open, or nothing to be tried leads to the grown place
without it.

`Kept` says in return that earlier positions are untouched, that a mark is still there, with the
reason if its forward was met again meanwhile, and that a seed is still there, possibly a longer
one, unless one of the forwards that were tried may spoil it.

Sequences and alternatives split both along their lists of forwards: `Ready.left` and `Ready.right`
for the state before, `Kept.trans` for what happens. A part that begins further on, because the part
before it took a token, has no open places at all at its own position (`Ready.further`).
-/

set_option autoImplicit false

namespace ClosureLang

/-- The match starts at `pos`, ends within `n` tokens, and is empty only if it may be. -/
structure Match.Within (n pos : Nat) (nullable : Bool) (m : Match) : Prop where
  start : pos ≤ m.stop
  stop : m.stop ≤ n
  empty : m.stop = pos → nullable = true

/-- The remembered matches are within `n` tokens, and empty only for forwards of `empty`. -/
def MemoTable.Sound (n : Nat) (empty : Nat → Bool) (t : MemoTable) : Prop :=
  ∀ place m, t.find? place = some (.resolved (some m)) →
    m.Within n place.position (empty place.id)

section

variable (definitions : Definitions) (empty : Nat → Bool) (n : Nat)

/-- A rule can be tried at a position at which it may try `forwards`. -/
structure Ready (opened grown : Finset Place) (pos : Nat) (forwards : List Nat) (t : MemoTable) :
    Prop where
  sound : t.Sound n empty
  within : ∀ place ∈ opened ∪ grown, place.position ≤ pos
  found : ∀ place ∈ opened, place.position = pos →
    (∃ b, t.find? place = some (.pending b)) ∨
      ((∃ m, t.find? place = some (.resolved (some m))) ∨
        ∀ c ∈ forwards, ¬ definitions.Leads empty place.id c place.id) ∧
      definitions.KeepsSeed empty place.id forwards
  /-- A place that is grown is only tried again while the forward that its left recursion goes
  through is open. -/
  anchored : ∀ place ∈ grown, place.position = pos →
    ∃ a, definitions.SeedStays empty a ∧ ¬ definitions.RecursiveWithout empty a place.id ∧
      (⟨a, pos⟩ ∈ opened ∨ ∀ c ∈ forwards, ¬ definitions.Leads empty a c place.id)

/-- What remains of the remembered results when `forwards` were tried at a position. -/
structure Kept (opened : Finset Place) (pos : Nat) (forwards : List Nat) (t t' : MemoTable) :
    Prop where
  sound : t'.Sound n empty
  earlier : ∀ place, place.position < pos → t'.find? place = t.find? place
  /-- A place that is newly marked as met again was led to without going through an open one. -/
  pending : ∀ place ∈ opened, place.position = pos → ∀ b, t.find? place = some (.pending b) →
    ∃ b', t'.find? place = some (.pending b') ∧
      (b' = true → b = true ∨ ∀ other ∈ opened, other.position = pos → other ≠ place →
        ∃ c ∈ forwards, definitions.Leads empty other.id c place.id)
  seed : ∀ place ∈ opened, place.position = pos → ∀ m,
    t.find? place = some (.resolved (some m)) →
      (∃ m', t'.find? place = some (.resolved (some m'))) ∨
        ∃ c ∈ forwards, definitions.Spoils empty place.id c

end

variable {definitions : Definitions} {empty : Nat → Bool} {n : Nat} {opened grown : Finset Place}
  {pos later : Nat} {forwards more : List Nat} {t t₁ t' : MemoTable}

namespace Kept

/-- Where nothing is tried, everything remains. -/
theorem refl (sound : t.Sound n empty) : Kept definitions empty n opened pos forwards t t where
  sound := sound
  earlier _ _ := rfl
  pending _ _ _ b h := ⟨b, h, .inl⟩
  seed _ _ _ m h := .inl ⟨m, h⟩

/-- Trying fewer forwards keeps what trying more of them keeps. -/
theorem mono (h : Kept definitions empty n opened pos forwards t t') (sub : forwards ⊆ more) :
    Kept definitions empty n opened pos more t t' where
  sound := h.sound
  earlier := h.earlier
  pending place ho hp b hb := by
    obtain ⟨b', hb', led⟩ := h.pending place ho hp b hb
    refine ⟨b', hb', fun marked => (led marked).imp_right fun leads other hother at_pos apart => ?_⟩
    obtain ⟨c, hc, leads⟩ := leads other hother at_pos apart
    exact ⟨c, sub hc, leads⟩
  seed place ho hp m hm := by
    rcases h.seed place ho hp m hm with found | ⟨c, hc, spoils⟩
    · exact .inl found
    · exact .inr ⟨c, sub hc, spoils⟩

/-- One after the other at the same position. -/
theorem trans (h : Kept definitions empty n opened pos forwards t t₁)
    (h' : Kept definitions empty n opened pos forwards t₁ t') :
    Kept definitions empty n opened pos forwards t t' where
  sound := h'.sound
  earlier place hp := (h'.earlier place hp).trans (h.earlier place hp)
  pending place ho hp b hb := by
    obtain ⟨b₁, hb₁, led₁⟩ := h.pending place ho hp b hb
    obtain ⟨b', hb', led'⟩ := h'.pending place ho hp b₁ hb₁
    exact ⟨b', hb', fun marked => (led' marked).elim led₁ .inr⟩
  seed place ho hp m hm := by
    rcases h.seed place ho hp m hm with ⟨m₁, hm₁⟩ | spoils
    · exact h'.seed place ho hp m₁ hm₁
    · exact .inr spoils

/-- What happens further on does not change this position. -/
theorem further (h : Kept definitions empty n opened pos forwards t t₁) (lt : pos < later)
    (h' : Kept definitions empty n opened later more t₁ t') :
    Kept definitions empty n opened pos forwards t t' where
  sound := h'.sound
  earlier place hp := (h'.earlier place (by omega)).trans (h.earlier place hp)
  pending place ho hp b hb := by
    rw [h'.earlier place (by omega)]
    exact h.pending place ho hp b hb
  seed place ho hp m hm := by
    rw [h'.earlier place (by omega)]
    exact h.seed place ho hp m hm

end Kept

namespace Ready

/-- What can be tried with more forwards to come can be tried with the first of them. -/
theorem left (h : Ready definitions empty n opened grown pos (forwards ++ more) t) :
    Ready definitions empty n opened grown pos forwards t where
  sound := h.sound
  within := h.within
  found place ho hp := by
    refine (h.found place ho hp).imp_right fun ⟨found, keeps⟩ => ⟨found.imp_right ?_, keeps.left⟩
    exact fun unled c hc => unled c (List.mem_append_left more hc)
  anchored place hg hp := by
    obtain ⟨a, stays, through, held⟩ := h.anchored place hg hp
    exact ⟨a, stays, through, held.imp_right fun unled c hc =>
      unled c (List.mem_append_left more hc)⟩

/-- What comes after at the same position. -/
theorem right (h : Ready definitions empty n opened grown pos (forwards ++ more) t)
    (kept : Kept definitions empty n opened pos forwards t t') :
    Ready definitions empty n opened grown pos more t' where
  sound := kept.sound
  within := h.within
  found place ho hp := by
    rcases h.found place ho hp with ⟨b, hb⟩ | ⟨⟨m, hm⟩ | unled, keeps⟩
    · obtain ⟨b', hb', -⟩ := kept.pending place ho hp b hb
      exact .inl ⟨b', hb'⟩
    · refine .inr ⟨?_, keeps.right⟩
      rcases kept.seed place ho hp m hm with found | ⟨c, hc, spoils⟩
      · exact .inl found
      · exact .inr fun d hd => keeps.spoiled hc spoils hd
    · exact .inr ⟨.inr fun c hc => unled c (List.mem_append_right forwards hc), keeps.right⟩
  anchored place hg hp := by
    obtain ⟨a, stays, through, held⟩ := h.anchored place hg hp
    exact ⟨a, stays, through, held.imp_right fun unled c hc =>
      unled c (List.mem_append_right forwards hc)⟩

/-- Further on no place is open or grown. -/
theorem further (h : Ready definitions empty n opened grown pos forwards t)
    (sound : t'.Sound n empty) (lt : pos < later) :
    Ready definitions empty n opened grown later more t' where
  sound := sound
  within place held := Nat.le_trans (h.within place held) (Nat.le_of_lt lt)
  found place ho hp := by
    have := h.within place (Finset.mem_union_left grown ho)
    omega
  anchored place hg hp := by
    have := h.within place (Finset.mem_union_right opened hg)
    omega

end Ready

end ClosureLang
