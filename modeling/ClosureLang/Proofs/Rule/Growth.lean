import ClosureLang.Proofs.Rule.Ends

/-!
# Growing ends

Growing a seed means that the body of a forward is tried once more with a longer result in place of
the forward. The body may lead to other forwards at the same position, which may be grown themselves
and drop the seed in doing so. This module shows what is left of the bookkeeping of `Ready` and
`Kept` when a forward is entered, when its place is marked as met again, and when a seed is planted,
so that the body can be tried again after each of these.

## Entering

The body of a forward is tried with its place open. For the places that were open before, that is
the same as trying the forward: whatever the body leads to, the forward leads to (`Kept.enter`,
`Ready.enter`). A forward that is pending is not entered again, so the place that is opened was not
open before (`Ready.not_opened`).

## Planting

There is a reason to grow only if the body met its own forward. Then every other place that is open
at the position belongs to a forward that this one avoids: what got back to this one did not go
through any of the others, because those are open and would have answered at once
(`Kept.recursive`). So the seeds of the others may be dropped without harm (`Kept.plant`), since
nothing that is tried from now on gets to them before they are done (`Ready.found_plant`).

What becomes of the own place depends on the grammar. If the seed of the forward stays whatever the
body does, the place stays open and the body can be tried again (`Ready.plant_open`). If it does
not, all left recursion of the forward goes through another one whose seed stays, and the place is
grown from then on (`Ready.plant_grown`). A place that is grown is not grown a second time: to be
tried again at all, the forward that its left recursion goes through has to be open, and then it
cannot have met itself without that one (`Ready.not_grown`).
-/

set_option autoImplicit false

namespace ClosureLang

namespace MemoTable

variable {empty : Nat → Bool} {n : Nat} {t : MemoTable} {place : Place}

/-- A match within its tokens may be remembered. -/
theorem Sound.insert (sound : t.Sound n empty) {memo : Memo}
    (within : ∀ m, memo = .resolved (some m) → m.Within n place.position (empty place.id)) :
    (t.insert place memo).Sound n empty := by
  intro other m found
  by_cases same : other = place
  · subst same
    rw [find?_insert_self] at found
    exact within m (Option.some.inj found)
  · rw [find?_insert_of_ne t memo same] at found
    exact sound other m found

/-- Dropping results keeps the others within their tokens. -/
theorem Sound.forget (sound : t.Sound n empty) : (t.forget place).Sound n empty := by
  intro other m found
  rw [find?_forget] at found
  exact sound other m (Option.filter_eq_some_iff.mp found).1

/-- What is remembered for other positions, for the place itself, or as pending is not dropped. -/
theorem find?_forget_of_survives {other : Place}
    (h : ∀ memo, t.find? other = some memo → survives place (other, memo) = true) :
    (t.forget place).find? other = t.find? other := by
  rw [find?_forget]
  cases found : t.find? other with
  | none => rfl
  | some memo => rw [Option.filter_some, h memo found, if_pos rfl]

/-- A planted seed is found again. -/
theorem find?_plant_self (result : Match) :
    ((t.insert place (.resolved (some result))).forget place).find? place =
      some (.resolved (some result)) := by
  rw [find?_forget_of_survives fun memo _ => by simp [survives], find?_insert_self]

end MemoTable

section

variable {definitions : Definitions} {empty : Nat → Bool} {n : Nat}
  {opened grown wider : Finset Place}
  {pos : Nat} {target : Forward} {body : Rule} {t t₁ t' : MemoTable}

/-- Two places at one position are the same as soon as they belong to the same forward. -/
theorem Place.id_ne {place : Place} (apart : place ≠ ⟨target.id, pos⟩)
    (here : place.position = pos) : target.id ≠ place.id := by
  rintro same
  apply apart
  cases place
  simp_all

/-- An open place is remembered as long as its forward can be tried there. -/
theorem Ready.not_opened (h : Ready definitions empty n opened grown pos [target.id] t)
    (absent : t.find? ⟨target.id, pos⟩ = none) : ⟨target.id, pos⟩ ∉ opened := by
  intro isOpen
  rcases h.found _ isOpen rfl with ⟨b, hb⟩ | ⟨⟨m, hm⟩ | unled, -⟩
  · rw [absent] at hb
    cases hb
  · rw [absent] at hm
    cases hm
  · exact unled target.id List.mem_cons_self .here

/-- Something else is remembered for a place that is not open. -/
theorem Kept.remember (sound : t.Sound n empty) (closed : ⟨target.id, pos⟩ ∉ opened) {memo : Memo}
    (within : ∀ m, memo = .resolved (some m) → m.Within n pos (empty target.id)) :
    Kept definitions empty n opened pos [target.id] t (t.insert ⟨target.id, pos⟩ memo) := by
  have same : ∀ place ∈ opened, (t.insert ⟨target.id, pos⟩ memo).find? place = t.find? place :=
    fun place isOpen => t.find?_insert_of_ne memo fun eq => closed (eq ▸ isOpen)
  refine ⟨sound.insert within, fun place lt => ?_, fun place isOpen _ b hb => ?_,
    fun place isOpen _ m hm => ?_⟩
  · exact t.find?_insert_of_ne memo fun eq => by simp [eq] at lt
  · exact ⟨b, (same place isOpen).trans hb, .inl⟩
  · exact .inl ⟨m, (same place isOpen).trans hm⟩

/-- A forward that is met again is marked, whether its place is open or not. -/
theorem Kept.mark {b : Bool} (sound : t.Sound n empty)
    (pending : t.find? ⟨target.id, pos⟩ = some (.pending b)) :
    Kept definitions empty n opened pos [target.id] t
      (t.insert ⟨target.id, pos⟩ (.pending true)) := by
  refine ⟨sound.insert (fun m hm => by cases hm), fun place lt => ?_, fun place _ _ b' hb' => ?_,
    fun place _ _ m hm => ?_⟩
  · exact t.find?_insert_of_ne _ fun eq => by simp [eq] at lt
  · by_cases same : place = ⟨target.id, pos⟩
    · subst same
      exact ⟨true, t.find?_insert_self .., fun _ =>
        .inr fun _ _ _ _ => ⟨target.id, List.mem_cons_self, .here⟩⟩
    · exact ⟨b', (t.find?_insert_of_ne _ same).trans hb', .inl⟩
  · refine .inl ⟨m, (t.find?_insert_of_ne _ fun same => ?_).trans hm⟩
    rw [same, pending] at hm
    cases hm

/-- What happened to some open places happened to fewer of them. -/
theorem Kept.narrow {forwards : List Nat}
    (h : Kept definitions empty n wider pos forwards t t') (sub : opened ⊆ wider) :
    Kept definitions empty n opened pos forwards t t' where
  sound := h.sound
  earlier := h.earlier
  pending place isOpen here b hb := by
    obtain ⟨b', hb', led⟩ := h.pending place (sub isOpen) here b hb
    exact ⟨b', hb', fun marked => (led marked).imp_right fun leads other hother =>
      leads other (sub hother)⟩
  seed place isOpen := h.seed place (sub isOpen)

/-- The body of a forward does to the places that were open before what the forward does. -/
theorem Kept.enter (defined : definitions target = some body)
    (closed : ⟨target.id, pos⟩ ∉ opened)
    (h : Kept definitions empty n opened pos (body.starts empty) t t') :
    Kept definitions empty n opened pos [target.id] t t' where
  sound := h.sound
  earlier := h.earlier
  pending place isOpen here b hb := by
    obtain ⟨b', hb', led⟩ := h.pending place isOpen here b hb
    refine ⟨b', hb', fun marked => (led marked).imp_right fun leads other hother there apart => ?_⟩
    obtain ⟨c, hc, leads⟩ := leads other hother there apart
    have avoids := Place.id_ne (fun same => closed (same ▸ hother)) there
    exact ⟨target.id, List.mem_cons_self, .inside defined avoids hc leads⟩
  seed place isOpen here m hm := by
    refine (h.seed place isOpen here m hm).imp_right ?_
    rintro ⟨c, hc, spoils⟩
    have avoids := Place.id_ne (fun same => closed (same ▸ isOpen)) here
    exact ⟨target.id, List.mem_cons_self, spoils.enter defined avoids hc⟩

/-- Inside a forward, a place that is grown is still only led to through the same one. -/
theorem Ready.anchored_enter (h : Ready definitions empty n opened grown pos [target.id] t)
    (defined : definitions target = some body) {place : Place} (isGrown : place ∈ grown)
    (here : place.position = pos) : ∃ a, definitions.SeedStays empty a ∧
      ¬ definitions.RecursiveWithout empty a place.id ∧ (a = target.id ∨ ⟨a, pos⟩ ∈ opened ∨
        ∀ c ∈ body.starts empty, ¬ definitions.Leads empty a c place.id) := by
  obtain ⟨a, stays, through, held⟩ := h.anchored place isGrown here
  refine ⟨a, stays, through, ?_⟩
  by_cases same : a = target.id
  · exact .inl same
  · refine .inr (held.imp_right fun unled c hc leads => ?_)
    exact unled target.id List.mem_cons_self (.inside defined (Ne.symm same) hc leads)

/-- Opening a place at the position puts nothing further on. -/
theorem Ready.within_insert (h : Ready definitions empty n opened grown pos [target.id] t) :
    ∀ place ∈ insert ⟨target.id, pos⟩ opened ∪ grown, place.position ≤ pos := by
  intro place held
  rw [Finset.insert_union] at held
  rcases Finset.mem_insert.mp held with rfl | held
  · exact Nat.le_refl pos
  · exact h.within place held

/-- With the place of the forward open, every grown place at the position still goes through a
forward whose seed stays: one that is open, or one that the body does not get to. -/
theorem Ready.anchored_insert (h : Ready definitions empty n opened grown pos [target.id] t)
    (defined : definitions target = some body) {place : Place} (isGrown : place ∈ grown)
    (here : place.position = pos) : ∃ a, definitions.SeedStays empty a ∧
      ¬ definitions.RecursiveWithout empty a place.id ∧
        (⟨a, pos⟩ ∈ insert ⟨target.id, pos⟩ opened ∨
          ∀ c ∈ body.starts empty, ¬ definitions.Leads empty a c place.id) := by
  obtain ⟨a, stays, through, same | isOpen | unled⟩ := h.anchored_enter defined isGrown here
  · exact ⟨a, stays, through, .inl (same ▸ Finset.mem_insert_self ..)⟩
  · exact ⟨a, stays, through, .inl (Finset.mem_insert_of_mem isOpen)⟩
  · exact ⟨a, stays, through, .inr unled⟩

/-- The body of a forward can be tried when the forward can be, once its place is pending. -/
theorem Ready.enter (h : Ready definitions empty n opened grown pos [target.id] t)
    (defined : definitions target = some body) (closed : ⟨target.id, pos⟩ ∉ opened) :
    Ready definitions empty n (insert ⟨target.id, pos⟩ opened) grown pos (body.starts empty)
      (t.insert ⟨target.id, pos⟩ (.pending false)) where
  sound := h.sound.insert fun m hm => by cases hm
  within := h.within_insert
  found place isOpen here := by
    rcases Finset.mem_insert.mp isOpen with rfl | isOpen
    · exact .inl ⟨false, t.find?_insert_self ..⟩
    have apart : place ≠ ⟨target.id, pos⟩ := fun same => closed (same ▸ isOpen)
    have avoids := Place.id_ne apart here
    rw [t.find?_insert_of_ne _ apart]
    refine (h.found place isOpen here).imp_right fun ⟨found, keeps⟩ =>
      ⟨?_, keeps.enter defined avoids⟩
    exact found.imp_right fun unled c hc leads =>
      unled target.id List.mem_cons_self (.inside defined avoids hc leads)
  anchored _ := h.anchored_insert defined

/-- The forward of a place that got marked while its body was tried avoids all other open places. -/
theorem Kept.recursive (defined : definitions target = some body)
    (closed : ⟨target.id, pos⟩ ∉ opened)
    (h : Kept definitions empty n (insert ⟨target.id, pos⟩ opened) pos (body.starts empty)
      (t.insert ⟨target.id, pos⟩ (.pending false)) t')
    (marked : t'.find? ⟨target.id, pos⟩ = some (.pending true)) :
    ∀ place ∈ opened, place.position = pos →
      definitions.RecursiveWithout empty place.id target.id := by
  intro place isOpen here
  obtain ⟨b', hb', led⟩ := h.pending ⟨target.id, pos⟩ (Finset.mem_insert_self ..) rfl false
    (t.find?_insert_self ..)
  rw [marked] at hb'
  cases hb'
  rcases led rfl with untrue | leads
  · cases untrue
  · obtain ⟨c, hc, leads⟩ := leads place (Finset.mem_insert_of_mem isOpen) here
      fun same => closed (same ▸ isOpen)
    exact ⟨target, body, c, rfl, defined, hc, leads⟩

variable {seed : Match}

/-- Planting a seed only drops seeds that the forward avoids. -/
theorem Kept.plant (sound : t.Sound n empty) (closed : ⟨target.id, pos⟩ ∉ opened)
    (within : seed.Within n pos (empty target.id))
    (recursive : ∀ place ∈ opened, place.position = pos →
      definitions.RecursiveWithout empty place.id target.id) :
    Kept definitions empty n opened pos [target.id] t
      ((t.insert ⟨target.id, pos⟩ (.resolved (some seed))).forget ⟨target.id, pos⟩) where
  sound := (sound.insert fun m hm => by cases hm; exact within).forget
  earlier place lt := by
    have apart : place ≠ ⟨target.id, pos⟩ := fun same => by simp [same] at lt
    rw [MemoTable.find?_forget_of_survives fun memo _ => ?_, t.find?_insert_of_ne _ apart]
    simp only [MemoTable.survives, Bool.or_eq_true, bne_iff_ne]
    exact .inl (.inl (Nat.ne_of_lt lt))
  pending place isOpen _ b hb := by
    have apart : place ≠ ⟨target.id, pos⟩ := fun same => closed (same ▸ isOpen)
    have found : (t.insert ⟨target.id, pos⟩ (.resolved (some seed))).find? place =
      some (.pending b) := (t.find?_insert_of_ne _ apart).trans hb
    refine ⟨b, ?_, .inl⟩
    rw [MemoTable.find?_forget_of_survives fun memo hmemo => ?_, found]
    rw [found] at hmemo
    cases hmemo
    simp [MemoTable.survives, Memo.isPending]
  seed place isOpen here m _ := by
    have avoids := Place.id_ne (fun same => closed (same ▸ isOpen)) here
    exact .inr ⟨target.id, List.mem_cons_self, target.id, .here, avoids,
      recursive place isOpen here⟩

/-- When a seed was planted, the places that were open before still show it, or their forwards are
not led to. -/
theorem Ready.found_plant (h : Ready definitions empty n opened grown pos [target.id] t)
    (defined : definitions target = some body) (closed : ⟨target.id, pos⟩ ∉ opened)
    (recursive : ∀ place ∈ opened, place.position = pos →
      definitions.RecursiveWithout empty place.id target.id)
    (kept : Kept definitions empty n opened pos [target.id] t t') {place : Place}
    (isOpen : place ∈ opened) (here : place.position = pos) :
    (∃ b, t'.find? place = some (.pending b)) ∨
      (∀ c ∈ body.starts empty, ¬ definitions.Leads empty place.id c place.id) ∧
        definitions.KeepsSeed empty place.id (body.starts empty) := by
  have avoids := Place.id_ne (fun same => closed (same ▸ isOpen)) here
  rcases h.found place isOpen here with ⟨b, hb⟩ | ⟨-, keeps⟩
  · obtain ⟨b', hb', -⟩ := kept.pending place isOpen here b hb
    exact .inl ⟨b', hb'⟩
  · have inside := keeps.inside target.id List.mem_cons_self target body defined avoids .here
    exact .inr ⟨inside.2 (recursive place isOpen here), keeps.enter defined avoids⟩

/-- The body can be tried again when a seed was planted that stays. The place is open then. -/
theorem Ready.plant_open (h : Ready definitions empty n opened grown pos [target.id] t)
    (defined : definitions target = some body) (stays : definitions.SeedStays empty target.id)
    (closed : ⟨target.id, pos⟩ ∉ opened)
    (recursive : ∀ place ∈ opened, place.position = pos →
      definitions.RecursiveWithout empty place.id target.id)
    (kept : Kept definitions empty n opened pos [target.id] t
      ((t₁.insert ⟨target.id, pos⟩ (.resolved (some seed))).forget ⟨target.id, pos⟩)) :
    Ready definitions empty n (insert ⟨target.id, pos⟩ opened) grown pos (body.starts empty)
      ((t₁.insert ⟨target.id, pos⟩ (.resolved (some seed))).forget ⟨target.id, pos⟩) where
  sound := kept.sound
  within := h.within_insert
  found place isOpen here := by
    rcases Finset.mem_insert.mp isOpen with rfl | isOpen
    · exact .inr ⟨.inl ⟨seed, MemoTable.find?_plant_self seed⟩, stays target body rfl defined⟩
    · refine (h.found_plant defined closed recursive kept isOpen here).imp_right ?_
      exact fun ⟨unled, keeps⟩ => ⟨.inr unled, keeps⟩
  anchored _ := h.anchored_insert defined

/-- The body can be tried again when a seed was planted that does not stay, if all left recursion of
the forward goes through another one whose seed stays. The place is grown then. -/
theorem Ready.plant_grown (h : Ready definitions empty n opened grown pos [target.id] t)
    (defined : definitions target = some body) (lost : ¬ definitions.SeedStays empty target.id)
    {a : Nat} (stays : definitions.SeedStays empty a)
    (through : ¬ definitions.RecursiveWithout empty a target.id)
    (closed : ⟨target.id, pos⟩ ∉ opened)
    (recursive : ∀ place ∈ opened, place.position = pos →
      definitions.RecursiveWithout empty place.id target.id)
    (kept : Kept definitions empty n opened pos [target.id] t t') :
    Ready definitions empty n opened (insert ⟨target.id, pos⟩ grown) pos (body.starts empty)
      t' where
  sound := kept.sound
  within place held := by
    rw [Finset.union_insert] at held
    rcases Finset.mem_insert.mp held with rfl | held
    · exact Nat.le_refl pos
    · exact h.within place held
  found place isOpen here := by
    refine (h.found_plant defined closed recursive kept isOpen here).imp_right ?_
    exact fun ⟨unled, keeps⟩ => ⟨.inr unled, keeps⟩
  anchored place isGrown here := by
    rcases Finset.mem_insert.mp isGrown with rfl | isGrown
    · refine ⟨a, stays, through, .inr fun c hc leads => through ?_⟩
      exact ⟨target, body, c, rfl, defined, hc, leads⟩
    obtain ⟨b, stays, through, same | isOpen | unled⟩ := h.anchored_enter defined isGrown here
    · exact absurd (same ▸ stays) lost
    · exact ⟨b, stays, through, .inl isOpen⟩
    · exact ⟨b, stays, through, .inr unled⟩

/-- A place that is grown is not grown again: the forward that its left recursion goes through is
open, so it cannot have met itself. -/
theorem Ready.not_grown (h : Ready definitions empty n opened grown pos [target.id] t)
    (recursive : ∀ place ∈ opened, place.position = pos →
      definitions.RecursiveWithout empty place.id target.id) : ⟨target.id, pos⟩ ∉ grown := by
  intro isGrown
  obtain ⟨a, -, through, isOpen | unled⟩ := h.anchored _ isGrown rfl
  · exact through (recursive ⟨a, pos⟩ isOpen rfl)
  · exact unled target.id List.mem_cons_self .here

end

end ClosureLang
