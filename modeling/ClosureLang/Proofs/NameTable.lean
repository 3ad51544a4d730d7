import Mathlib.Data.List.Basic
import ClosureLang.NameTable

/-!
# Tables that continue one another

A name table only grows at its end. A later table continues an earlier one: it starts with the same
entries, so a text that had a number keeps it. What adding names appends are those that are new,
once each, in the order of their first use.

Tables are used in three places: for the cells of a unit, for the names that the walk of the
resolver meets, and for the literals of a unit. All of them are filled while something else is going
on, and are asked for numbers before they are complete. `Continues` is what makes such a number good
for the finished table, and `entries_insertAll` says what the finished table is without going
through the steps: the new entries without repeats.
-/

set_option autoImplicit false

namespace ClosureLang

/-! ## Lists without repeats -/

section eraseDups

variable {α : Type} [BEq α] [LawfulBEq α]

/-- It does not matter whether repeats are taken out before or after other entries. -/
theorem eraseDups_filter (keep : α → Bool) :
    ∀ l : List α, (l.filter keep).eraseDups = l.eraseDups.filter keep
  | [] => rfl
  | a :: l => by
    have rest := eraseDups_filter keep (l.filter fun b => !b == a)
    rw [List.eraseDups_cons]
    by_cases kept : keep a = true
    · rw [List.filter_cons_of_pos kept, List.filter_cons_of_pos kept, List.eraseDups_cons,
        List.filter_comm, rest]
    · have apart : (l.filter fun b => !b == a).filter keep = l.filter keep := by
        rw [List.filter_filter]
        refine List.filter_congr fun b _ => ?_
        by_cases same : b = a
        · simp [same, kept]
        · simp [same]
      rw [List.filter_cons_of_neg kept, List.filter_cons_of_neg kept, ← rest, apart]
termination_by l => l.length
decreasing_by
  all_goals exact Nat.lt_succ_of_le (List.length_filter_le _ _)

/-- A list without repeats keeps all of its elements. -/
theorem eraseDups_of_nodup {l : List α} (distinct : l.Nodup) : l.eraseDups = l := by
  induction l with
  | nil => rfl
  | cons a l ih =>
    rw [List.nodup_cons] at distinct
    have others : l.filter (fun b => !b == a) = l :=
      List.filter_eq_self.mpr fun b inside => by
        have apart : b ≠ a := fun same => distinct.1 (same ▸ inside)
        simpa using apart
    rw [List.eraseDups_cons, others, ih distinct.2]

/-- Different entries that stay different are repeated where they were repeated before. -/
theorem eraseDups_map {β : Type} [BEq β] [LawfulBEq β] {f : α → β} :
    ∀ {l : List α}, (∀ a ∈ l, ∀ b ∈ l, f a = f b → a = b) →
      (l.map f).eraseDups = l.eraseDups.map f
  | [], _ => rfl
  | a :: l, distinct => by
    have others : (l.map f).filter (fun b => !b == f a) = (l.filter fun b => !b == a).map f := by
      rw [List.filter_map]
      refine congrArg (List.map f) (List.filter_congr fun b inside => ?_)
      have same : f b = f a ↔ b = a := ⟨distinct b (List.mem_cons_of_mem a inside) a
        List.mem_cons_self, congrArg f⟩
      simp [same]
    have rest := eraseDups_map (f := f) (l := l.filter fun b => !b == a) fun b mem c mem' =>
      distinct b (List.mem_cons_of_mem a (List.mem_of_mem_filter mem)) c
        (List.mem_cons_of_mem a (List.mem_of_mem_filter mem'))
    rw [List.map_cons, List.eraseDups_cons, others, rest, List.eraseDups_cons, List.map_cons]
termination_by l => l.length
decreasing_by
  exact Nat.lt_succ_of_le (List.length_filter_le _ _)

end eraseDups

namespace NameTable

variable {t u v : NameTable} {name : String}

/-- Tables with the same entries are the same. -/
theorem eq_of_entries (h : t.entries = u.entries) : t = u := by
  cases t
  cases u
  congr

/-- `u` starts with the entries of `t`. -/
def Continues (u t : NameTable) : Prop := t.entries <+: u.entries

/-- A table continues itself. -/
theorem Continues.refl (t : NameTable) : t.Continues t := List.prefix_rfl

/-- What continues a later table continues an earlier one. -/
theorem Continues.trans (h : v.Continues u) (h' : u.Continues t) : v.Continues t :=
  List.IsPrefix.trans h' h

/-- Adding a name continues the table. -/
theorem continues_insert (t : NameTable) (name : String) : (t.insert name).Continues t := by
  unfold Continues
  rw [entries_insert]
  split
  · exact List.prefix_rfl
  · exact List.prefix_append ..

/-- Adding names continues the table. -/
theorem continues_insertAll (t : NameTable) (names : List String) :
    (t.insertAll names).Continues t := by
  induction names generalizing t with
  | nil => exact .refl t
  | cons name names ih => exact (ih (t.insert name)).trans (continues_insert t name)

@[simp] theorem insertAll_nil (t : NameTable) : t.insertAll [] = t := rfl

@[simp] theorem insertAll_cons (t : NameTable) (name : String) (names : List String) :
    t.insertAll (name :: names) = (t.insert name).insertAll names := rfl

/-- Names may be added in two parts. -/
theorem insertAll_append (t : NameTable) (names more : List String) :
    t.insertAll (names ++ more) = (t.insertAll names).insertAll more :=
  List.foldl_append ..

/-- After adding names there are those from before and those that were added. -/
theorem mem_insertAll {t : NameTable} {names : List String} {name : String} :
    name ∈ t.insertAll names ↔ name ∈ t ∨ name ∈ names := by
  induction names generalizing t with
  | nil => simp
  | cons first names ih => rw [insertAll_cons, ih, mem_insert, List.mem_cons, or_assoc]

/-- Adding names to a table appends those that are new, without repeats. -/
theorem entries_insertAll (t : NameTable) (names : List String) :
    (t.insertAll names).entries =
      t.entries ++ (names.filter fun name => name ∉ t.entries).eraseDups := by
  induction names generalizing t with
  | nil => simp
  | cons name names ih =>
    rw [insertAll_cons, ih, entries_insert]
    by_cases present : name ∈ t.entries
    · rw [if_pos present, List.filter_cons_of_neg (by simpa using present)]
    · have split : names.filter (fun other => other ∉ t.entries ++ [name]) =
          (names.filter fun other => other ∉ t.entries).filter fun other => !other == name := by
        rw [List.filter_filter]
        refine List.filter_congr fun other _ => ?_
        by_cases same : other = name <;> simp [same]
      rw [if_neg present, List.filter_cons_of_pos (by simpa using present), List.eraseDups_cons,
        split, List.append_assoc]
      rfl

/-- The names that are added to the empty table are entered once each, where they first occur. -/
theorem entries_insertAll_empty (names : List String) :
    ((∅ : NameTable).insertAll names).entries = names.eraseDups := by
  simp [entries_insertAll]

/-! ## Numbers -/

/-- A text's number is the position of the text. -/
theorem index?_eq_some_iff {i : Nat} : t.index? name = some i ↔ t.entries[i]? = some name := by
  constructor
  · intro h
    have found := List.findIdx?_eq_some_iff_getElem.mp h
    obtain ⟨bound, eq, _⟩ := found
    rw [List.getElem?_eq_getElem bound]
    exact congrArg some (by simpa using eq)
  · intro h
    obtain ⟨bound, eq⟩ := List.getElem?_eq_some_iff.mp h
    refine List.findIdx?_eq_some_iff_getElem.mpr ⟨bound, by simpa using eq, fun j hj => ?_⟩
    have inside : j < t.entries.length := Nat.lt_trans hj bound
    have distinct : t.entries[j] ≠ name := by
      intro same
      have found : t.entries[j]? = t.entries[i]? := by
        rw [h, List.getElem?_eq_getElem inside, same]
      exact Nat.ne_of_lt hj ((List.getElem?_inj inside t.nodup).mp found)
    simpa using distinct

/-- A number is less than the size of the table. -/
theorem index?_lt {i : Nat} (h : t.index? name = some i) : i < t.size :=
  (List.getElem?_eq_some_iff.mp (index?_eq_some_iff.mp h)).1

/-- What has a number is in the table. -/
theorem mem_of_index? {i : Nat} (h : t.index? name = some i) : name ∈ t :=
  List.mem_of_getElem? (index?_eq_some_iff.mp h)

/-- What is in the table has a number. -/
theorem exists_index? (h : name ∈ t) : ∃ i, t.index? name = some i :=
  Option.ne_none_iff_exists'.mp fun none => index?_eq_none_iff.mp none h

/-- Two texts with one number are one text. -/
theorem index?_inj {other : String} {i : Nat} (h : t.index? name = some i)
    (h' : t.index? other = some i) : name = other := by
  rw [index?_eq_some_iff] at h h'
  exact Option.some.inj (h.symm.trans h')

/-- A text keeps its number in every table that continues its table. -/
theorem Continues.index? {i : Nat} (h : u.Continues t) (found : t.index? name = some i) :
    u.index? name = some i := by
  obtain ⟨more, eq⟩ := h
  rw [index?_eq_some_iff] at found ⊢
  rw [← eq, List.getElem?_append_left (List.getElem?_eq_some_iff.mp found).1, found]

end NameTable

end ClosureLang
