import ClosureLang.Rule.Basic

/-!
# Remembered results

While a token list is read, the result of every forward is remembered for the position at which it
was tried. A forward whose body is being tried is marked pending, so that it is noticed when it is
tried again at the same position. Results are kept under the forward's number and the position
alone.

The two laws on `find?` say what the two changes do: `insert` changes one place, and `forget` drops
what may have been built on an outgrown seed.
-/

set_option autoImplicit false

namespace ClosureLang

/-- A match: its value, and the position right after its last token. -/
structure Match where
  value : Value
  stop : Nat
  deriving Repr, Inhabited

/-- What is remembered for one forward at one position. -/
inductive Memo where
  /-- The body is being tried; `reentered` says whether the forward was met again meanwhile. -/
  | pending (reentered : Bool)
  /-- The result: a match, or that there is none. -/
  | resolved (result : Option Match)
  deriving Repr, Inhabited

/-- Whether the body of the forward is being tried. -/
def Memo.isPending : Memo → Bool
  | pending _ => true
  | resolved _ => false

/-- Where a result is remembered: the number of a forward and a position. -/
structure Place where
  id : Nat
  position : Nat
  deriving DecidableEq, Repr, Inhabited

/-- The remembered results, at most one for each place. -/
structure MemoTable where
  rows : List (Place × Memo)
  nodup : (rows.map Prod.fst).Nodup

namespace MemoTable

/-- Nothing is remembered. -/
def empty : MemoTable := ⟨[], List.nodup_nil⟩

instance : EmptyCollection MemoTable := ⟨empty⟩

instance : Inhabited MemoTable := ⟨empty⟩

/-- What is remembered for a place. -/
def find? (t : MemoTable) (place : Place) : Option Memo := t.rows.lookup place

/-- The rows for all other places. -/
def rowsWithout (place : Place) : List (Place × Memo) → List (Place × Memo)
  | [] => []
  | row :: rows => if row.1 = place then rows else row :: rowsWithout place rows

theorem rowsWithout_sublist (place : Place) (rows : List (Place × Memo)) :
    (rowsWithout place rows).Sublist rows := by
  induction rows with
  | nil => exact .slnil
  | cons row rows ih =>
    unfold rowsWithout
    split
    · exact List.sublist_cons_self ..
    · exact ih.cons_cons _

theorem not_mem_rowsWithout {place : Place} {rows : List (Place × Memo)}
    (h : (rows.map Prod.fst).Nodup) : place ∉ (rowsWithout place rows).map Prod.fst := by
  induction rows with
  | nil => simp [rowsWithout]
  | cons row rows ih =>
    rw [List.map_cons, List.nodup_cons] at h
    unfold rowsWithout
    split
    · next heq => exact heq ▸ h.1
    · next hne =>
      rw [List.map_cons, List.mem_cons]
      exact not_or.mpr ⟨fun heq => hne heq.symm, ih h.2⟩

theorem lookup_rowsWithout_of_ne {place other : Place} (h : other ≠ place)
    (rows : List (Place × Memo)) : (rowsWithout place rows).lookup other = rows.lookup other := by
  have hb : (other == place) = false := beq_eq_false_iff_ne.mpr h
  induction rows with
  | nil => rfl
  | cons row rows ih =>
    obtain ⟨key, memo⟩ := row
    unfold rowsWithout
    split
    · next heq =>
      have hk : key = place := heq
      simp [List.lookup_cons, hk, hb]
    · simp [List.lookup_cons, ih]

/-- Remembers `memo` for a place, in place of what was remembered there. -/
def insert (t : MemoTable) (place : Place) (memo : Memo) : MemoTable :=
  ⟨(place, memo) :: rowsWithout place t.rows, by
    rw [List.map_cons, List.nodup_cons]
    exact ⟨not_mem_rowsWithout t.nodup, t.nodup.sublist ((rowsWithout_sublist ..).map _)⟩⟩

/-- Whether a row survives when the seed at `place` is outgrown: results of other forwards at the
same position may have been built on the seed; marks and results elsewhere stay. -/
def survives (place : Place) (row : Place × Memo) : Bool :=
  row.1.position != place.position || row.1.id == place.id || row.2.isPending

/-- Drops the results that may have been built on an outgrown seed at `place`. -/
def forget (t : MemoTable) (place : Place) : MemoTable :=
  ⟨t.rows.filter (survives place), t.nodup.sublist (List.filter_sublist.map _)⟩

@[simp] theorem find?_empty (place : Place) : (∅ : MemoTable).find? place = none := rfl

@[simp] theorem find?_insert_self (t : MemoTable) (place : Place) (memo : Memo) :
    (t.insert place memo).find? place = some memo := by
  simp [find?, insert]

theorem find?_insert_of_ne (t : MemoTable) {place other : Place} (memo : Memo)
    (h : other ≠ place) : (t.insert place memo).find? other = t.find? other := by
  have hb : (other == place) = false := beq_eq_false_iff_ne.mpr h
  simp [find?, insert, List.lookup_cons, hb, lookup_rowsWithout_of_ne h]

theorem lookup_eq_none_of_not_mem {place : Place} {rows : List (Place × Memo)}
    (h : place ∉ rows.map Prod.fst) : rows.lookup place = none := by
  rw [List.lookup_eq_none_iff]
  intro row hrow
  exact bne_iff_ne.mpr fun heq => h (heq ▸ List.mem_map_of_mem hrow)

theorem lookup_filter {rows : List (Place × Memo)} (h : (rows.map Prod.fst).Nodup)
    (keep : Place × Memo → Bool) (place : Place) :
    (rows.filter keep).lookup place =
      (rows.lookup place).filter fun memo => keep (place, memo) := by
  induction rows with
  | nil => rfl
  | cons row rows ih =>
    obtain ⟨key, memo⟩ := row
    rw [List.map_cons, List.nodup_cons] at h
    rw [List.filter_cons, List.lookup_cons]
    by_cases heq : place = key
    · subst heq
      have hnone := lookup_eq_none_of_not_mem h.1
      cases hk : keep (place, memo) <;> simp [Option.filter, hk, ih h.2, hnone]
    · have hb : (place == key) = false := beq_eq_false_iff_ne.mpr heq
      cases hk : keep (key, memo)
      · simp [hb, ih h.2]
      · rw [if_pos rfl, List.lookup_cons, hb, ih h.2]

theorem find?_forget (t : MemoTable) (place other : Place) :
    (t.forget place).find? other =
      (t.find? other).filter fun memo => survives place (other, memo) :=
  lookup_filter t.nodup _ _

end MemoTable

end ClosureLang
