/-!
# Name tables

A name table numbers distinct texts 0, 1, 2, … in the order in which they are first used. The
language needs such tables in three places: the ref cells of a unit, the literals of a unit, and the
names that a walk over a unit meets. A text that is already present keeps its number, so no text
occurs twice; the structure carries that fact.
-/

set_option autoImplicit false

namespace ClosureLang

/-- Distinct texts in the order of their first use. A text's number is its position.

An interner and an insertion-ordered set behave so: the first text added gets the number 0, each new
one the next number, and a text that is there already changes nothing and yields its number. -/
structure NameTable where
  /-- The texts; position `i` holds the text with number `i`. -/
  entries : List String
  /-- No text has two numbers. -/
  nodup : entries.Nodup
  deriving DecidableEq, Repr

namespace NameTable

/-- The table without entries. -/
def empty : NameTable := ⟨[], List.nodup_nil⟩

instance : EmptyCollection NameTable := ⟨empty⟩

instance : Inhabited NameTable := ⟨empty⟩

instance : Membership String NameTable := ⟨fun t name => name ∈ t.entries⟩

instance (name : String) (t : NameTable) : Decidable (name ∈ t) :=
  inferInstanceAs (Decidable (name ∈ t.entries))

/-- How many texts the table holds, which is the number the next new text gets. -/
def size (t : NameTable) : Nat := t.entries.length

/-- The number of `name`, if it is present. -/
def index? (t : NameTable) (name : String) : Option Nat := t.entries.idxOf? name

/-- Adds `name` at the end, under the next number, unless it is present. -/
def insert (t : NameTable) (name : String) : NameTable :=
  if h : name ∈ t.entries then t
  else ⟨t.entries ++ [name], by
    rw [List.nodup_append]
    refine ⟨t.nodup, by simp, ?_⟩
    intro a ha b hb hab
    rw [List.mem_singleton] at hb
    exact h (hb ▸ hab ▸ ha)⟩

/-- Adds each of `names` in order. -/
def insertAll (t : NameTable) (names : List String) : NameTable := names.foldl insert t

/-- The number of `name` together with the table in which it has that number: the old one if `name`
is present, else the next. -/
def intern (t : NameTable) (name : String) : Nat × NameTable :=
  ((t.index? name).getD t.size, t.insert name)

/-- The entries that satisfy `keep`, in their order. -/
def filter (keep : String → Bool) (t : NameTable) : NameTable :=
  ⟨t.entries.filter keep, t.nodup.sublist List.filter_sublist⟩

/-! ## The entries after each operation -/

theorem mem_def {t : NameTable} {name : String} : name ∈ t ↔ name ∈ t.entries := Iff.rfl

@[simp] theorem entries_empty : (∅ : NameTable).entries = [] := rfl

@[simp] theorem entries_filter (keep : String → Bool) (t : NameTable) :
    (t.filter keep).entries = t.entries.filter keep := rfl

theorem entries_insert (t : NameTable) (name : String) :
    (t.insert name).entries = if name ∈ t.entries then t.entries else t.entries ++ [name] := by
  unfold insert
  split <;> rfl

theorem mem_insert {t : NameTable} {name other : String} :
    other ∈ t.insert name ↔ other ∈ t ∨ other = name := by
  rw [mem_def, entries_insert, mem_def]
  split
  · next h => exact ⟨Or.inl, fun h' => h'.elim id (fun e => e ▸ h)⟩
  · simp

/-- A text that is present has a number, and only such a text has one. -/
theorem index?_eq_none_iff {t : NameTable} {name : String} : t.index? name = none ↔ name ∉ t :=
  List.idxOf?_eq_none_iff

/-- An interned text is found again under the number that was handed out. -/
theorem index?_intern (t : NameTable) (name : String) :
    (t.intern name).2.index? name = some (t.intern name).1 := by
  by_cases h : name ∈ t.entries
  · cases hi : t.entries.idxOf? name with
    | none => exact absurd h (List.idxOf?_eq_none_iff.mp hi)
    | some i => simp [intern, index?, entries_insert, h, hi]
  · have hf : t.entries.findIdx? (· == name) = none := List.idxOf?_eq_none_iff.mpr h
    simp [intern, index?, entries_insert, h, size, List.idxOf?, List.findIdx?_append, hf,
      List.findIdx?_cons]

end NameTable

end ClosureLang
