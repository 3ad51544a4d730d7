import ClosureLang.Proofs.NameTable
import ClosureLang.Scope.Usage

/-!
# The scope that closes a usage

The scope of a unit is built by declaring one name after the other. What comes out can be said at
once: the ref table is the table of the free names continued by the declared names that are lent,
and a declared name has a register unless it is lent without being a parameter. If no parameter is
listed twice, the registers are the positions among those names, and the boxed parameters are the
rows of the registers whose names are lent.

The declarations are a loop over the parameters and then the assigned names. `declareAll` is that
loop from any scope, so that each table can be followed through it by induction. The ref table needs
no condition (`refs_declareAll`); the registers and the boxed parameters do, because a register
number is the number of names before it, which is the position of the name only as long as every
name is new (`locals_declareAll`, `boxedParams_declareAll`).

`Scope.Tidy` is what the machine needs of a scope: distinct names have distinct registers, registers
are below the temporaries, and the boxed parameters are exactly the names with both a register and a
cell.
-/

set_option autoImplicit false

namespace ClosureLang

/-! ## Registers -/

section assignRegister

variable {name other : String} {register : Nat}

/-- A name that gets a register is one of the names, besides those that there were. -/
theorem mem_names_assignRegister {rows : List (String × Nat)} :
    other ∈ (assignRegister name register rows).map Prod.fst ↔
      other = name ∨ other ∈ rows.map Prod.fst := by
  induction rows with
  | nil => simp [assignRegister]
  | cons row rows ih =>
    unfold assignRegister
    split
    · next same => simp [same]
    · next => rw [List.map_cons, List.mem_cons, ih, List.map_cons, List.mem_cons, or_left_comm]

/-- A name without a register gets it at the end. -/
theorem assignRegister_new {rows : List (String × Nat)} (h : name ∉ rows.map Prod.fst) :
    assignRegister name register rows = rows ++ [(name, register)] := by
  induction rows with
  | nil => rfl
  | cons row rows ih =>
    rw [List.map_cons, List.mem_cons, not_or] at h
    rw [assignRegister, if_neg (Ne.symm h.1), ih h.2, List.cons_append]

end assignRegister

/-- A name has a register exactly if it is one of the names. -/
theorem lookup_isSome_iff {rows : List (String × Nat)} {name : String} :
    (rows.lookup name).isSome ↔ name ∈ rows.map Prod.fst := by
  rw [Option.isSome_iff_ne_none, ne_eq, List.lookup_eq_none_iff, List.mem_map]
  grind

/-! ## Bindings -/

/-- What is bound to a cell has that cell. -/
theorem Scope.slot?_of_binding {s : Scope} {name : String} {slot : Nat}
    (h : s.binding? name = some (.cell slot)) : s.slot? name = some slot := by
  unfold binding? at h
  cases found : s.slot? name with
  | some k => simpa [found] using h
  | none => cases register : s.register? name <;> simp [found, register] at h

/-- Only a name without a cell is bound to its register. -/
theorem Scope.register?_of_binding {s : Scope} {name : String} {register : Nat}
    (h : s.binding? name = some (.register register)) :
    s.slot? name = none ∧ s.register? name = some register := by
  unfold binding? at h
  cases found : s.slot? name with
  | some k => simp [found] at h
  | none => cases place : s.register? name <;> simp_all

namespace Usage

variable (u : Usage) (params : List String)

/-- Whether a name has a register if the unit declares it. -/
def inRegister (name : String) : Bool := params.contains name || !u.lent.entries.contains name

/-! ## Declaring names -/

section declare

variable (s : Scope) (name : String)

/-- Declaring a name gives it a cell if it is lent. -/
theorem refs_declare : (u.declare params s name).refs =
    s.refs.insertAll ([name].filter u.lent.entries.contains) := by
  cases lent : u.lent.entries.contains name <;>
    simp [declare, lent, NameTable.intern, -List.contains_eq_mem]

/-- Declaring a name gives it the next register, unless it is lent and no parameter. -/
theorem locals_declare : (u.declare params s name).locals =
    if u.inRegister params name then assignRegister name s.numLocals s.locals else s.locals := by
  unfold declare
  rfl

/-- Declaring a parameter that is lent notes the register it arrives in and the cell it moves to. -/
theorem boxedParams_declare : (u.declare params s name).boxedParams =
    if u.lent.entries.contains name && params.contains name then
      s.boxedParams ++ [(s.numLocals, (s.refs.intern name).1)]
    else s.boxedParams := by
  cases lent : u.lent.entries.contains name <;>
    simp [declare, lent, -List.contains_eq_mem]

/-- A new name takes the register after the ones in use, if it has one, and the names to be declared
after it are still new. -/
theorem declare_new {names : List String} (distinct : (name :: names).Nodup)
    (new : ∀ other ∈ name :: names, other ∉ s.locals.map Prod.fst) :
    (u.declare params s name).locals =
        (if u.inRegister params name then s.locals ++ [(name, s.numLocals)] else s.locals) ∧
      ∀ other ∈ names, other ∉ (u.declare params s name).locals.map Prod.fst := by
  have locals := u.locals_declare params s name
  rw [assignRegister_new (new name List.mem_cons_self)] at locals
  refine ⟨locals, fun other mem => ?_⟩
  have apart : other ≠ name := fun same => (List.nodup_cons.mp distinct).1 (same ▸ mem)
  have old := new other (List.mem_cons_of_mem name mem)
  rw [locals]
  split <;> simp_all

end declare

/-- The scope after further names were declared. -/
def declareAll (s : Scope) (names : List String) : Scope := names.foldl (u.declare params) s

section declareAll

/-- Declaring names leaves how many names are received. -/
theorem captured_declareAll (s : Scope) (names : List String) :
    (u.declareAll params s names).captured = s.captured := by
  induction names generalizing s with
  | nil => rfl
  | cons name names ih => exact ih (u.declare params s name)

/-- Declaring names gives cells to those that are lent, in their order. -/
theorem refs_declareAll (s : Scope) (names : List String) :
    (u.declareAll params s names).refs =
      s.refs.insertAll (names.filter u.lent.entries.contains) := by
  induction names generalizing s with
  | nil => rfl
  | cons name names ih =>
    have first := u.refs_declare params s name
    rw [declareAll, List.foldl_cons, ← declareAll, ih, first, ← NameTable.insertAll_append,
      ← List.filter_append, List.singleton_append]

variable {u params}

/-- After declaring names, the names with registers are those from before and the declared ones that
live in registers. -/
theorem mem_names_declareAll {s : Scope} {names : List String} {name : String} :
    name ∈ (u.declareAll params s names).locals.map Prod.fst ↔
      name ∈ s.locals.map Prod.fst ∨ name ∈ names ∧ u.inRegister params name = true := by
  induction names generalizing s with
  | nil => simp [declareAll]
  | cons first names ih =>
    rw [declareAll, List.foldl_cons, ← declareAll, ih, u.locals_declare params]
    split
    · next kept => rw [mem_names_assignRegister]; grind
    · next dropped => grind

/-- New names, each declared once, take the registers after the ones in use. -/
theorem locals_declareAll {s : Scope} {names : List String} (distinct : names.Nodup)
    (new : ∀ name ∈ names, name ∉ s.locals.map Prod.fst) :
    (u.declareAll params s names).locals =
      s.locals ++ (names.filter (u.inRegister params)).zipIdx s.numLocals := by
  induction names generalizing s with
  | nil => simp [declareAll]
  | cons name names ih =>
    obtain ⟨locals, later⟩ := u.declare_new params s name distinct new
    rw [declareAll, List.foldl_cons, ← declareAll, ih distinct.of_cons later, Scope.numLocals,
      locals]
    cases kept : u.inRegister params name
    · simp [kept, Scope.numLocals]
    · simp [kept, Scope.numLocals, List.zipIdx_cons]

/-- What a boxed parameter's row says: its register, and its slot in a table of names. -/
def boxRow (refs : NameTable) (row : String × Nat) : Nat × Nat :=
  (row.2, (refs.index? row.1).getD 0)

/-- The boxed parameters are the rows of the new registers whose names are lent. -/
theorem boxedParams_declareAll {s : Scope} {names : List String} (distinct : names.Nodup)
    (new : ∀ name ∈ names, name ∉ s.locals.map Prod.fst) :
    (u.declareAll params s names).boxedParams =
      s.boxedParams ++ (((names.filter (u.inRegister params)).zipIdx s.numLocals).filter
        fun row => u.lent.entries.contains row.1).map
          (boxRow (u.declareAll params s names).refs) := by
  induction names generalizing s with
  | nil => simp [declareAll]
  | cons name names ih =>
    obtain ⟨locals, later⟩ := u.declare_new params s name distinct new
    have rest := ih distinct.of_cons later
    have refs : (u.declareAll params (u.declare params s name) names).refs.Continues
        (u.declare params s name).refs :=
      u.refs_declareAll params _ names ▸ NameTable.continues_insertAll ..
    rw [declareAll, List.foldl_cons, ← declareAll, rest, boxedParams_declare]
    cases lent : u.lent.entries.contains name
    case false => simp [locals, Scope.numLocals, lent, inRegister, -List.contains_eq_mem]
    cases param : params.contains name
    case false => simp [locals, Scope.numLocals, lent, param, inRegister, -List.contains_eq_mem]
    have interned : (u.declare params s name).refs = (s.refs.intern name).2 := by
      rw [refs_declare, List.filter_cons_of_pos lent]
      rfl
    have slot := refs.index? (interned ▸ s.refs.index?_intern name)
    simp [locals, Scope.numLocals, lent, param, inRegister, boxRow, slot, -List.contains_eq_mem]

end declareAll

/-! ## The whole scope -/

section close

/-- Closing a usage declares its names one after the other, from a table of the free names. -/
theorem close_eq : u.close params =
    u.declareAll params ⟨[], u.free params, (u.free params).size, []⟩ (u.declared params) := rfl

/-- A unit receives as many names as are free in it. -/
@[simp] theorem captured_close : (u.close params).captured = (u.free params).size := by
  rw [close_eq, captured_declareAll]

/-- The cells of a unit are those of its free names and then those of its declared names that are
lent. -/
theorem refs_close : (u.close params).refs =
    (u.free params).insertAll ((u.declared params).filter u.lent.entries.contains) := by
  rw [close_eq, refs_declareAll]

/-- The cells of the free names come first. -/
theorem refs_close_continues : (u.close params).refs.Continues (u.free params) :=
  u.refs_close params ▸ NameTable.continues_insertAll ..

variable {u params} {name : String}

/-- The received names are the free ones. -/
theorem capturedNames_close : (u.close params).capturedNames = (u.free params).entries := by
  obtain ⟨more, whole⟩ := u.refs_close_continues params
  rw [Scope.capturedNames, ← whole, captured_close, NameTable.size, List.take_left]

/-- A name has a cell if it is free, or declared and lent. -/
theorem mem_refs_close : name ∈ (u.close params).refs ↔
    name ∈ u.free params ∨ name ∈ u.declared params ∧ name ∈ u.lent := by
  rw [refs_close, NameTable.mem_insertAll, List.mem_filter, List.contains_iff_mem]
  rfl

/-- The cells below `captured` are those of the free names. -/
theorem slot_lt_captured_iff {slot : Nat} (h : (u.close params).slot? name = some slot) :
    slot < (u.close params).captured ↔ name ∈ u.free params := by
  rw [captured_close]
  constructor
  · intro below
    obtain ⟨more, whole⟩ := u.refs_close_continues params
    have found := NameTable.index?_eq_some_iff.mp h
    rw [← whole, List.getElem?_append_left below] at found
    exact List.mem_of_getElem? found
  · intro free
    obtain ⟨i, hi⟩ := NameTable.exists_index? free
    have same := (u.refs_close_continues params).index? hi
    rw [Scope.slot?, same] at h
    exact Option.some.inj h ▸ NameTable.index?_lt hi

/-- A name has a register if it is declared, and is a parameter or not lent. -/
theorem mem_locals_close : name ∈ (u.close params).locals.map Prod.fst ↔
    name ∈ u.declared params ∧ u.inRegister params name = true := by
  rw [close_eq, mem_names_declareAll]
  simp

/-- The declared names are the parameters and the assigned names. -/
theorem mem_declared : name ∈ u.declared params ↔ u.declares params name = true := by
  simp [declared, declares]
  grind

/-- If no parameter is repeated, no declared name is. -/
theorem declared_nodup (distinct : params.Nodup) : (u.declared params).Nodup := by
  rw [declared, List.nodup_append]
  refine ⟨distinct, u.assigned.nodup.sublist List.filter_sublist, ?_⟩
  intro a ha b hb same
  have other := (List.mem_filter.mp hb).2
  simp [← same, ha] at other

/-- The registers are the positions among the names that have one. -/
theorem locals_close (distinct : params.Nodup) : (u.close params).locals =
    ((u.declared params).filter (u.inRegister params)).zipIdx := by
  rw [close_eq, locals_declareAll (declared_nodup distinct) (by simp)]
  rfl

/-- The boxed parameters are the rows of the registers whose names are lent. -/
theorem boxedParams_close (distinct : params.Nodup) : (u.close params).boxedParams =
    ((u.close params).locals.filter fun row => u.lent.entries.contains row.1).map
      (boxRow (u.close params).refs) := by
  rw [locals_close distinct, close_eq, boxedParams_declareAll (declared_nodup distinct) (by simp)]
  rfl

/-- A free name is not declared. -/
theorem not_declared_of_free (h : name ∈ u.free params) : name ∉ u.declared params := by
  have undeclared := (List.mem_filter.mp h).2
  rw [mem_declared]
  simpa using undeclared

end close

end Usage

/-! ## Registers and boxed parameters -/

/-- In rows with distinct names, a name's row is the one that is found for it. -/
theorem lookup_eq_some_iff_mem {name : String} {i : Nat} {rows : List (String × Nat)}
    (distinct : (rows.map Prod.fst).Nodup) : rows.lookup name = some i ↔ (name, i) ∈ rows := by
  induction rows with
  | nil => simp
  | cons row rows ih =>
    obtain ⟨other, j⟩ := row
    rw [List.map_cons, List.nodup_cons] at distinct
    have rest := ih distinct.2
    rw [List.lookup_cons, List.mem_cons, Prod.mk.injEq]
    by_cases same : name = other
    · subst same
      have absent : (name, i) ∉ rows := fun h =>
        distinct.1 (List.mem_map.mpr ⟨(name, i), h, rfl⟩)
      simp [absent, @eq_comm _ i j]
    · have different : (name == other) = false := beq_eq_false_iff_ne.mpr same
      simp [different, same, rest]

/-- The registers of distinct names are distinct and lie below the temporaries, and the boxed
parameters are the names that have both a register and a cell. -/
structure Scope.Tidy (s : Scope) : Prop where
  register_lt : ∀ {name : String} {r : Nat}, s.register? name = some r → r < s.numLocals
  register_inj : ∀ {name other : String} {r : Nat},
    s.register? name = some r → s.register? other = some r → name = other
  boxed : ∀ {r slot : Nat}, (r, slot) ∈ s.boxedParams ↔
    ∃ name, s.register? name = some r ∧ s.slot? name = some slot

namespace Usage

variable {u : Usage} {params : List String}

/-- If no parameter is repeated, the register of a name is the one in its row. -/
theorem mem_locals_iff_register? (distinct : params.Nodup) {name : String} {r : Nat} :
    (u.close params).register? name = some r ↔ (name, r) ∈ (u.close params).locals := by
  refine lookup_eq_some_iff_mem ?_
  rw [locals_close distinct, List.zipIdx_map_fst]
  exact (declared_nodup distinct).sublist List.filter_sublist

/-- If no parameter is repeated, registers are positions among the declared names that live in
registers. -/
theorem register?_close (distinct : params.Nodup) {name : String} {r : Nat} :
    (u.close params).register? name = some r ↔
      ((u.declared params).filter (u.inRegister params))[r]? = some name := by
  rw [mem_locals_iff_register? distinct, locals_close distinct, List.mk_mem_zipIdx_iff_getElem?]

/-- If no parameter is listed twice, the scope is tidy. -/
theorem tidy_close (distinct : params.Nodup) : (u.close params).Tidy where
  register_lt h := by
    have bound := (List.getElem?_eq_some_iff.mp ((register?_close distinct).mp h)).1
    rwa [Scope.numLocals, locals_close distinct, List.length_zipIdx]
  register_inj h h' := by
    rw [register?_close distinct] at h h'
    exact Option.some.inj (h.symm.trans h')
  boxed := by
    intro r slot
    rw [boxedParams_close distinct, List.mem_map]
    constructor
    · rintro ⟨⟨name, i⟩, mem, row⟩
      obtain ⟨hlocal, lent⟩ := List.mem_filter.mp mem
      obtain ⟨rfl, rfl⟩ := Prod.mk.inj row
      have own := (mem_locals_close.mp (List.mem_map_of_mem hlocal)).1
      have cell : name ∈ (u.close params).refs :=
        mem_refs_close.mpr (.inr ⟨own, List.contains_iff_mem.mp lent⟩)
      obtain ⟨k, hk⟩ := NameTable.exists_index? cell
      exact ⟨name, (mem_locals_iff_register? distinct).mpr hlocal, by simp [Scope.slot?, hk]⟩
    · rintro ⟨name, register, cell⟩
      have hlocal := (mem_locals_iff_register? distinct).mp register
      have own := (mem_locals_close.mp (List.mem_map_of_mem hlocal)).1
      have lent := ((mem_refs_close.mp (NameTable.mem_of_index? cell)).resolve_left
        fun free => not_declared_of_free free own).2
      have cell' : (u.close params).refs.index? name = some slot := cell
      exact ⟨(name, r), List.mem_filter.mpr ⟨hlocal, List.contains_iff_mem.mpr lent⟩,
        by simp [boxRow, cell']⟩

end Usage

end ClosureLang
