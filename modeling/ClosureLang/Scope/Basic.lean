import ClosureLang.NameTable

/-!
# Scopes

A unit is the program or the body of one lambda. Its scope says where each of its names lives: in a
register of the unit's frame, or in a ref cell that the unit shares with the closures it creates or
was created with. The ref table starts with the names that the unit receives from the enclosing one;
the unit's own names that some nested lambda uses come after them.
-/

set_option autoImplicit false

namespace ClosureLang

/-- Where a resolved name lives. -/
inductive Binding where
  /-- A register of the unit's frame. -/
  | register (index : Nat)
  /-- An entry of the unit's ref table. -/
  | cell (slot : Nat)
  deriving DecidableEq, Repr, Inhabited

/-- Gives `name` the register `register`, as an insertion-ordered map takes an entry: a key that is
not there goes to the end, and a key that is there keeps its place and has its value replaced. So
the list grows only for a new name, and the order is that of first insertion. -/
def assignRegister (name : String) (register : Nat) : List (String × Nat) → List (String × Nat)
  | [] => [(name, register)]
  | row :: rows =>
    if row.1 = name then (name, register) :: rows else row :: assignRegister name register rows

/-- The scope of one unit. -/
structure Scope where
  /-- Names with their registers, in the order of their declaration. -/
  locals : List (String × Nat)
  /-- The names of the ref cells; a name's position is its slot. -/
  refs : NameTable
  /-- How many of the ref cells come from the enclosing unit. They are the first ones. -/
  captured : Nat
  /-- For each parameter that lives in a cell, the register it arrives in and the slot it moves
  to. -/
  boxedParams : List (Nat × Nat)
  deriving DecidableEq, Repr

namespace Scope

/-- The scope without names. -/
def empty : Scope := ⟨[], ∅, 0, []⟩

instance : EmptyCollection Scope := ⟨empty⟩

instance : Inhabited Scope := ⟨empty⟩

/-- How many registers the names take; temporaries start above them. -/
def numLocals (s : Scope) : Nat := s.locals.length

/-- How many ref cells the unit has. -/
def numRefs (s : Scope) : Nat := s.refs.size

/-- The names that the unit receives from the enclosing one, in slot order. -/
def capturedNames (s : Scope) : List String := s.refs.entries.take s.captured

/-- The register of `name`. -/
def register? (s : Scope) (name : String) : Option Nat := s.locals.lookup name

/-- The ref slot of `name`. -/
def slot? (s : Scope) (name : String) : Option Nat := s.refs.index? name

/-- Where `name` lives. A cell wins over a register: a boxed parameter keeps the register in which
its argument arrives, but is used through its cell. -/
def binding? (s : Scope) (name : String) : Option Binding :=
  ((s.slot? name).map .cell).or ((s.register? name).map .register)

end Scope

end ClosureLang
