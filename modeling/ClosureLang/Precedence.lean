import ClosureLang.Text.Punctuation

/-!
# Operator precedence

A precedence table gives operator names their level; the higher level binds tighter. A name that is
not in the table takes the level of its first character, but only when that character is
punctuation: `-=` binds like `-`, while `+=` does not bind like `+`, because `+` is a symbol. Every
other name has level 0.
-/

set_option autoImplicit false

namespace ClosureLang

/-- Operator names with their levels. Of two entries for one name the first counts. -/
structure Precedence where
  levels : List (String × Nat)
  deriving DecidableEq, Repr

namespace Precedence

/-- The table without names. -/
def empty : Precedence := ⟨[]⟩

/-- The table in which `name` has level `level`, whatever level it had. -/
def insert (p : Precedence) (name : String) (level : Nat) : Precedence :=
  ⟨(name, level) :: p.levels⟩

/-- The table of the language: multiplication and division bind tighter than addition and
subtraction, in their symbols and in their names. -/
def default : Precedence :=
  ⟨[("*", 4), ("mul", 4), ("/", 4), ("div", 4), ("+", 3), ("add", 3), ("-", 3), ("sub", 3)]⟩

instance : Inhabited Precedence := ⟨default⟩

/-- The level that the table itself gives to `name`. -/
def level? (p : Precedence) (name : String) : Option Nat := p.levels.lookup name

/-- The text that stands for an operator that is not in the table: its first character, if that is
punctuation. -/
def punctuationHead? (name : String) : Option String :=
  (name.toList.head?.filter Text.isPunctuation).map String.singleton

/-- The level of an operator. -/
def of (p : Precedence) (name : String) : Nat :=
  ((p.level? name).or ((punctuationHead? name).bind p.level?)).getD 0

@[simp] theorem level?_insert_self (p : Precedence) (name : String) (level : Nat) :
    (p.insert name level).level? name = some level := by
  simp [level?, insert]

theorem level?_insert_of_ne (p : Precedence) {name other : String} (level : Nat)
    (h : other ≠ name) : (p.insert name level).level? other = p.level? other := by
  have hb : (other == name) = false := beq_eq_false_iff_ne.mpr h
  simp [level?, insert, List.lookup_cons, hb]

end Precedence

end ClosureLang
