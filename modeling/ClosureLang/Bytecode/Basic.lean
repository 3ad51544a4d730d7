/-!
# Register code

A compiled unit is a list of instructions for a machine with registers. Registers are numbered
within the unit's frame, ref cells within the unit's ref table, and literals and inner units are
numbered within the unit's own tables.
-/

set_option autoImplicit false

namespace ClosureLang

/-- A value that an instruction stores. Texts and atoms are given by their literal. -/
inductive Immediate where
  | int (value : Int)
  | bool (value : Bool)
  | nil
  | string (literal : Nat)
  | atom (literal : Nat)
  deriving DecidableEq, Repr, Inhabited

/-- An instruction. -/
inductive Instruction where
  /-- Stores a value in `dst`. -/
  | store (dst : Nat) (value : Immediate)
  /-- Sends the operator `literal` to `recv` with `recv + 1` as operand; the answer goes to
  `dst`. -/
  | callOperator (dst recv literal : Nat)
  /-- Sends the method `literal` to `recv` with the `argc` registers after it as arguments. -/
  | callMethod (dst recv argc literal : Nat)
  /-- Sends the method `literal` to `recv` without arguments. -/
  | callPlain (dst recv literal : Nat)
  /-- Goes on at `target` if `cond` holds a false value. -/
  | branchUnless (cond target : Nat)
  /-- Goes on at `target`. -/
  | jump (target : Nat)
  /-- Assigns `src` to the variable in `register`. -/
  | storeRegister (register src : Nat)
  /-- Assigns `src` to the variable in the cell `slot`. -/
  | storeCell (slot src : Nat)
  /-- Reads the variable in `register`. -/
  | readRegister (dst register : Nat)
  /-- Reads the variable in the cell `slot`. -/
  | readCell (dst slot : Nat)
  /-- Calls the value in `target` with the `argc` registers after it as arguments. -/
  | invoke (dst target argc : Nat)
  /-- Makes a closure over the inner unit `unit`. As many `readCell` instructions follow as it
  receives cells: they are operands, not steps, and their slots name the cells of this unit to hand
  over. -/
  | createLambda (dst arity refs unit : Nat)
  /-- Ends the unit with the value in `src`. -/
  | ret (src : Nat)
  deriving DecidableEq, Repr, Inhabited

/-- A compiled unit. -/
structure Code where
  /-- How many registers a frame has. -/
  numRegisters : Nat
  /-- How many ref cells a frame has; the ones it receives are the first. -/
  numRefs : Nat
  instructions : Array Instruction
  literals : List String
  /-- The units of the lambdas in this unit. -/
  units : List Code
  deriving Repr, Inhabited

namespace Code

mutual

/-- Units are compared part by part. -/
def decEq : (c c' : Code) → Decidable (c = c')
  | ⟨numRegisters, numRefs, instructions, literals, units⟩,
    ⟨numRegisters', numRefs', instructions', literals', units'⟩ =>
    have := decEqAll units units'
    decidable_of_iff (numRegisters = numRegisters' ∧ numRefs = numRefs' ∧
      instructions = instructions' ∧ literals = literals' ∧ units = units')
      (by rw [Code.mk.injEq])

/-- Inner units are compared one by one. -/
def decEqAll : (units units' : List Code) → Decidable (units = units')
  | [], [] => isTrue rfl
  | [], _ :: _ | _ :: _, [] => isFalse nofun
  | unit :: units, unit' :: units' =>
    have := decEq unit unit'
    have := decEqAll units units'
    decidable_of_iff (unit = unit' ∧ units = units') (by rw [List.cons.injEq])

end

instance : DecidableEq Code := decEq

end Code

end ClosureLang
