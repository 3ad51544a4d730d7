import ClosureLang.Bytecode.Basic
import ClosureLang.Compile.Error

/-!
# Emitting a unit

An emitter holds what was emitted of one unit so far. Values go to the register at the stack
position; operands go to the registers above it, which are given back when they are used up. The
first stack position is the first register that belongs to no variable.

A failure leaves the emitter as it was at that point: what was emitted stays, a raised stack
position stays raised, and a branch whose target was not known yet keeps the target 0.
-/

set_option autoImplicit false

namespace ClosureLang

/-- What was emitted of one unit so far. -/
structure Emitter where
  scope : Scope
  /-- The register in which the next value goes. -/
  top : Nat
  /-- The highest stack position so far. -/
  highest : Nat
  instructions : Array Instruction
  literals : NameTable
  /-- The inner units, in the order in which their lambdas were met. -/
  units : Array Code
  deriving Inhabited

namespace Emitter

/-- The emitter of a unit of which nothing was emitted. -/
def start (scope : Scope) : Emitter := ⟨scope, scope.numLocals, scope.numLocals, #[], ∅, #[]⟩

/-- The emitter of a lambda's unit: it starts by moving the boxed parameters to their cells. -/
def startLambda (scope : Scope) : Emitter :=
  { start scope with
    instructions := (scope.boxedParams.map fun (register, slot) =>
      Instruction.storeCell slot register).toArray }

/-- The unit, with everything that was emitted of it. -/
def code (e : Emitter) : Code :=
  ⟨e.highest + 1, e.scope.numRefs, e.instructions, e.literals.entries, e.units.toList⟩

end Emitter

/-- A computation that emits. -/
abbrev Emit := EStateM CompileError Emitter

namespace Emit

/-- The register in which the next value goes. -/
def top : Emit Nat := return (← get).top

/-- The position of the next instruction. -/
def here : Emit Nat := return (← get).instructions.size

/-- Emits an instruction. -/
def instruction (i : Instruction) : Emit Unit :=
  modify fun e => { e with instructions := e.instructions.push i }

/-- Puts another instruction at a position. -/
def patch (pos : Nat) (i : Instruction) : Emit Unit :=
  modify fun e => { e with instructions := e.instructions.setIfInBounds pos i }

/-- Moves the stack position up by one register. -/
def raise : Emit Unit :=
  modify fun e => { e with top := e.top + 1, highest := max e.highest (e.top + 1) }

/-- Moves the stack position down by one register. -/
def lower : Emit Unit := modify fun e => { e with top := e.top - 1 }

/-- Moves the stack position back to a register. -/
def returnTo (register : Nat) : Emit Unit := modify fun e => { e with top := register }

/-- The number of a literal, which gets one if it has none. -/
def literal (text : String) : Emit Nat := do
  let e ← get
  let (number, literals) := e.literals.intern text
  set { e with literals }
  return number

/-- Emits the storing of a value. -/
def store (value : Immediate) : Emit Unit := do instruction (.store (← top) value)

/-- Emits the reading of a variable. -/
def read (name : String) : Option Binding → Emit Unit
  | some (.register index) => do instruction (.readRegister (← top) index)
  | some (.cell slot) => do instruction (.readCell (← top) slot)
  | none => throw (.unresolved name)

/-- Emits the assignment of the value at the stack position to a variable. -/
def assign (name : String) : Option Binding → Emit Unit
  | some (.register index) => do instruction (.storeRegister index (← top))
  | some (.cell slot) => do instruction (.storeCell slot (← top))
  | none => throw (.unresolved name)

/-- Emits a step of a variable. The variable must live in a register. -/
def step (direction : Step) (operand : Node) : Emit Unit :=
  match operand with
  | .var _ (some (.register index)) => do
    let number ← literal direction.symbol
    instruction (.callPlain index index number)
  | .var _ (some (.cell _)) => throw (.invalidStep direction "captured variable")
  | .var name none => throw (.unresolved name)
  | other => throw (.invalidStep direction other.kind)

/-- The slots of this unit's cells for the names that an inner unit receives. -/
def slots : List String → Emit (List Nat)
  | [] => return []
  | name :: names => do
    match (← get).scope.slot? name with
    | none => throw (.missingCapture name)
    | some slot => return slot :: (← slots names)

/-- Takes in the unit of a lambda and emits the making of its closure, with a cell to hand over for
each name that it receives. -/
def closure (arity : Nat) (inner : Emitter) : Emit Unit := do
  let handed ← slots inner.scope.capturedNames
  let e ← get
  set { e with units := e.units.push inner.code }
  instruction (.createLambda e.top arity handed.length e.units.size)
  handed.forM fun slot => instruction (.readCell 0 slot)

/-- Emits a whole unit: its body, and the return of the value that the body leaves. -/
def unitOf (start : Emitter) (body : Emit Unit) : Except CompileError Emitter :=
  match (do body; instruction (.ret start.scope.numLocals)) |>.run start with
  | .ok _ e => .ok e
  | .error cause _ => .error cause

/-- Emits the unit of a lambda, whose scope must be known. -/
def lambdaUnit (scope : Option Scope) (body : Emit Unit) : Except CompileError Emitter :=
  match scope with
  | some scope => unitOf (Emitter.startLambda scope) body
  | none => .error (.unresolved "<lambda>")

end Emit

end ClosureLang
