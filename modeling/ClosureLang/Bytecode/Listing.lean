import ClosureLang.Bytecode.Basic
import ClosureLang.Text.Quoted

/-!
# Listings

A listing shows a compiled unit line by line: its instructions with their positions, its literals,
and then its inner units, each one step further in. Positions and branch targets have at least four
digits.
-/

set_option autoImplicit false

namespace ClosureLang

/-- A position in a unit, with zeros in front up to four digits. -/
def positionText (pos : Nat) : String :=
  let digits := toString pos
  "".pushn '0' (4 - digits.length) ++ digits

/-- The text of a stored value. -/
def Immediate.render : Immediate → String
  | int value => toString value
  | bool value => if value then "true" else "false"
  | nil => "nil"
  | string literal => "str lit " ++ toString literal
  | atom literal => "atom lit " ++ toString literal

/-- A register in a listing. -/
def registerText (index : Nat) : String := "r" ++ toString index

/-- A ref cell in a listing. -/
def cellText (slot : Nat) : String := "ref" ++ toString slot

/-- The text of an instruction. -/
def Instruction.render : Instruction → String
  | store dst value => "STORE " ++ registerText dst ++ " " ++ value.render
  | callOperator dst recv literal =>
    "CALL_OP " ++ registerText dst ++ " " ++ registerText recv ++ " lit " ++ toString literal
  | callMethod dst recv argc literal =>
    "CALL_N " ++ registerText dst ++ " " ++ registerText recv ++ " args " ++ toString argc ++
      " lit " ++ toString literal
  | callPlain dst recv literal =>
    "CALL_0 " ++ registerText dst ++ " " ++ registerText recv ++ " lit " ++ toString literal
  | branchUnless cond target => "GOTO_IF_FALSE " ++ registerText cond ++ " " ++ positionText target
  | jump target => "GOTO " ++ positionText target
  | storeRegister register src =>
    "STORE_LOCAL " ++ registerText register ++ " <- " ++ registerText src
  | storeCell slot src => "STORE_REF " ++ cellText slot ++ " <- " ++ registerText src
  | readRegister dst register =>
    "READ_LOCAL " ++ registerText dst ++ " <- " ++ registerText register
  | readCell dst slot => "READ_REF " ++ registerText dst ++ " <- " ++ cellText slot
  | invoke dst target argc =>
    "INVOKE " ++ registerText dst ++ " " ++ registerText target ++ " args " ++ toString argc
  | createLambda dst arity refs unit =>
    "CREATE_LAMBDA " ++ registerText dst ++ " arity " ++ toString arity ++ ", refs " ++
      toString refs ++ ", code " ++ toString unit
  | ret src => "RETURN " ++ registerText src

namespace Code

/-- The two capacities of a unit, as its heading shows them. -/
def capacityText (c : Code) : String :=
  "CODE regs " ++ toString c.numRegisters ++ ", refs " ++ toString c.numRefs

/-- The lines of a unit's own tables: its instructions and, if there are any, its literals. -/
def ownLines (c : Code) (indent : String) : List String :=
  (c.instructions.toList.zipIdx.map fun (instruction, pos) =>
    indent ++ positionText pos ++ " " ++ instruction.render) ++
  (if c.literals.isEmpty then []
   else (indent ++ "== LITERALS ==") ::
    c.literals.zipIdx.map fun (literal, i) => indent ++ toString i ++ ": " ++ Text.quote literal)

mutual

/-- The lines of a unit below its heading. -/
def lines (indent : String) : Code → List String
  | ⟨numRegisters, numRefs, instructions, literals, units⟩ =>
    ownLines ⟨numRegisters, numRefs, instructions, literals, units⟩ indent ++
      unitLines indent 0 units

/-- The lines of inner units, numbered from `i` on, each with its heading. -/
def unitLines (indent : String) (i : Nat) : List Code → List String
  | [] => []
  | unit :: units =>
    (indent ++ "== (id: " ++ toString i ++ ") " ++ unit.capacityText ++ " ==") ::
      unit.lines (indent ++ "  ") ++ unitLines indent (i + 1) units

end

/-- The listing of a unit. Every line ends with a line break. -/
def listing (c : Code) : String :=
  String.join ((("== " ++ c.capacityText ++ " ==") :: c.lines "").map (· ++ "\n"))

end Code

end ClosureLang
