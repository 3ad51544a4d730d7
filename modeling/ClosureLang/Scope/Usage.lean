import ClosureLang.Node.Basic

/-!
# The names of a unit

A walk over a unit, from left to right, collects the names it assigns, the names it reads, and the
names that lambdas directly inside it receive from it. The body of a lambda is a unit of its own: of
it the enclosing unit sees only the names that it receives. Definitions and classes are not walked.

From these names and the parameters follows the unit's scope. A name that is read but neither a
parameter nor assigned is received from outside. A parameter or an assigned name that a lambda
inside receives lives in a cell. Registers go to the parameters first and then to the assigned names
that need no cell; a boxed parameter keeps the register in which its argument arrives.
-/

set_option autoImplicit false

namespace ClosureLang

/-- The names that a walk over a unit meets, each kind in the order of first use. -/
structure Usage where
  assigned : NameTable
  /-- The names that are read in the unit or received by a lambda in it. -/
  used : NameTable
  /-- The names that a lambda in the unit receives. -/
  lent : NameTable
  deriving DecidableEq, Repr

namespace Usage

/-- No name was met. -/
def empty : Usage := ⟨∅, ∅, ∅⟩

instance : EmptyCollection Usage := ⟨empty⟩

/-- Notes that `name` is assigned. -/
def assign (u : Usage) (name : String) : Usage := { u with assigned := u.assigned.insert name }

/-- Notes that `name` is read. -/
def use (u : Usage) (name : String) : Usage := { u with used := u.used.insert name }

/-- Notes that a lambda receives `names`. -/
def lend (u : Usage) (names : List String) : Usage :=
  { u with used := u.used.insertAll names, lent := u.lent.insertAll names }

/-- Whether the unit itself declares `name`, as a parameter or by an assignment. -/
def declares (u : Usage) (params : List String) (name : String) : Bool :=
  params.contains name || u.assigned.entries.contains name

/-- Declares one name of a unit: a cell if a lambda receives it, and a register if it is a parameter
or has no cell. -/
def declare (u : Usage) (params : List String) (s : Scope) (name : String) : Scope :=
  let isParam := params.contains name
  let boxed := u.lent.entries.contains name
  let (slot, refs) := if boxed then s.refs.intern name else (0, s.refs)
  { s with
    refs
    boxedParams :=
      if boxed && isParam then s.boxedParams ++ [(s.numLocals, slot)] else s.boxedParams
    locals := if isParam || !boxed then assignRegister name s.numLocals s.locals else s.locals }

/-- The names that the unit receives from outside. -/
def free (u : Usage) (params : List String) : NameTable :=
  u.used.filter fun name => !u.declares params name

/-- The names that the unit declares: its parameters as they are listed, then the other names that
it assigns. -/
def declared (u : Usage) (params : List String) : List String :=
  params ++ u.assigned.entries.filter fun name => !params.contains name

/-- The scope of a unit with these parameters and names. -/
def close (u : Usage) (params : List String) : Scope :=
  let free := u.free params
  (u.declared params).foldl (u.declare params) ⟨[], free, free.size, []⟩

/-! ## The walk -/

mutual

/-- Adds the names that a tree brings to its unit. -/
def walk (u : Usage) : Node → Usage
  | .var name _ => u.use name
  | .invoke name args _ => (u.use name).walkAll args
  | .assign name value _ => (u.assign name).walk value
  | .lambda params body _ => u.lend ((walk ∅ body).close params).capturedNames
  | .operator _ left right => (u.walk left).walk right
  | .call _ receiver args => (u.walk receiver).walkAll args
  | .block items => u.walkAll items
  | .conditional condition body => (u.walk condition).walk body
  | .loop condition body => (u.walk condition).walk body
  | .step _ operand => u.walk operand
  | .attr _ receiver => u.walk receiver
  | .attrAssign _ receiver value => (u.walk receiver).walk value
  | .integer _ | .string _ | .atom _ | .boolean _ | .nil | .instanceVar _ => u
  | .importPath _ | .definition .. | .classDef .. | .has .. | .comment _ => u

/-- Adds the names that the trees of a list bring, from left to right. -/
def walkAll (u : Usage) : List Node → Usage
  | [] => u
  | node :: nodes => (u.walk node).walkAll nodes

end

end Usage

/-- The scope of the unit with these parameters and this body. -/
def Scope.ofUnit (params : List String) (body : Node) : Scope := (Usage.walk ∅ body).close params

end ClosureLang
