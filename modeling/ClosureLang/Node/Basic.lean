import ClosureLang.Scope.Basic

/-!
# Syntax trees

A node that names a variable has room for the place where that variable lives, and a lambda has room
for the scope of its body. Both are empty in a tree that was just read; resolving names fills them
in.
-/

set_option autoImplicit false

namespace ClosureLang

/-- The two statements that change a variable by one. -/
inductive Step where
  | increment
  | decrement
  deriving DecidableEq, Repr, Inhabited

/-- The method that a step sends to its variable. -/
def Step.symbol : Step → String
  | .increment => "++"
  | .decrement => "--"

/-- A syntax tree. -/
inductive Node where
  | integer (value : Int)
  | string (text : String)
  | atom (name : String)
  | boolean (value : Bool)
  | nil
  | var (name : String) (binding : Option Binding)
  | instanceVar (name : String)
  /-- The binary operator application `left name right`. -/
  | operator (name : String) (left right : Node)
  /-- The attribute `receiver.name`. -/
  | attr (name : String) (receiver : Node)
  /-- The assignment `receiver.name = value`. -/
  | attrAssign (name : String) (receiver value : Node)
  /-- The method call `receiver.method(args)`. -/
  | call (method : String) (receiver : Node) (args : List Node)
  /-- The call `name(args)` of a variable's value. -/
  | invoke (name : String) (args : List Node) (binding : Option Binding)
  | block (items : List Node)
  | conditional (condition body : Node)
  | loop (condition body : Node)
  | step (step : Step) (operand : Node)
  | assign (name : String) (value : Node) (binding : Option Binding)
  | lambda (params : List String) (body : Node) (scope : Option Scope)
  | importPath (path : List String)
  | definition (name : String) (params : List String) (body : Node)
  | classDef (name : String) (body : Node)
  /-- The declaration `has @target is trait…`. -/
  | has (target : String) (traits : List String)
  | comment (text : String)
  deriving Repr, Inhabited

namespace Node

/-- The name of a node's kind in messages. -/
def kind : Node → String
  | integer _ => "integer"
  | string _ => "string"
  | atom _ => "atom"
  | boolean value => if value then "true" else "false"
  | nil => "nil"
  | var .. => "variable"
  | instanceVar _ => "instance variable"
  | operator .. => "operator"
  | attr .. => "attribute"
  | attrAssign .. => "attribute assignment"
  | call .. => "method call"
  | invoke .. => "invocation"
  | block _ => "block"
  | conditional .. => "if"
  | loop .. => "while"
  | step .increment _ => "increment"
  | step .decrement _ => "decrement"
  | assign .. => "assignment"
  | lambda .. => "lambda"
  | importPath _ => "import"
  | definition .. => "definition"
  | classDef .. => "class definition"
  | has .. => "has"
  | comment _ => "comment"

end Node

/-- The parts of a lambda, for the operations that work on one lambda alone. -/
structure Lambda where
  params : List String
  body : Node
  scope : Option Scope
  deriving Repr, Inhabited

namespace Lambda

/-- The lambda as a node. -/
def toNode (l : Lambda) : Node := .lambda l.params l.body l.scope

/-- The lambda that a node is, if it is one. -/
def ofNode? : Node → Option Lambda
  | .lambda params body scope => some ⟨params, body, scope⟩
  | _ => none

theorem ofNode?_eq_some_iff {node : Node} {l : Lambda} :
    ofNode? node = some l ↔ node = l.toNode := by
  cases node <;> simp [ofNode?, toNode]
  grind [Lambda]

end Lambda

end ClosureLang
