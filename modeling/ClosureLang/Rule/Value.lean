import ClosureLang.Node.Basic
import ClosureLang.Token

/-!
# Values of matches

A rule that matches has a value. Values are not typed by the rule: an action takes apart the value
of the rule below it and fails when the value has another shape than it expects. Such a failure ends
the whole parse; it is never a reason to try another alternative.
-/

set_option autoImplicit false

namespace ClosureLang

/-- The value of a match. -/
inductive Value where
  /-- An optional rule that matched nothing. -/
  | nothing
  | token (token : Token)
  | node (node : Node)
  | name (name : String)
  | names (names : List String)
  | sequence (values : List Value)
  deriving Repr, Inhabited

/-- What an action expects or finds. -/
inductive Shape where
  | nothing | token | node | name | nameList | sequence
  /-- A token that carries a text. -/
  | textToken
  /-- A token that carries a number. -/
  | integerValue
  /-- An item of a sequence. -/
  | sequenceItem
  deriving DecidableEq, Repr, Inhabited

/-- The name of a shape in messages. -/
def Shape.text : Shape → String
  | nothing => "nothing"
  | token => "token"
  | node => "node"
  | name => "name"
  | nameList => "name list"
  | sequence => "sequence"
  | textToken => "text token"
  | integerValue => "integer value"
  | sequenceItem => "sequence item"

/-- Why an action fails. -/
inductive ActionError where
  /-- The left-hand side of an assignment is something that has no place to assign to. -/
  | unassignable (kind : String)
  | shape (expected found : Shape)
  deriving DecidableEq, Repr, Inhabited

/-- The message of a failed action. -/
def ActionError.message : ActionError → String
  | unassignable kind => "can't assign to " ++ kind
  | shape expected found => "expected " ++ expected.text ++ ", found " ++ found.text

/-- What an action does with the value of the rule below it. -/
abbrev Action := Value → Except ActionError Value

namespace Value

/-- The shape of a value. -/
def shape : Value → Shape
  | nothing => .nothing
  | token _ => .token
  | node _ => .node
  | name _ => .name
  | names _ => .nameList
  | sequence _ => .sequence

/-- Whether an optional rule matched nothing. -/
def isNothing : Value → Bool
  | nothing => true
  | _ => false

/-- The failure of an action that expects another shape. -/
def mismatch (v : Value) (expected : Shape) : ActionError := .shape expected v.shape

/-- The token that the value is. -/
def toToken : Value → Except ActionError Token
  | token t => .ok t
  | v => .error (v.mismatch .token)

/-- The tree that the value is. -/
def toNode : Value → Except ActionError Node
  | node n => .ok n
  | v => .error (v.mismatch .node)

/-- The values in the sequence that the value is. -/
def toSequence : Value → Except ActionError (List Value)
  | sequence vs => .ok vs
  | v => .error (v.mismatch .sequence)

/-- The name that the value is. -/
def toName : Value → Except ActionError String
  | name n => .ok n
  | v => .error (v.mismatch .name)

/-- The names that the value is. -/
def toNames : Value → Except ActionError (List String)
  | names ns => .ok ns
  | v => .error (v.mismatch .nameList)

/-- The trees in a sequence that holds only trees. -/
def toNodes (v : Value) : Except ActionError (List Node) := do
  (← v.toSequence).mapM toNode

/-- The text that a token carries. -/
def toText (v : Value) : Except ActionError String := do
  let t ← v.toToken
  match t.text? with
  | some text => .ok text
  | none => .error (.shape .textToken .token)

/-- The number that a token carries. -/
def toNumber (v : Value) : Except ActionError Int := do
  let t ← v.toToken
  match t.number? with
  | some number => .ok number
  | none => .error (.shape .integerValue .token)

/-- The texts of a sequence of tokens. -/
def toTexts (v : Value) : Except ActionError (List String) := do
  (← v.toSequence).mapM toText

end Value

end ClosureLang
