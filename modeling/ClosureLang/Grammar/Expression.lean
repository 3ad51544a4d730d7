import ClosureLang.Grammar.Part
import ClosureLang.Grammar.Reassociate

/-!
# Expressions

The alternatives of an expression. Those that start with an expression come before invocations and
primaries: a match grows from its seed only as long as an alternative before the seed's gives a
longer one. A call or an attribute belongs to the operand next to it; an operator takes everything
to its right, which reassociation then corrects.
-/

set_option autoImplicit false

namespace ClosureLang.Grammar

open Rule

/-- Literals and variables. -/
def primary : Rule :=
  .alternation
    [.map (.terminal .integer) fun v => do return .node (.integer (← v.toNumber)),
      textNode .string .string,
      textNode .atom .atom,
      .map (.terminal .word) Action.textVariable,
      textNode .instanceVar .instanceVar,
      constant .trueWord (.boolean true),
      constant .falseWord (.boolean false),
      constant .nilWord .nil]

/-- A keyword in the place of an attribute's name. -/
def keywordName (kind : TokenKind) (name : String) : Rule :=
  .map (.terminal kind) fun _ => .ok (.name name)

/-- The name of an attribute: a word or one of the keywords. -/
def attributeName : Rule :=
  .alternation
    [.map (.terminal .word) Action.textName,
      keywordName .classWord "class",
      keywordName .importWord "import",
      keywordName .defWord "def",
      keywordName .hasWord "has",
      keywordName .isWord "is",
      keywordName .ifWord "if",
      keywordName .whileWord "while"]

/-- An attribute of an expression's value. -/
def attributeAccess (expression : Rule) : Rule :=
  mapSequence [expression, .terminal .dot, attributeName] fun vs => do
    let receiver ← (item vs 0).toNode
    let name ← (item vs 2).toName
    return .node (.attr name receiver)

/-- A method call without arguments. -/
def callWithoutArguments (expression : Rule) : Rule :=
  mapSequence
    [expression, .terminal .dot, .terminal .word, .terminal .openParen, .terminal .closeParen]
    fun vs => do
      let receiver ← (item vs 0).toNode
      let method ← (item vs 2).toText
      return .node (.call method receiver [])

/-- A method call with arguments. -/
def callWithArguments (expression : Rule) : Rule :=
  mapSequence
    [expression, .terminal .dot, .terminal .word, .terminal .openParen, listWith .comma expression,
      .terminal .closeParen]
    fun vs => do
      let receiver ← (item vs 0).toNode
      let method ← (item vs 2).toText
      let args ← (item vs 4).toNodes
      return .node (.call method receiver args)

/-- The call of a variable's value. -/
def invocation (expression : Rule) : Rule :=
  mapSequence
    [.terminal .word, .terminal .openParen, maybe (listWith .comma expression),
      .terminal .closeParen]
    fun vs => do
      let args ← optionalNodes (item vs 2)
      let name ← (item vs 0).toText
      return .node (.invoke name args none)

/-- The body of a lambda. -/
def lambdaBody (expression statement : Rule) : Rule :=
  .alternation [bracedBody statement, expression]

/-- A lambda without parameters. -/
def lambdaWithoutParameters (expression statement : Rule) : Rule :=
  mapSequence [.terminal .arrow, lambdaBody expression statement] fun vs => do
    return .node (.lambda [] (← (item vs 1).toNode) none)

/-- A lambda with one parameter, written without parentheses. -/
def lambdaWithParameter (expression statement : Rule) : Rule :=
  mapSequence [.terminal .word, .terminal .arrow, lambdaBody expression statement] fun vs => do
    let param ← (item vs 0).toText
    let body ← (item vs 2).toNode
    return .node (.lambda [param] body none)

/-- A lambda with its parameters in parentheses. -/
def lambdaWithParameters (expression statement : Rule) : Rule :=
  mapSequence [parameterList, .terminal .arrow, lambdaBody expression statement] fun vs => do
    let params ← (item vs 0).toNames
    let body ← (item vs 2).toNode
    return .node (.lambda params body none)

/-- A binary operator. -/
def operation (precedence : Precedence) (expression : Rule) : Rule :=
  mapSequence [expression, .terminal .word, expression] fun vs => do
    let left ← (item vs 0).toNode
    let name ← (item vs 1).toText
    let right ← (item vs 2).toNode
    return .node (precedence.reassociate left name right)

/-- An expression. -/
def expressionRule (precedence : Precedence) (expression statement : Rule) : Rule :=
  .alternation
    [lambdaWithParameters expression statement,
      lambdaWithParameter expression statement,
      lambdaWithoutParameters expression statement,
      callWithArguments expression,
      callWithoutArguments expression,
      attributeAccess expression,
      operation precedence expression,
      invocation expression,
      primary]

end ClosureLang.Grammar
