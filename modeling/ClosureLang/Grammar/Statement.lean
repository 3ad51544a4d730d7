import ClosureLang.Grammar.Part

/-!
# Statements

The alternatives of a statement, and the program as a list of statements up to the end of the input.
-/

set_option autoImplicit false

namespace ClosureLang.Grammar

open Rule

/-- An assignment of `value` to what was read as `target`: a variable or an attribute. -/
def assignTo (target value : Node) : Except ActionError Node :=
  match target with
  | .var name _ => .ok (.assign name value none)
  | .attr name receiver => .ok (.attrAssign name receiver value)
  | other => .error (.unassignable other.kind)

/-- An assignment to an expression. -/
def assignment (expression : Rule) : Rule :=
  mapSequence [expression, .terminal .equal, expression] fun vs => do
    let value ← (item vs 2).toNode
    let target ← (item vs 0).toNode
    return .node (← assignTo target value)

/-- An assignment to a word. -/
def wordAssignment (expression : Rule) : Rule :=
  mapSequence [.terminal .word, .terminal .equal, expression] fun vs => do
    let name ← (item vs 0).toText
    let value ← (item vs 2).toNode
    return .node (.assign name value none)

/-- An import of a path of words with dots between them. -/
def importStatement : Rule :=
  mapSequence [.terminal .importWord, listWith .dot (.terminal .word)] fun vs => do
    return .node (.importPath (← (item vs 1).toTexts))

/-- A definition with an optional list of parameters. -/
def definitionStatement (statement : Rule) : Rule :=
  mapSequence
    [.terminal .defWord, .terminal .word, maybe parameterList, bracedBody statement]
    fun vs => do
      let params ← optionalNames (item vs 2)
      let name ← (item vs 1).toText
      let body ← (item vs 3).toNode
      return .node (.definition name params body)

/-- A class. -/
def classStatement (statement : Rule) : Rule :=
  mapSequence [.terminal .classWord, .terminal .word, bracedBody statement] fun vs => do
    let name ← (item vs 1).toText
    let body ← (item vs 2).toNode
    return .node (.classDef name body)

/-- The traits of a declared instance variable, each after the word `is`. -/
def traitList : Rule :=
  .map (plus (nth [.terminal .isWord, .terminal .word] 1)) fun v => do
    return .names (← v.toTexts)

/-- The declaration of an instance variable. -/
def hasStatement : Rule :=
  mapSequence [.terminal .hasWord, .terminal .instanceVar, maybe traitList] fun vs => do
    let traits ← optionalNames (item vs 2)
    let target ← (item vs 1).toText
    return .node (.has target traits)

/-- A keyword, a condition and a body in braces. -/
def guarded (kind : TokenKind) (build : Node → Node → Node) (expression statement : Rule) :
    Rule :=
  mapSequence [.terminal kind, expression, bracedBody statement] fun vs => do
    let condition ← (item vs 1).toNode
    let body ← (item vs 2).toNode
    return .node (build condition body)

/-- An expression that is changed by one. -/
def stepStatement (kind : TokenKind) (step : Step) (expression : Rule) : Rule :=
  mapSequence [expression, .terminal kind] fun vs => do
    return .node (.step step (← (item vs 0).toNode))

/-- A statement. -/
def statementRule (expression statement : Rule) : Rule :=
  .alternation
    [textNode .comment .comment,
      importStatement,
      classStatement statement,
      definitionStatement statement,
      hasStatement,
      guarded .ifWord .conditional expression statement,
      guarded .whileWord .loop expression statement,
      assignment expression,
      wordAssignment expression,
      stepStatement .plusPlus .increment expression,
      stepStatement .minusMinus .decrement expression,
      expression]

/-- The tree of a list of statements: a single one is its own tree. -/
def programOf : List Node → Node
  | [statement] => statement
  | statements => .block statements

/-- A program: statements up to the end of the input. Separators may stand before and after them. -/
def programRule (statement : Rule) : Rule :=
  mapSequence
    [maybe separator, statementList statement, maybe separator, .terminal .terminator]
    fun vs => do return .node (programOf (← (item vs 1).toNodes))

end ClosureLang.Grammar
