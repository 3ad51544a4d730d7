import ClosureLang.Rule.Action

/-!
# Parts of the grammar

What expressions and statements are both built with: lists, separators, lists of parameters and
bodies in braces.
-/

set_option autoImplicit false

namespace ClosureLang.Grammar

open Rule

/-- The value of the `i`th rule of a sequence. -/
def item (values : List Value) (i : Nat) : Value := values[i]?.getD .nothing

/-- A rule for one item and a rule for each further item, as one sequence. -/
def listOf (first further : Rule) : Rule :=
  mapSequence [first, star further] fun vs => do
    return .sequence (item vs 0 :: (← (item vs 1).toSequence))

/-- Items with a token of the given kind between them. -/
def listWith (between : TokenKind) (rule : Rule) : Rule :=
  listOf rule (nth [.terminal between, rule] 1)

/-- One or more semicolons and line ends. -/
def separator : Rule := plus (.alternation [.terminal .semicolon, .terminal .newline])

/-- Statements with separators between them. -/
def statementList (statement : Rule) : Rule := listOf statement (nth [separator, statement] 1)

/-- The trees of an optional list: no trees if the list is absent. -/
def optionalNodes (v : Value) : Except ActionError (List Node) :=
  if v.isNothing then .ok [] else v.toNodes

/-- The names of an optional list of names: no names if the list is absent. -/
def optionalNames (v : Value) : Except ActionError (List String) :=
  if v.isNothing then .ok [] else v.toNames

/-- Statements in braces. They may be missing, and separators may stand before and after them. -/
def bracedBody (statement : Rule) : Rule :=
  mapSequence
    [.terminal .openBrace, maybe separator, maybe (statementList statement), maybe separator,
      .terminal .closeBrace]
    fun vs => do return .node (.block (← optionalNodes (item vs 2)))

/-- Words in parentheses, at least one, with commas between them. -/
def parameterList : Rule :=
  mapSequence
    [.terminal .openParen, listWith .comma (.terminal .word), .terminal .closeParen]
    fun vs => do return .names (← (item vs 1).toTexts)

/-- A token whose text makes a tree. -/
def textNode (kind : TokenKind) (build : String → Node) : Rule :=
  .map (.terminal kind) fun v => do return .node (build (← v.toText))

/-- A token that always stands for the same tree. -/
def constant (kind : TokenKind) (node : Node) : Rule :=
  .map (.terminal kind) fun _ => .ok (.node node)

end ClosureLang.Grammar
