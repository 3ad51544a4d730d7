import ClosureLang.Grammar.Expression
import ClosureLang.Grammar.Statement
import ClosureLang.Rule.Builder

/-!
# The grammar

The grammar of the language is a rule set with two forwards, one for expressions and one for
statements. It depends on a precedence table, and it reads a token list that ends with the
terminator into a syntax tree in which no name is resolved.
-/

set_option autoImplicit false

namespace ClosureLang

namespace Grammar

/-- The rule set of the language. -/
def ruleSet (precedence : Precedence) : Except GrammarError RuleSet := do
  let (expression, builder) := (Builder.new 0).addForward
  let (statement, builder) := builder.addForward
  let builder ← builder.define expression.id
    (expressionRule precedence (.forward expression) (.forward statement))
  let builder ← builder.define statement.id
    (statementRule (.forward expression) (.forward statement))
  builder.finish (programRule (.forward statement))

end Grammar

/-- A grammar that is ready for reading any number of token lists. -/
structure Grammar where
  rules : RuleSet
  deriving Inhabited

namespace Grammar

/-- The grammar with the given precedence table. -/
def new (precedence : Precedence) : Except GrammarError Grammar := .mk <$> ruleSet precedence

/-- The tree that a root value is. -/
def treeOf (value : Value) : Except Halt Node :=
  match value.toNode with
  | .ok node => .ok node
  | .error cause => .error (.failed (.root cause))

/-- Reads a whole token list into a tree. -/
def read (g : Grammar) (tokens : List Token) : Except Halt Node := do
  treeOf (← g.rules.read tokens)

end Grammar

/-- Reads a whole token list by the grammar with the given precedence table. -/
def parse (precedence : Precedence) (tokens : List Token) : Except Halt Node :=
  match Grammar.new precedence with
  | .ok grammar => grammar.read tokens
  | .error cause => .error (.failed (.grammar cause))

end ClosureLang
