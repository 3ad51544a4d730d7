import ClosureLang.Rule.Value

/-!
# Why reading fails

A rule that does not match is no error by itself: another alternative may match. Reading fails when
nothing is left to try, when an action fails, when the value that was read is not a tree, or when a
rule names a forward that stands for nothing.
-/

set_option autoImplicit false

namespace ClosureLang

/-- What is wrong with the forwards of a set of rules. -/
inductive GrammarError where
  /-- The forward stands for nothing. -/
  | unresolved (id : Nat)
  /-- The forward already stands for something. -/
  | redefined (id : Nat)
  deriving DecidableEq, Repr, Inhabited

/-- The message of a grammar error. -/
def GrammarError.message : GrammarError → String
  | unresolved id => "forward rule " ++ toString id ++ " was never defined"
  | redefined id => "forward rule " ++ toString id ++ " was defined twice"

/-- Why a token list could not be read. -/
inductive ParseError where
  /-- No rule matches. The position is the furthest one at which a token was looked at; the token
  there is missing if that is the end of the list. -/
  | unexpected (position : Nat) (found : Option TokenKind) (span : Option Span)
  /-- An action failed. The position is where its rule started to match. -/
  | action (position : Nat) (span : Option Span) (cause : ActionError)
  /-- The root rule matched, but its value is not a tree. -/
  | root (cause : ActionError)
  | grammar (cause : GrammarError)
  deriving DecidableEq, Repr, Inhabited

/-- The message of a parse error. -/
def ParseError.message : ParseError → String
  | unexpected position found _ =>
    "unexpected " ++ (found.map TokenKind.name).getD "end of input" ++ " at token " ++
      toString position
  | action position _ cause =>
    "invalid syntax at token " ++ toString position ++ ": " ++ cause.message
  | root cause => "root rule did not produce a tree: " ++ cause.message
  | grammar cause => cause.message

end ClosureLang
