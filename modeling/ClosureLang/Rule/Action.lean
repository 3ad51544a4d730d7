import ClosureLang.Rule.Basic

/-!
# Common actions

Actions that do not depend on a grammar: they let through values of one shape only, or build the
simplest values and trees from what was matched.
-/

set_option autoImplicit false

namespace ClosureLang.Action

/-- Lets through a token. -/
def onlyToken : Action := fun v => .token <$> v.toToken

/-- Lets through a tree. -/
def onlyNode : Action := fun v => .node <$> v.toNode

/-- Lets through a sequence. -/
def onlySequence : Action := fun v => .sequence <$> v.toSequence

/-- Lets through a name. -/
def onlyName : Action := fun v => .name <$> v.toName

/-- Lets through a list of names. -/
def onlyNames : Action := fun v => .names <$> v.toNames

/-- The text of a token, as a name. -/
def textName : Action := fun v => .name <$> v.toText

/-- The variable that a token names. -/
def textVariable : Action := fun v => do
  return .node (.var (← v.toText) none)

/-- The block of a sequence of trees. -/
def blockOf : Action := fun v => do
  return .node (.block (← v.toNodes))

/-- The names in a sequence, as a list of names. -/
def collectNames : Action := fun v => do
  return .names (← (← v.toSequence).mapM Value.toName)

/-- Whether there is nothing, as a truth value. -/
def absence : Action := fun v => .ok (.node (.boolean v.isNothing))

/-- Nothing, whatever was matched. -/
def discard : Action := fun _ => .ok .nothing

/-- Fails as an assignment to a word does. -/
def refuse : Action := fun _ => .error (.unassignable "word")

end ClosureLang.Action
