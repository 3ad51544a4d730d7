import ClosureLang.Compile.Emitter

/-!
# Emitting trees

The code of a tree leaves the tree's value in the register at the stack position and the stack
position where it was. Branches are emitted with an open target, which is filled in when the code
they jump over is there.
-/

set_option autoImplicit false

namespace ClosureLang.Emit

mutual

/-- Emits the code of a tree. -/
def node : Node → Emit Unit
  | .integer value => store (.int value)
  | .string text => do store (.string (← literal text))
  | .atom name => do store (.atom (← literal name))
  | .boolean value => store (.bool value)
  | .nil => store .nil
  | .var name binding => read name binding
  | .operator name left right => do
    node left
    raise
    node right
    lower
    let number ← literal name
    let register ← top
    instruction (.callOperator register register number)
  | .call method receiver args => do
    node receiver
    let register ← top
    arguments args
    returnTo register
    let number ← literal method
    instruction (.callMethod register register args.length number)
  | .invoke name args binding => do
    read name binding
    let register ← top
    arguments args
    returnTo register
    instruction (.invoke register register args.length)
  | .block [] => store .nil
  | .block (item :: items) => do
    node item
    nodes items
  | .conditional condition body => do
    node condition
    let register ← top
    let branch ← here
    instruction (.branchUnless register 0)
    node body
    patch branch (.branchUnless register (← here))
  | .loop condition body => do
    let start ← here
    node condition
    let register ← top
    let branch ← here
    instruction (.branchUnless register 0)
    node body
    instruction (.jump start)
    patch branch (.branchUnless register (← here))
  | .step direction operand => step direction operand
  | .assign name value binding => do
    node value
    assign name binding
  | .lambda params body scope => do
    match lambdaUnit scope (node body) with
    | .ok inner => closure params.length inner
    | .error cause => throw cause
  | .comment _ => return ()
  | .instanceVar name => throw (.unsupported (Node.instanceVar name).kind)
  | .attr name receiver => throw (.unsupported (Node.attr name receiver).kind)
  | .attrAssign name receiver value =>
    throw (.unsupported (Node.attrAssign name receiver value).kind)
  | .importPath path => throw (.unsupported (Node.importPath path).kind)
  | .definition name params body => throw (.unsupported (Node.definition name params body).kind)
  | .classDef name body => throw (.unsupported (Node.classDef name body).kind)
  | .has target traits => throw (.unsupported (Node.has target traits).kind)

/-- Emits the code of the trees of a list, one after the other. -/
def nodes : List Node → Emit Unit
  | [] => return ()
  | item :: items => do
    node item
    nodes items

/-- Emits the code of arguments, each one register further up. -/
def arguments : List Node → Emit Unit
  | [] => return ()
  | arg :: args => do
    raise
    node arg
    arguments args

end

end ClosureLang.Emit
