import ClosureLang.Compile.Error
import ClosureLang.Scope.Usage

/-!
# Resolving names

Resolving a tree attaches to every lambda the scope of its body, and to every name the place where
it lives. It happens unit by unit. A unit's scope depends on the shape of the tree alone, never on
what was attached to it before, so resolving again changes nothing.

A lambda on its own can always be resolved: the names it does not declare are received from outside.
A program has no outside, so a name that it would receive is undefined. In that case the lambdas in
it are resolved nevertheless, while the names of the program itself are left as they are.
-/

set_option autoImplicit false

namespace ClosureLang

namespace Node

mutual

/-- Attaches to each name of a unit the place where it lives. Lambdas are units of their own and
stay as they are. -/
def bindNames (s : Scope) : Node → Node
  | .var name _ => .var name (s.binding? name)
  | .invoke name args _ => .invoke name (bindNamesAll s args) (s.binding? name)
  | .assign name value _ => .assign name (value.bindNames s) (s.binding? name)
  | .operator name left right => .operator name (left.bindNames s) (right.bindNames s)
  | .call method receiver args => .call method (receiver.bindNames s) (bindNamesAll s args)
  | .block items => .block (bindNamesAll s items)
  | .conditional condition body => .conditional (condition.bindNames s) (body.bindNames s)
  | .loop condition body => .loop (condition.bindNames s) (body.bindNames s)
  | .step direction operand => .step direction (operand.bindNames s)
  | .attr name receiver => .attr name (receiver.bindNames s)
  | .attrAssign name receiver value => .attrAssign name (receiver.bindNames s) (value.bindNames s)
  | node => node

/-- Attaches to each name in the trees of a list the place where it lives. -/
def bindNamesAll (s : Scope) : List Node → List Node
  | [] => []
  | node :: nodes => node.bindNames s :: bindNamesAll s nodes

end

mutual

/-- Resolves the lambdas in a unit, and leaves the names of the unit itself as they are. -/
def resolveLambdas : Node → Node
  | .lambda params body _ =>
    let s := Scope.ofUnit params body
    .lambda params (body.resolveLambdas.bindNames s) (some s)
  | .invoke name args binding => .invoke name (resolveLambdasAll args) binding
  | .assign name value binding => .assign name value.resolveLambdas binding
  | .operator name left right => .operator name left.resolveLambdas right.resolveLambdas
  | .call method receiver args => .call method receiver.resolveLambdas (resolveLambdasAll args)
  | .block items => .block (resolveLambdasAll items)
  | .conditional condition body => .conditional condition.resolveLambdas body.resolveLambdas
  | .loop condition body => .loop condition.resolveLambdas body.resolveLambdas
  | .step direction operand => .step direction operand.resolveLambdas
  | .attr name receiver => .attr name receiver.resolveLambdas
  | .attrAssign name receiver value => .attrAssign name receiver.resolveLambdas value.resolveLambdas
  | node => node

/-- Resolves the lambdas in the trees of a list. -/
def resolveLambdasAll : List Node → List Node
  | [] => []
  | node :: nodes => node.resolveLambdas :: resolveLambdasAll nodes

end

/-- Resolves a program: the tree that it becomes, and its scope or the name that is undefined. -/
def resolveProgram (program : Node) : Node × Except CompileError Scope :=
  let s := Scope.ofUnit [] program
  match s.capturedNames with
  | [] => (program.resolveLambdas.bindNames s, .ok s)
  | name :: _ => (program.resolveLambdas, .error (.undefinedVariable name))

end Node

namespace Lambda

/-- The scope of the lambda's body. -/
def ownScope (l : Lambda) : Scope := Scope.ofUnit l.params l.body

/-- Resolves a lambda by itself. -/
def resolve (l : Lambda) : Lambda :=
  { l with body := l.body.resolveLambdas.bindNames l.ownScope, scope := some l.ownScope }

theorem resolve_toNode (l : Lambda) : l.resolve.toNode = l.toNode.resolveLambdas := by
  simp [resolve, toNode, Node.resolveLambdas, ownScope]

end Lambda

end ClosureLang
