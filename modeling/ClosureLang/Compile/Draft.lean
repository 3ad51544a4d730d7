import ClosureLang.Compile.Unit
import ClosureLang.Node.Path

/-!
# Drafts

A draft is a tree that is worked on: it can be resolved and compiled as a whole or lambda by lambda,
parts of it can be replaced, and the scopes of its lambdas can be taken off, emptied or copied. What
a step attaches to the tree is there for the next step. An operation at a path where there is no
node, or no lambda where one is needed, has no result.
-/

set_option autoImplicit false

namespace ClosureLang

/-- A tree that is worked on, and the scope of the last successful resolution of the whole tree. -/
structure Draft where
  root : Node
  top : Option Scope
  deriving Repr, Inhabited

namespace Draft

/-- The draft of a tree on which nothing was done. -/
def ofNode (root : Node) : Draft := ⟨root, none⟩

/-- The lambda at a path. -/
def lambda? (d : Draft) (path : List Nat) : Option Lambda := (d.root.at? path).bind Lambda.ofNode?

/-- The draft with another node at a path. -/
def replace? (d : Draft) (path : List Nat) (new : Node) : Option Draft :=
  (d.root.replace? new path).map fun root => { d with root }

/-- Compiles the whole tree. -/
def compile (d : Draft) : Draft × Except CompileError Code :=
  let (root, outcome) := d.root.compile
  ({ d with root }, outcome)

/-- Resolves the whole tree. If that fails, the scope of the last success stays. -/
def resolve (d : Draft) : Draft × Except CompileError Scope :=
  match d.root.resolveProgram with
  | (root, .ok scope) => (⟨root, some scope⟩, .ok scope)
  | (root, .error cause) => ({ d with root }, .error cause)

/-- Resolves the lambda at a path by itself. -/
def resolveLambda? (d : Draft) (path : List Nat) : Option (Draft × Scope) := do
  let l ← d.lambda? path
  return (← d.replace? path l.resolve.toNode, l.ownScope)

/-- Compiles the lambda at a path on its own. -/
def compileLambda? (d : Draft) (path : List Nat) : Option (Draft × Except CompileError Code) := do
  let (l, outcome) := (← d.lambda? path).compile
  return (← d.replace? path l.toNode, outcome)

/-- Emits the lambda at a path as it is. -/
def emitLambda? (d : Draft) (path : List Nat) : Option (Except CompileError Code) := do
  return (← d.lambda? path).emit.map Emitter.code

/-- Emits the lambda at a path as it is and after it, in the same unit, the trees at further
paths. -/
def extendLambda? (d : Draft) (path : List Nat) (paths : List (List Nat)) :
    Option (Except CompileError (List (Except CompileError Unit) × Code)) := do
  let l ← d.lambda? path
  let trees ← paths.mapM d.root.at?
  return l.emit.map fun e =>
    let (outcomes, e) := e.extend trees
    (outcomes, e.code)

/-- Gives the lambda at a path a scope, or takes its scope off. -/
def setScope? (d : Draft) (path : List Nat) (scope : Option Scope) : Option Draft := do
  let l ← d.lambda? path
  d.replace? path { l with scope }.toNode

/-- Gives the lambda at `destination` the scope of the lambda at `source`, or none if that has
none. -/
def copyScope? (d : Draft) (source destination : List Nat) : Option Draft := do
  d.setScope? destination (← d.lambda? source).scope

/-- The scope of the lambda at a path, or without a path the scope of the whole tree. -/
def scope? (d : Draft) : Option (List Nat) → Option (Option Scope)
  | none => some d.top
  | some path => (d.lambda? path).map (·.scope)

end Draft

end ClosureLang
