import ClosureLang.Compile.Node
import ClosureLang.Scope.Resolve

/-!
# Compiling units

A program is resolved and then emitted as the outermost unit. A lambda can be compiled on its own,
too; it is resolved first if it has no scope, and a scope that it has is taken as it is.
-/

set_option autoImplicit false

namespace ClosureLang

/-- Compiles a program: the tree that it becomes by being resolved, and its code. -/
def Node.compile (program : Node) : Node × Except CompileError Code :=
  match program.resolveProgram with
  | (resolved, .error cause) => (resolved, .error cause)
  | (resolved, .ok scope) =>
    (resolved, (Emit.unitOf (Emitter.start scope) (Emit.node resolved)).map Emitter.code)

namespace Lambda

/-- Emits the unit of a lambda that is resolved. -/
def emit (l : Lambda) : Except CompileError Emitter := Emit.lambdaUnit l.scope (Emit.node l.body)

/-- The lambda with a scope: its own one, or the one that resolving attaches. -/
def withScope (l : Lambda) : Lambda := if l.scope.isSome then l else l.resolve

/-- Compiles a lambda on its own: the lambda with its scope, and its code. -/
def compile (l : Lambda) : Lambda × Except CompileError Code :=
  (l.withScope, l.withScope.emit.map Emitter.code)

end Lambda

/-- Emits the code of more trees after what was emitted already, and says of each whether it could
be emitted. A failure undoes nothing, and the trees after it are emitted nevertheless. -/
def Emitter.extend (e : Emitter) : List Node → List (Except CompileError Unit) × Emitter
  | [] => ([], e)
  | tree :: trees =>
    match (Emit.node tree).run e with
    | .ok _ e =>
      let (outcomes, e) := e.extend trees
      (.ok () :: outcomes, e)
    | .error cause e =>
      let (outcomes, e) := e.extend trees
      (.error cause :: outcomes, e)

end ClosureLang
