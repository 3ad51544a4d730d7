import ClosureLang.Node.Basic

/-!
# Why a tree cannot be compiled
-/

set_option autoImplicit false

namespace ClosureLang

/-- Why a tree cannot be compiled. -/
inductive CompileError where
  /-- There are no instructions for nodes of this kind. -/
  | unsupported (kind : String)
  /-- A step is applied to something that is not a variable in a register. -/
  | invalidStep (step : Step) (kind : String)
  /-- A name is used that no unit around the use declares. -/
  | undefinedVariable (name : String)
  /-- A name has no place to live, because the tree was not resolved. -/
  | unresolved (name : String)
  /-- A lambda receives a name for which the unit around it has no cell. -/
  | missingCapture (name : String)
  deriving DecidableEq, Repr, Inhabited

/-- The message of a compile error. -/
def CompileError.message : CompileError → String
  | unsupported kind => "cannot compile " ++ kind ++ " yet"
  | invalidStep step kind =>
    "cannot apply " ++ step.symbol ++ " to " ++ kind ++ ", expected a local variable"
  | undefinedVariable name => "undefined variable `" ++ name ++ "`"
  | unresolved name => "`" ++ name ++ "` reached code generation without being resolved"
  | missingCapture name =>
    "captured variable `" ++ name ++ "` is not available in the enclosing scope"

end ClosureLang
