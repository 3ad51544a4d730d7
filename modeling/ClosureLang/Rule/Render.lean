import ClosureLang.Rule.Basic

/-!
# Rules as text

The text of a rule shows how it is put together. Actions are not shown, and a forward is shown by
its number and not by what it stands for, so the text of every rule is finite.
-/

set_option autoImplicit false

namespace ClosureLang.Rule

mutual

/-- The text of a rule. -/
def render : Rule → String
  | .terminal kind => kind.name
  | .sequence rules => "Seq([" ++ ", ".intercalate (renderAll rules) ++ "])"
  | .alternation rules => "Or([" ++ ", ".intercalate (renderAll rules) ++ "])"
  | .repetition rule least most =>
    "Repeat \x7b rule: " ++ rule.render ++ ", min: " ++ toString least ++ ", max: " ++
      (match most with
        | none => "None"
        | some n => "Some(" ++ toString n ++ ")") ++ " \x7d"
  | .map rule _ => "Map(" ++ rule.render ++ ")"
  | .forward target => "Forward(" ++ toString target.id ++ ")"

/-- The texts of the rules of a list. -/
def renderAll : List Rule → List String
  | [] => []
  | rule :: rules => rule.render :: renderAll rules

end

end ClosureLang.Rule
