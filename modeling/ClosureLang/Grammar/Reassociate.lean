import ClosureLang.Node.Basic
import ClosureLang.Precedence

/-!
# Reassociation

Operators are read with everything to their right as right operand. Putting an operator in front of
what was read so far corrects the tree by at most one rotation, at the root. Longer chains are
corrected pair by pair, by the reductions that follow, and not always completely.
-/

set_option autoImplicit false

namespace ClosureLang

/-- The application of `name` to `left` and `right`. If `right` applies an operator that binds less
tightly, `left` and its left operand are combined first. -/
def Precedence.reassociate (p : Precedence) (left : Node) (name : String) (right : Node) : Node :=
  match right with
  | .operator inner innerLeft innerRight =>
    if p.of inner < p.of name then .operator inner (.operator name left innerLeft) innerRight
    else .operator name left right
  | _ => .operator name left right

end ClosureLang
