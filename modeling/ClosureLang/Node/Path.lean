import ClosureLang.Node.Basic

/-!
# Places in a tree

A place in a tree is a path: the list of child numbers that leads to it from the root. The children
of a node are its operands from left to right, and a lambda, definition or class has its body as its
only child. `at?` reads the subtree at a path and `replace?` puts another one there; both fail
exactly when a number on the path names no child.
-/

set_option autoImplicit false

namespace ClosureLang.Node

/-- The direct subtrees of a node, from left to right. -/
def children : Node → List Node
  | operator _ left right => [left, right]
  | attr _ receiver => [receiver]
  | attrAssign _ receiver value => [receiver, value]
  | call _ receiver args => receiver :: args
  | invoke _ args _ => args
  | block items => items
  | conditional condition body => [condition, body]
  | loop condition body => [condition, body]
  | step _ operand => [operand]
  | assign _ value _ => [value]
  | lambda _ body _ => [body]
  | definition _ _ body => [body]
  | classDef _ body => [body]
  | _ => []

/-- The node with its `i`th child replaced. A node without that child stays as it is. -/
def setChild (node : Node) (i : Nat) (new : Node) : Node :=
  match node, i with
  | operator name _ right, 0 => operator name new right
  | operator name left _, 1 => operator name left new
  | attr name _, 0 => attr name new
  | attrAssign name _ value, 0 => attrAssign name new value
  | attrAssign name receiver _, 1 => attrAssign name receiver new
  | call method _ args, 0 => call method new args
  | call method receiver args, i + 1 => call method receiver (args.set i new)
  | invoke name args binding, i => invoke name (args.set i new) binding
  | block items, i => block (items.set i new)
  | conditional _ body, 0 => conditional new body
  | conditional condition _, 1 => conditional condition new
  | loop _ body, 0 => loop new body
  | loop condition _, 1 => loop condition new
  | step direction _, 0 => step direction new
  | assign name _ binding, 0 => assign name new binding
  | lambda params _ scope, 0 => lambda params new scope
  | definition name params _, 0 => definition name params new
  | classDef name _, 0 => classDef name new
  | node, _ => node

/-- Replacing a child changes that child and no other. -/
theorem children_setChild (node : Node) (i : Nat) (new : Node) :
    (node.setChild i new).children = node.children.set i new := by
  cases node <;> rcases i with _ | _ | i <;> rfl

/-- The subtree at a path. -/
def at? (node : Node) : List Nat → Option Node
  | [] => some node
  | i :: path => (node.children[i]?).bind fun child => child.at? path

/-- The tree with `new` at a path. -/
def replace? (node : Node) (new : Node) : List Nat → Option Node
  | [] => some new
  | i :: path =>
    (node.children[i]?).bind fun child => (child.replace? new path).map (node.setChild i)

/-- What was put at a path is found there. -/
theorem at?_of_replace? {tree new tree' : Node} {path : List Nat}
    (h : tree.replace? new path = some tree') : tree'.at? path = some new := by
  induction path generalizing tree tree' with
  | nil => cases h; rfl
  | cons i path ih =>
    simp only [replace?, Option.bind_eq_some_iff, Option.map_eq_some_iff] at h
    obtain ⟨child, hchild, c, hc, rfl⟩ := h
    obtain ⟨hi, -⟩ := List.getElem?_eq_some_iff.mp hchild
    simp [at?, children_setChild, hi, ih hc]

end ClosureLang.Node
