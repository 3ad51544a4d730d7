import ClosureLang.Proofs.Compile.Nesting
import ClosureLang.Proofs.Scope.Erasure
import ClosureLang.Node.Path

/-!
# Lambdas that are compiled on their own

A lambda has the same code whether it is compiled with the program around it or on its own. Its
scope follows from its parameters and its body, so resolving it in isolation attaches what resolving
the program attaches, and emitting it starts from that scope and nothing else.

The code of a program holds the code of its lambdas under numbers: every unit numbers the lambdas
that stand directly in it from left to right. `unitNumbers?` reads these numbers off the place of a
lambda in the tree. A tree that compiles has no lambda that is left out, since its code enters every
node.

The place of a lambda is a path through the children of nodes, and most steps on it stay in the
unit. The numbers are therefore collected with a count of the lambdas that stand before the node in
the same unit; it starts again at zero where the path enters a lambda. Definitions and classes have
children that belong to no unit of code, but nothing that compiles has such nodes
(`sharesUnit_of_supported`).

Compiling attaches the scope first if there is none. That this changes nothing about a lambda that
was resolved with its program is `resolve_resolve`: the scope is computed from the tree without its
annotations.
-/

set_option autoImplicit false

namespace ClosureLang

/-! ## Places of units -/

/-- The unit that the numbers lead to, each a number among the inner units of the unit before. -/
def Code.unitAt? (c : Code) : List Nat → Option Code
  | [] => some c
  | i :: numbers => (c.units[i]?).bind fun inner => inner.unitAt? numbers

namespace Node

/-- The numbers that lead to the unit of the lambda at a path, if `before` lambdas stand in the same
unit before the node. Each of them says how many lambdas stand before the next one on the path,
directly in the same unit. -/
def unitNumbers? (node : Node) (before : Nat) : List Nat → Option (List Nat)
  | [] => (Lambda.ofNode? node).map fun _ => [before]
  | i :: path =>
    (node.children[i]?).bind fun child =>
      match Lambda.ofNode? node with
      | some _ => (child.unitNumbers? 0 path).map (before :: ·)
      | none => child.unitNumbers? (before + (lambdasAll (node.children.take i)).length) path

/-- Whether the children of the node belong to the unit of the node. -/
def sharesUnit : Node → Bool
  | .lambda .. | .definition .. | .classDef .. => false
  | _ => true

/-! ## Children in the same unit -/

/-- The lambdas directly in two lists are those of the first, then those of the second. -/
theorem lambdasAll_append (ns more : List Node) :
    lambdasAll (ns ++ more) = lambdasAll ns ++ lambdasAll more := by
  induction ns with
  | nil => rfl
  | cons n ns ih => rw [List.cons_append, lambdasAll, lambdasAll, ih, List.append_assoc]

/-- The lambdas directly in a node are those of its children, unless the children belong to another
unit. -/
theorem lambdas_of_sharesUnit {n : Node} (h : n.sharesUnit = true) :
    n.lambdas = lambdasAll n.children := by
  cases n with
  | lambda | definition | classDef => cases h
  | _ => simp [lambdas, children, lambdasAll]

/-- The lambdas of a child stand after those of the children before it. -/
theorem getElem?_lambdas_child {n child : Node} {i k : Nat} {l : Lambda} (h : n.sharesUnit = true)
    (there : n.children[i]? = some child) (inside : child.lambdas[k]? = some l) :
    n.lambdas[(lambdasAll (n.children.take i)).length + k]? = some l := by
  obtain ⟨lt, rfl⟩ := List.getElem?_eq_some_iff.mp there
  have split : lambdasAll n.children = lambdasAll (n.children.take i) ++
      ((n.children[i]).lambdas ++ lambdasAll (n.children.drop (i + 1))) := by
    rw [← lambdasAll, ← lambdasAll_append, ← List.drop_eq_getElem_cons lt, List.take_append_drop]
  rw [lambdas_of_sharesUnit h, split, List.getElem?_append_right (Nat.le_add_right ..),
    Nat.add_sub_cancel_left, List.getElem?_append_left (List.getElem?_eq_some_iff.mp inside).1,
    inside]

/-- Resolving keeps the number of every lambda. -/
theorem getElem?_lambdas_resolved {n : Node} {k : Nat} {l : Lambda} (s : Scope)
    (there : n.lambdas[k]? = some l) :
    (n.resolveLambdas.bindNames s).lambdas[k]? = some l.resolve := by
  rw [lambdas_bindNames, lambdas_resolveLambdas, List.getElem?_map, there, Option.map_some]

/-- Resolving a list is resolving each of its trees in the scope of the unit. -/
theorem resolvedAll_eq_map (s : Scope) (ns : List Node) :
    bindNamesAll s (resolveLambdasAll ns) = ns.map fun n => n.resolveLambdas.bindNames s := by
  induction ns with
  | nil => rfl
  | cons n ns ih => rw [resolveLambdasAll, bindNamesAll, ih, List.map_cons]

/-- Resolving a node resolves its children in the same scope, if they belong to the same unit. -/
theorem children_resolved {n : Node} (s : Scope) (h : n.sharesUnit = true) :
    (n.resolveLambdas.bindNames s).children =
      n.children.map fun child => child.resolveLambdas.bindNames s := by
  cases n with
  | lambda | definition | classDef => cases h
  | _ => simp [resolveLambdas, bindNames, children, resolvedAll_eq_map]

/-- In a list that is supported every tree is. -/
theorem SupportedAll.of_mem : ∀ {ns : List Node}, SupportedAll ns → ∀ n ∈ ns, n.Supported
  | _ :: _, h, n, mem => by
    rcases List.mem_cons.mp mem with rfl | mem
    · exact h.1
    · exact h.2.of_mem n mem

/-- Resolving changes no node's kind, so it does not change where the children belong. -/
theorem sharesUnit_resolved (s : Scope) (n : Node) :
    (n.resolveLambdas.bindNames s).sharesUnit = n.sharesUnit := by
  cases n <;> rfl

/-- If there are instructions for a tree, there are for its children in the same unit. -/
theorem Supported.children {n : Node} (h : n.Supported) (shares : n.sharesUnit = true) :
    SupportedAll n.children := by
  cases n with
  | lambda | definition | classDef => cases shares
  | instanceVar | attr | attrAssign | importPath | has => exact h.elim
  | operator | conditional | loop => exact ⟨h.1, h.2, trivial⟩
  | call | block => exact h
  | invoke => exact h.2
  | assign => exact ⟨h.2, trivial⟩
  | step direction operand =>
    obtain ⟨name, index, rfl⟩ := h
    exact ⟨nofun, trivial⟩
  | _ => trivial

/-- Of the nodes whose children belong to another unit, only lambdas have code. -/
theorem sharesUnit_of_supported {n : Node} {s : Scope}
    (h : (n.resolveLambdas.bindNames s).Supported) (other : Lambda.ofNode? n = none) :
    n.sharesUnit = true := by
  cases n with
  | lambda => cases other
  | definition | classDef => exact h.elim
  | _ => rfl

end Node

/-! ## Lambdas in a program -/

namespace Lambda

/-- Resolving a lambda attaches a scope and annotations that resolving it again would attach, so
nothing changes. -/
theorem resolve_resolve (l : Lambda) : l.resolve.resolve = l.resolve := by
  simp [resolve, ownScope, Node.resolveLambdas_bindNames, Node.resolveLambdas_resolveLambdas,
    Node.bindNames_bindNames]

/-- Without a scope, a lambda is compiled in its resolved form. -/
theorem withScope_cleared (l : Lambda) : { l with scope := none }.withScope = l.resolve := rfl

/-- A lambda has the code that it is emitted with once the scope is attached, whether it was
attached before or is found out by compiling it. -/
theorem compile_of_withScope {l l' : Lambda} {inner : Emitter} (same : l.withScope = l')
    (emits : l'.emit = .ok inner) : l.compile.2 = .ok inner.code := by
  rw [compile, same, emits]
  rfl

end Lambda

/-- The code of the lambda with a number in a unit. -/
theorem CompiledUnit.Consistent.unitAt?_cons {u : CompiledUnit} (h : u.Consistent) {i : Nat}
    {l : Lambda} (lambda : u.body.lambdas[i]? = some l) (numbers : List Nat) :
    u.code.unitAt? (i :: numbers) = l.unit.unitAt? numbers := by
  obtain ⟨table, shape⟩ := h.shape
  rw [Code.unitAt?, shape.units, List.getElem?_map, lambda]
  rfl

/-- Wherever a lambda stands in a unit of a program, at any depth, its resolved form compiles, and
its code is found under the numbers that lead to it. -/
theorem Nesting.unitAt?_lambda {program : Node} {path : List Nat} {l : Lambda} {u : CompiledUnit}
    {around : List CompiledUnit} (nesting : Nesting program (u :: around)) {n : Node} {before : Nat}
    (supported : (n.resolveLambdas.bindNames u.scope).Supported)
    (part : ∀ k l, n.lambdas[k]? = some l → u.body.lambdas[before + k]? = some l.resolve)
    (here : n.at? path = some l.toNode) : ∃ numbers inner,
      n.unitNumbers? before path = some numbers ∧ u.code.unitAt? numbers = some inner.code ∧
        l.resolve.emit = .ok inner ∧
          (n.resolveLambdas.bindNames u.scope).at? path = some l.resolve.toNode := by
  have consistent := nesting.consistent u List.mem_cons_self
  induction path generalizing u around n before with
  | nil =>
    obtain rfl := Option.some.inj here
    have lambda : u.body.lambdas[before]? = some l.resolve := part 0 l rfl
    obtain ⟨table, shape⟩ := consistent.shape
    obtain ⟨inner, emits, -⟩ := (shape.makeable _ (List.mem_of_getElem? lambda)).compiles
    refine ⟨[before], inner, rfl, ?_, emits, rfl⟩
    rw [consistent.unitAt?_cons lambda, Lambda.unit, emits]
    rfl
  | cons i path ih =>
    obtain ⟨child, there, here⟩ := Option.bind_eq_some_iff.mp here
    rw [Node.unitNumbers?, there, Option.bind_some]
    cases known : Lambda.ofNode? n with
    | some outer =>
      -- The path goes into the unit of a lambda, and numbers start anew.
      obtain rfl := Lambda.ofNode?_eq_some_iff.mp known
      obtain ⟨inside, rfl⟩ := List.getElem?_eq_some_iff.mp there
      obtain rfl : i = 0 := Nat.lt_one_iff.mp inside
      have lambda : u.body.lambdas[before]? = some outer.resolve := part 0 outer rfl
      have inner := nesting.lambda_inside lambda
      have consistent' := inner.consistent _ List.mem_cons_self
      rw [outer.ownScope_resolve] at inner consistent'
      have whole (k : Nat) (l : Lambda) (there : outer.body.lambdas[k]? = some l) :
          outer.resolve.body.lambdas[0 + k]? = some l.resolve :=
        (Nat.zero_add k).symm ▸ Node.getElem?_lambdas_resolved outer.ownScope there
      obtain ⟨numbers, e, found, unit, emits, place⟩ :=
        ih inner consistent'.supported whole here consistent'
      refine ⟨before :: numbers, e, congrArg (Option.map (before :: ·)) found, ?_, emits, place⟩
      rw [consistent.unitAt?_cons lambda]
      exact unit
    | none =>
      -- The path stays in the unit, past the lambdas of the children before the next node.
      have shares := Node.sharesUnit_of_supported supported known
      have children := Node.children_resolved u.scope shares
      have inside : child.resolveLambdas.bindNames u.scope ∈
          (n.resolveLambdas.bindNames u.scope).children :=
        children ▸ List.mem_map_of_mem (List.mem_of_getElem? there)
      have supported' :=
        (supported.children (n.sharesUnit_resolved u.scope ▸ shares)).of_mem _ inside
      have later (k : Nat) (l : Lambda) (there' : child.lambdas[k]? = some l) :
          u.body.lambdas[before + (Node.lambdasAll (n.children.take i)).length + k]? =
            some l.resolve := by
        rw [Nat.add_assoc]
        exact part _ l (Node.getElem?_lambdas_child shares there there')
      obtain ⟨numbers, e, found, unit, emits, place⟩ := ih nesting supported' later here consistent
      refine ⟨numbers, e, found, unit, emits, ?_⟩
      rw [Node.at?, children, List.getElem?_map, there]
      exact place

/-- **A lambda has one code.** Take a program that compiles and a lambda at any place in it. The
numbers of the lambdas on the way lead to a unit in the code of the program, and that is what the
lambda compiles to on its own: as it stands in the program with its scope cleared, and as it stands
in the tree that compiling left, with its scope attached there or cleared. -/
theorem lambda_compiles_alone {program : Node} {code : Code}
    (compiled : program.compile.2 = .ok code) {path : List Nat} {l : Lambda}
    (here : program.at? path = some l.toNode) :
    ∃ (numbers : List Nat) (unit : Code) (resolved : Lambda),
      program.unitNumbers? 0 path = some numbers ∧ code.unitAt? numbers = some unit ∧
      { l with scope := none }.compile.2 = .ok unit ∧
      program.compile.1.at? path = some resolved.toNode ∧
      resolved.scope = some l.ownScope ∧ resolved.compile.2 = .ok unit ∧
      { resolved with scope := none }.compile.2 = .ok unit := by
  obtain ⟨u, nesting, rfl⟩ := Nesting.of_compile compiled
  have consistent := nesting.consistent u List.mem_cons_self
  cases nesting with
  | @outermost scope body code resolved outcome =>
    obtain ⟨-, -, rfl⟩ := Node.resolveProgram_ok resolved
    have whole (k : Nat) (l : Lambda) (there : program.lambdas[k]? = some l) :
        (program.resolveLambdas.bindNames scope).lambdas[0 + k]? = some l.resolve :=
      (Nat.zero_add k).symm ▸ Node.getElem?_lambdas_resolved scope there
    obtain ⟨numbers, inner, found, unit, emits, place⟩ :=
      (Nesting.outermost resolved outcome).unitAt?_lambda consistent.supported whole here
    refine ⟨numbers, inner.code, l.resolve, found, unit,
      Lambda.compile_of_withScope l.withScope_cleared emits, ?_, rfl,
      Lambda.compile_of_withScope rfl emits, Lambda.compile_of_withScope ?_ emits⟩
    · rw [outcome]
      exact place
    · rw [Lambda.withScope_cleared, Lambda.resolve_resolve]

/-- `=> nil; y => { => y; while y { z => z + 1 } }`: the lambda in the loop is the second one in its
unit, which is the second one in the program. -/
theorem lambdaInLoop_alone :
    let l : Lambda := ⟨["z"], .operator "+" (.var "z" none) (.integer 1), none⟩
    let program : Node := .block [.lambda [] .nil none, .lambda ["y"] (.block
      [.lambda [] (.var "y" none) none, .loop (.var "y" none) l.toNode]) none]
    let path : List Nat := [1, 0, 1, 1]
    let unit : Code := ⟨3, 0, #[.readRegister 1 0, .store 2 (.int 1), .callOperator 1 1 0, .ret 1],
      ["+"], []⟩
    let around : Code := ⟨2, 1, #[.storeCell 0 0, .createLambda 1 0 1 0, .readCell 0 0,
      .readCell 1 0, .branchUnless 1 7, .createLambda 1 1 0 1, .jump 3, .ret 1], [],
      [⟨1, 1, #[.readCell 0 0, .ret 0], [], []⟩, unit]⟩
    let code : Code := ⟨1, 0, #[.createLambda 0 0 0 0, .createLambda 0 1 0 1, .ret 0], [],
      [⟨1, 0, #[.store 0 .nil, .ret 0], [], []⟩, around]⟩
    program.compile.2 = .ok code ∧ program.at? path = some l.toNode ∧
      program.unitNumbers? 0 path = some [1, 1] ∧ code.unitAt? [1, 1] = some unit ∧
      ∃ resolved : Lambda, program.compile.1.at? path = some resolved.toNode ∧
        resolved.compile.2 = .ok unit := by
  intro l program path unit around code
  have compiled : program.compile.2 = .ok code := by decide +kernel
  have here : program.at? path = some l.toNode := rfl
  have alone : l.compile.2 = .ok unit := rfl
  obtain ⟨numbers, unit', resolved, found, there, cleared, place, -, attached, -⟩ :=
    lambda_compiles_alone compiled here
  obtain rfl : [1, 1] = numbers := Option.some.inj found
  obtain rfl : unit = unit' := Except.ok.inj (alone.symm.trans cleared)
  exact ⟨compiled, here, found, there, resolved, place, attached⟩

end ClosureLang
