import ClosureLang.Proofs.Compile.Nesting
import ClosureLang.Proofs.Scope.Erasure

/-!
# Compiling does not depend on earlier annotations

The generator trusts the annotations that it finds. It finds those of the run of the resolver before
it, since it looks at no annotation that the resolver leaves alone: the bodies of definitions and
classes are out of the way of both. So the code of a program, or the error, depends on the erased
tree only, whatever an earlier run has left in the tree.

Two facts make it up. Emission does the same for a tree with and without annotations in separate
bodies (`node_eraseBodies`): of a definition or a class there is no code, so the error comes before
anything in it is looked at. And the resolved tree is the same, apart from these bodies, for all
trees with one erasure. Neither fact needs the program to have code, so errors are covered as well.
-/

set_option autoImplicit false

namespace ClosureLang

/-! ## The generator does not enter bodies of definitions and classes -/

namespace Emit

/-- What a step is applied to matters only if it is a variable, which is the same without bodies. -/
theorem step_eraseBodies (direction : Step) (operand : Node) :
    step direction operand.eraseBodies = step direction operand := by
  cases operand with
  | step other _ => cases other <;> rfl
  | _ => rfl

mutual

-- The walk of `Node.annotate` says nothing here: what is emitted for a node depends on its form, so
-- the cases are those of the emitter.

/-- Emission does not read the annotations in the bodies of definitions and classes: no code is made
of those nodes. -/
theorem node_eraseBodies : ∀ n : Node, node n.eraseBodies = node n
  | .lambda _ n _ | .assign _ n _ => by simp [Node.eraseBodies, node, node_eraseBodies n]
  | .operator _ left right | .conditional left right | .loop left right => by
    simp [Node.eraseBodies, node, node_eraseBodies left, node_eraseBodies right]
  | .invoke _ args _ => by simp [Node.eraseBodies, node, arguments_eraseBodies args]
  | .call _ receiver args => by
    simp [Node.eraseBodies, node, node_eraseBodies receiver, arguments_eraseBodies args]
  | .block [] => rfl
  | .block (item :: items) => by
    simp [Node.eraseBodies, Node.eraseBodiesAll, node, node_eraseBodies item,
      nodes_eraseBodies items]
  | .step direction operand => step_eraseBodies direction operand
  | .var .. | .attr .. | .attrAssign .. => rfl
  | .integer _ | .string _ | .atom _ | .boolean _ | .nil | .instanceVar _ => rfl
  | .importPath _ | .definition .. | .classDef .. | .has .. | .comment _ => rfl

/-- The trees of a list are emitted as they are without the bodies of definitions and classes. -/
theorem nodes_eraseBodies : ∀ ns : List Node, nodes (Node.eraseBodiesAll ns) = nodes ns
  | [] => rfl
  | n :: ns => by
    simp [Node.eraseBodiesAll, nodes, node_eraseBodies n, nodes_eraseBodies ns]

/-- The same for arguments. -/
theorem arguments_eraseBodies : ∀ ns : List Node,
    arguments (Node.eraseBodiesAll ns) = arguments ns
  | [] => rfl
  | n :: ns => by
    simp [Node.eraseBodiesAll, arguments, node_eraseBodies n, arguments_eraseBodies ns]

end

end Emit

/-! ## Programs -/

/-- The code of a program, or the error, is that of the erased program. -/
theorem Node.compile_erase (program : Node) : program.erase.compile.2 = program.compile.2 := by
  have outcome := resolveProgram_erase program
  cases resolved : program.resolveProgram.2 with
  | error cause =>
    have first : program.resolveProgram = (program.resolveProgram.1, .error cause) :=
      Prod.ext rfl resolved
    have second : program.erase.resolveProgram = (program.erase.resolveProgram.1, .error cause) :=
      Prod.ext rfl (outcome.trans resolved)
    rw [compile, compile, first, second]
  | ok s =>
    have first : program.resolveProgram = (program.resolveProgram.1, .ok s) :=
      Prod.ext rfl resolved
    have second : program.erase.resolveProgram = (program.erase.resolveProgram.1, .ok s) :=
      Prod.ext rfl (outcome.trans resolved)
    rw [compile, compile, first, second, ← eraseBodies_resolveProgram resolved]
    simp only [Emit.node_eraseBodies]

/-- **Annotations do not matter.** Two trees that are equal up to annotations are resolved with the
same scope or error and compiled to the same code or error. If they are resolved, they are equal
then, apart from the bodies of definitions and classes. And resolving a tree that was resolved
before, or could not be, has the same outcome again and changes nothing. -/
theorem annotations_ignored {t u : Node} (same : t.erase = u.erase) :
    t.resolveProgram.2 = u.resolveProgram.2 ∧ t.compile.2 = u.compile.2 ∧
      (∀ s, t.resolveProgram.2 = .ok s →
        t.resolveProgram.1.eraseBodies = u.resolveProgram.1.eraseBodies ∧
          t.compile.1.eraseBodies = u.compile.1.eraseBodies) ∧
      t.resolveProgram.1.resolveProgram = t.resolveProgram ∧
      t.resolveProgram.1.erase = t.erase := by
  have outcome : t.resolveProgram.2 = u.resolveProgram.2 := by
    rw [← t.resolveProgram_erase, same, u.resolveProgram_erase]
  refine ⟨outcome, by rw [← t.compile_erase, same, u.compile_erase], fun s resolved => ?_,
    t.resolveProgram_resolveProgram, t.erase_resolveProgram⟩
  have trees : t.resolveProgram.1.eraseBodies = u.resolveProgram.1.eraseBodies := by
    rw [Node.eraseBodies_resolveProgram resolved, same,
      ← Node.eraseBodies_resolveProgram (outcome.symm.trans resolved)]
  exact ⟨trees, by rw [t.compile_fst, u.compile_fst, trees]⟩

/-- `x = 1; => x`, as it was read, and with a cell that is not there and an empty scope. -/
theorem staleAnnotations_ignored :
    let t : Node := .block [.assign "x" (.integer 1) (some (.cell 7)),
      .lambda [] (.var "x" none) (some ∅)]
    let u : Node := .block [.assign "x" (.integer 1) none, .lambda [] (.var "x" none) none]
    let inner : Code := ⟨1, 1, #[.readCell 0 0, .ret 0], [], []⟩
    let code : Code := ⟨1, 1, #[.store 0 (.int 1), .storeCell 0 0, .createLambda 0 0 1 0,
      .readCell 0 0, .ret 0], [], [inner]⟩
    t.erase = u.erase ∧ t ≠ u ∧ t.compile.2 = .ok code ∧
      t.resolveProgram.1.eraseBodies = u.resolveProgram.1.eraseBodies ∧
      t.resolveProgram.1.resolveProgram = t.resolveProgram := by
  intro t u inner code
  have same : t.erase = u.erase := rfl
  have apart : t ≠ u := by simp [t, u]
  have compiled : u.compile.2 = .ok code := rfl
  obtain ⟨-, codes, trees, again, -⟩ := annotations_ignored same
  exact ⟨same, apart, codes.trans compiled, (trees _ rfl).1, again⟩

end ClosureLang
