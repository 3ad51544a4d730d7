import ClosureLang.Proofs.Scope.Resolution

/-!
# Trees without annotations

Erasing a tree takes off all that resolving attaches: the places of names and the scopes of lambdas.
What resolving makes of a tree depends on its erasure only, because the walk does not look at
annotations and every one that is in its way is overwritten. The bodies of definitions and classes
are out of its way. What is attached there stays, and it is left out where the outcomes for two
trees are compared.

What resolving attached it attaches again, so it changes nothing in a tree that it left.

Erasing and erasing bodies are traversals, as binding and resolving are. One traversal after another
is one traversal, so each law is an equation between two of these, and it holds as soon as the two
do the same to a name, to a lambda and to a separate body. For lambdas this takes an induction over
nested units, since resolving a lambda resolves the lambdas in it.
-/

set_option autoImplicit false

namespace ClosureLang

namespace Node

mutual

/-- The tree without the places of names and the scopes of lambdas. -/
def erase : Node → Node
  | .var name _ => .var name none
  | .invoke name args _ => .invoke name (eraseAll args) none
  | .assign name value _ => .assign name value.erase none
  | .lambda params body _ => .lambda params body.erase none
  | .operator name left right => .operator name left.erase right.erase
  | .call method receiver args => .call method receiver.erase (eraseAll args)
  | .block items => .block (eraseAll items)
  | .conditional condition body => .conditional condition.erase body.erase
  | .loop condition body => .loop condition.erase body.erase
  | .step direction operand => .step direction operand.erase
  | .attr name receiver => .attr name receiver.erase
  | .attrAssign name receiver value => .attrAssign name receiver.erase value.erase
  | .definition name params body => .definition name params body.erase
  | .classDef name body => .classDef name body.erase
  | node => node

/-- The trees of a list without annotations. -/
def eraseAll : List Node → List Node
  | [] => []
  | node :: nodes => node.erase :: eraseAll nodes

end

mutual

/-- The tree without annotations in the bodies of its definitions and classes. -/
def eraseBodies : Node → Node
  | .invoke name args binding => .invoke name (eraseBodiesAll args) binding
  | .assign name value binding => .assign name value.eraseBodies binding
  | .lambda params body scope => .lambda params body.eraseBodies scope
  | .operator name left right => .operator name left.eraseBodies right.eraseBodies
  | .call method receiver args => .call method receiver.eraseBodies (eraseBodiesAll args)
  | .block items => .block (eraseBodiesAll items)
  | .conditional condition body => .conditional condition.eraseBodies body.eraseBodies
  | .loop condition body => .loop condition.eraseBodies body.eraseBodies
  | .step direction operand => .step direction operand.eraseBodies
  | .attr name receiver => .attr name receiver.eraseBodies
  | .attrAssign name receiver value => .attrAssign name receiver.eraseBodies value.eraseBodies
  | .definition name params body => .definition name params body.erase
  | .classDef name body => .classDef name body.erase
  | node => node

/-- The trees of a list without annotations in the bodies of definitions and classes. -/
def eraseBodiesAll : List Node → List Node
  | [] => []
  | node :: nodes => node.eraseBodies :: eraseBodiesAll nodes

end

end Node

/-! ## Erasing is a traversal -/

namespace Annotator

/-- What erasing leaves. -/
def erasing : Annotator :=
  ⟨fun _ _ => none, fun l => ⟨l.params, l.body.erase, none⟩, Node.erase⟩

/-- What erasing the bodies of definitions and classes leaves. -/
def erasingBodies : Annotator :=
  ⟨fun _ place => place, fun l => { l with body := l.body.eraseBodies }, Node.erase⟩

end Annotator

namespace Node

mutual

/-- Erasing is the traversal that leaves no annotation. -/
theorem erase_eq_annotate : ∀ n : Node, n.erase = n.annotate .erasing
  | .operator _ left right | .attrAssign _ left right | .conditional left right
  | .loop left right => by
    simp only [erase, annotate, erase_eq_annotate left, erase_eq_annotate right]
  | .call _ receiver args => by
    simp only [erase, annotate, erase_eq_annotate receiver, eraseAll_eq_annotateAll args]
  | .assign _ n _ | .step _ n | .attr _ n => by
    simp only [erase, annotate, erase_eq_annotate n, Annotator.erasing]
  | .invoke _ ns _ | .block ns => by
    simp only [erase, annotate, eraseAll_eq_annotateAll ns, Annotator.erasing]
  | .var .. | .lambda .. | .definition .. | .classDef .. => rfl
  | .integer _ | .string _ | .atom _ | .boolean _ | .nil | .instanceVar _ => rfl
  | .importPath _ | .has .. | .comment _ => rfl

theorem eraseAll_eq_annotateAll : ∀ ns : List Node, eraseAll ns = annotateAll .erasing ns
  | [] => rfl
  | n :: ns => by
    simp only [eraseAll, annotateAll, erase_eq_annotate n, eraseAll_eq_annotateAll ns]

end

mutual

/-- Erasing bodies is the traversal that leaves all annotations but those in separate bodies. -/
theorem eraseBodies_eq_annotate : ∀ n : Node, n.eraseBodies = n.annotate .erasingBodies
  | .operator _ left right | .attrAssign _ left right | .conditional left right
  | .loop left right => by
    simp only [eraseBodies, annotate, eraseBodies_eq_annotate left, eraseBodies_eq_annotate right]
  | .call _ receiver args => by
    simp only [eraseBodies, annotate, eraseBodies_eq_annotate receiver,
      eraseBodiesAll_eq_annotateAll args]
  | .assign _ n _ | .step _ n | .attr _ n => by
    simp only [eraseBodies, annotate, eraseBodies_eq_annotate n, Annotator.erasingBodies]
  | .invoke _ ns _ | .block ns => by
    simp only [eraseBodies, annotate, eraseBodiesAll_eq_annotateAll ns, Annotator.erasingBodies]
  | .var .. | .lambda .. | .definition .. | .classDef .. => rfl
  | .integer _ | .string _ | .atom _ | .boolean _ | .nil | .instanceVar _ => rfl
  | .importPath _ | .has .. | .comment _ => rfl

theorem eraseBodiesAll_eq_annotateAll : ∀ ns : List Node,
    eraseBodiesAll ns = annotateAll .erasingBodies ns
  | [] => rfl
  | n :: ns => by
    simp only [eraseBodiesAll, annotateAll, eraseBodies_eq_annotate n,
      eraseBodiesAll_eq_annotateAll ns]

end

/-- Erasing bodies keeps how many trees there are. -/
@[simp] theorem length_eraseBodiesAll (ns : List Node) :
    (eraseBodiesAll ns).length = ns.length := by
  rw [eraseBodiesAll_eq_annotateAll, annotateAll_eq_map, List.length_map]

/-! ## Resolving only annotates -/

/-- Binding names is undone by erasing. -/
theorem erase_bindNames (s : Scope) (n : Node) : (n.bindNames s).erase = n.erase := by
  rw [bindNames_eq_annotate, erase_eq_annotate, annotate_annotate, erase_eq_annotate]
  rfl

/-- Resolving lambdas is undone by erasing. -/
theorem erase_resolveLambdas (n : Node) : n.resolveLambdas.erase = n.erase := by
  induction n using nested_induction with
  | unit n inner =>
    rw [resolveLambdas_eq_annotate, erase_eq_annotate, annotate_annotate, erase_eq_annotate]
    refine annotate_congr fun l mem => ?_
    have body : l.resolve.body.erase = l.body.erase := (erase_bindNames ..).trans (inner l mem)
    exact congrArg (Lambda.mk l.params · none) body

/-! ## Resolving depends on the erasure only -/

/-- The scope of a unit does not depend on annotations. -/
@[simp] theorem ofUnit_erase (params : List String) (body : Node) :
    Scope.ofUnit params body.erase = Scope.ofUnit params body := by
  induction body using nested_induction generalizing params with
  | unit n inner =>
    rw [erase_eq_annotate]
    refine ofUnit_annotate (fun l mem => ?_) params
    exact inner l mem l.params

/-- What resolving attaches to a tree it attaches to the erased tree, too. -/
theorem eraseBodies_resolved (s : Scope) (n : Node) :
    (n.resolveLambdas.bindNames s).eraseBodies = n.erase.resolveLambdas.bindNames s := by
  induction n using nested_induction generalizing s with
  | unit n inner =>
    simp only [bindNames_eq_annotate, resolveLambdas_eq_annotate, eraseBodies_eq_annotate,
      erase_eq_annotate, annotate_annotate]
    refine annotate_congr fun l mem => ?_
    -- Both lambdas get the scope of `l`, whether their bodies are erased before or after.
    have scope : l.ownScope = Scope.ofUnit l.params l.body.erase := (ofUnit_erase ..).symm
    show Lambda.mk l.params (l.body.resolveLambdas.bindNames l.ownScope).eraseBodies
        (some l.ownScope) = Lambda.resolve ⟨l.params, l.body.erase, none⟩
    rw [inner l mem, scope]
    rfl

/-! ## Resolving again -/

/-- Names that are bound are bound to the same places again. -/
theorem bindNames_bindNames (s : Scope) (n : Node) :
    (n.bindNames s).bindNames s = n.bindNames s := by
  simp only [bindNames_eq_annotate, annotate_annotate]
  rfl

/-- Binding the names of a unit and resolving its lambdas do not meet. -/
theorem resolveLambdas_bindNames (s : Scope) (n : Node) :
    (n.bindNames s).resolveLambdas = n.resolveLambdas.bindNames s := by
  simp only [bindNames_eq_annotate, resolveLambdas_eq_annotate, annotate_annotate]
  rfl

/-- Lambdas that are resolved stay as they are. -/
theorem resolveLambdas_resolveLambdas (n : Node) :
    n.resolveLambdas.resolveLambdas = n.resolveLambdas := by
  induction n using nested_induction with
  | unit n inner =>
    rw [resolveLambdas_eq_annotate, resolveLambdas_eq_annotate, annotate_annotate]
    refine annotate_congr fun l mem => ?_
    have again : l.resolve.body.resolveLambdas = l.resolve.body := by
      rw [Lambda.resolve, resolveLambdas_bindNames, inner l mem]
    show l.resolve.resolve = l.resolve
    rw [Lambda.resolve, Lambda.ownScope_resolve, again]
    exact congrArg (Lambda.mk l.params · _) (bindNames_bindNames ..)

/-! ## Programs -/

/-- Resolving a program only annotates it. -/
theorem erase_resolveProgram (program : Node) : program.resolveProgram.1.erase = program.erase := by
  unfold resolveProgram
  simp only
  split
  · rw [erase_bindNames, erase_resolveLambdas]
  · exact erase_resolveLambdas program

/-- The scope of a program, or the name that is undefined, is that of the erased program. -/
theorem resolveProgram_erase (program : Node) :
    program.erase.resolveProgram.2 = program.resolveProgram.2 := by
  simp only [resolveProgram, ofUnit_erase]
  split <;> rfl

/-- Apart from the bodies of definitions and classes, a resolved program is the erased one,
resolved. -/
theorem eraseBodies_resolveProgram {program : Node} {s : Scope}
    (resolved : program.resolveProgram.2 = .ok s) :
    program.resolveProgram.1.eraseBodies = program.erase.resolveProgram.1 := by
  have erased := (resolveProgram_erase program).trans resolved
  rw [resolveProgram_fst resolved, resolveProgram_fst erased, eraseBodies_resolved]

/-- Resolving a program again changes nothing, whether or not it was resolved. -/
theorem resolveProgram_resolveProgram (program : Node) :
    program.resolveProgram.1.resolveProgram = program.resolveProgram := by
  cases received : (Scope.ofUnit [] program).capturedNames with
  | nil =>
    have first : program.resolveProgram = (program.resolveLambdas.bindNames
        (Scope.ofUnit [] program), .ok (Scope.ofUnit [] program)) := by
      simp only [resolveProgram, received]
    rw [first]
    simp only [resolveProgram, ofUnit_resolved, received, resolveLambdas_bindNames,
      resolveLambdas_resolveLambdas, bindNames_bindNames]
  | cons name names =>
    have first : program.resolveProgram =
        (program.resolveLambdas, .error (.undefinedVariable name)) := by
      simp only [resolveProgram, received]
    rw [first]
    simp only [resolveProgram, ofUnit_resolveLambdas, received, resolveLambdas_resolveLambdas]

end Node

end ClosureLang
