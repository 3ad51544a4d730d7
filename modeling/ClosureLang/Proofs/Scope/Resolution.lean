import ClosureLang.Proofs.Scope.Traversal

/-!
# What resolving attaches

Resolving changes annotations only: the names that occur in a tree, its lambdas and the scopes of
its units stay the same. In a resolved unit every occurrence is bound to the place that the unit's
scope gives to its name, and every lambda is a resolved one.

The resolver goes over a unit twice, and both times it is a traversal: `bindNames` writes the places
of the names and leaves the lambdas alone, `resolveLambdas` resolves the lambdas and leaves the
names alone. What a traversal keeps is known, so all that is shown here is which traversals these
are, and what they do to a single occurrence and to a single lambda. The scope of a unit follows
from its names and from what its lambdas receive, neither of which depends on annotations, so it is
the same before and after (`ofUnit_resolved`).

`Node.Resolved` says that a tree is what the resolver leaves in a unit with a given scope. It is
handed on to the bodies of lambdas (`Node.Resolved.inner`), with the scope that is attached to each
of them.
-/

set_option autoImplicit false

namespace ClosureLang

/-- The occurrence, bound to the place that a scope gives to its name. -/
def Occurrence.bindIn (s : Scope) (o : Occurrence) : Occurrence :=
  { o with binding := s.binding? o.name }

/-! ## Binding names -/

namespace Annotator

/-- What binding the names of a unit with scope `s` leaves. -/
def binding (s : Scope) : Annotator := ⟨fun name _ => s.binding? name, id, id⟩

/-- What resolving the lambdas of a unit leaves. -/
def resolving : Annotator := ⟨fun _ place => place, Lambda.resolve, id⟩

end Annotator

namespace Node

mutual

/-- Binding names is a traversal. -/
theorem bindNames_eq_annotate (s : Scope) : ∀ n : Node, n.bindNames s = n.annotate (.binding s)
  | .operator _ left right | .attrAssign _ left right | .conditional left right
  | .loop left right => by
    simp only [bindNames, annotate, bindNames_eq_annotate s left, bindNames_eq_annotate s right]
  | .call _ receiver args => by
    simp only [bindNames, annotate, bindNames_eq_annotate s receiver,
      bindNamesAll_eq_annotateAll s args]
  | .assign _ n _ | .step _ n | .attr _ n => by
    simp only [bindNames, annotate, bindNames_eq_annotate s n, Annotator.binding]
  | .invoke _ ns _ | .block ns => by
    simp only [bindNames, annotate, bindNamesAll_eq_annotateAll s ns, Annotator.binding]
  | .var .. | .lambda .. | .definition .. | .classDef .. => rfl
  | .integer _ | .string _ | .atom _ | .boolean _ | .nil | .instanceVar _ => rfl
  | .importPath _ | .has .. | .comment _ => rfl

/-- Binding the names in a list of trees is a traversal of each. -/
theorem bindNamesAll_eq_annotateAll (s : Scope) : ∀ ns : List Node,
    bindNamesAll s ns = annotateAll (.binding s) ns
  | [] => rfl
  | n :: ns => by
    simp only [bindNamesAll, annotateAll, bindNames_eq_annotate s n,
      bindNamesAll_eq_annotateAll s ns]

end

/-- Binding names keeps how many trees there are. -/
theorem length_bindNamesAll (s : Scope) (ns : List Node) :
    (bindNamesAll s ns).length = ns.length := by
  rw [bindNamesAll_eq_annotateAll, annotateAll_eq_map, List.length_map]

/-- Every name of the unit is bound in the scope. -/
theorem occurrences_bindNames (s : Scope) (n : Node) :
    (n.bindNames s).occurrences = n.occurrences.map (Occurrence.bindIn s) := by
  rw [bindNames_eq_annotate]
  exact occurrences_annotate n

/-- The lambdas of the unit stay as they are: they have names of their own. -/
theorem lambdas_bindNames (s : Scope) (n : Node) : (n.bindNames s).lambdas = n.lambdas := by
  rw [bindNames_eq_annotate, lambdas_annotate]
  exact List.map_id _

/-- Binding the names of a unit does not change the scope that follows from it. -/
theorem ofUnit_bindNames (params : List String) (s : Scope) (n : Node) :
    Scope.ofUnit params (n.bindNames s) = Scope.ofUnit params n := by
  rw [bindNames_eq_annotate]
  exact ofUnit_annotate (fun _ _ => rfl) params

/-! ## Resolving lambdas -/

mutual

/-- Resolving lambdas is a traversal. -/
theorem resolveLambdas_eq_annotate : ∀ n : Node, n.resolveLambdas = n.annotate .resolving
  | .operator _ left right | .attrAssign _ left right | .conditional left right
  | .loop left right => by
    simp only [resolveLambdas, annotate, resolveLambdas_eq_annotate left,
      resolveLambdas_eq_annotate right]
  | .call _ receiver args => by
    simp only [resolveLambdas, annotate, resolveLambdas_eq_annotate receiver,
      resolveLambdasAll_eq_annotateAll args]
  | .assign _ n _ | .step _ n | .attr _ n => by
    simp only [resolveLambdas, annotate, resolveLambdas_eq_annotate n, Annotator.resolving]
  | .invoke _ ns _ | .block ns => by
    simp only [resolveLambdas, annotate, resolveLambdasAll_eq_annotateAll ns, Annotator.resolving]
  | .var .. | .lambda .. | .definition .. | .classDef .. => rfl
  | .integer _ | .string _ | .atom _ | .boolean _ | .nil | .instanceVar _ => rfl
  | .importPath _ | .has .. | .comment _ => rfl

/-- Resolving the lambdas in a list of trees is a traversal of each. -/
theorem resolveLambdasAll_eq_annotateAll : ∀ ns : List Node,
    resolveLambdasAll ns = annotateAll .resolving ns
  | [] => rfl
  | n :: ns => by
    simp only [resolveLambdasAll, annotateAll, resolveLambdas_eq_annotate n,
      resolveLambdasAll_eq_annotateAll ns]

end

/-- Resolving lambdas keeps how many trees there are. -/
theorem length_resolveLambdasAll (ns : List Node) :
    (resolveLambdasAll ns).length = ns.length := by
  rw [resolveLambdasAll_eq_annotateAll, annotateAll_eq_map, List.length_map]

/-- Every lambda of the unit is resolved. -/
theorem lambdas_resolveLambdas (n : Node) :
    n.resolveLambdas.lambdas = n.lambdas.map Lambda.resolve := by
  rw [resolveLambdas_eq_annotate]
  exact lambdas_annotate n

/-- Resolving the lambdas in a unit leaves the names of the unit itself as they are. -/
theorem occurrences_resolveLambdas (n : Node) : n.resolveLambdas.occurrences = n.occurrences := by
  rw [resolveLambdas_eq_annotate, occurrences_annotate]
  exact List.map_id _

end Node

/-- Resolving the lambdas in a unit does not change the scope of the unit. -/
@[simp] theorem ofUnit_resolveLambdas (params : List String) (body : Node) :
    Scope.ofUnit params body.resolveLambdas = Scope.ofUnit params body := by
  induction body using Node.nested_induction generalizing params with
  | unit n inner =>
    rw [Node.resolveLambdas_eq_annotate]
    refine Node.ofUnit_annotate (fun l mem => ?_) params
    exact (Node.ofUnit_bindNames l.params l.ownScope _).trans (inner l mem l.params)

/-- The scope of a unit does not depend on what was attached to its body. -/
@[simp] theorem ofUnit_resolved (params : List String) (body : Node) (s : Scope) :
    Scope.ofUnit params (body.resolveLambdas.bindNames s) = Scope.ofUnit params body := by
  rw [Node.ofUnit_bindNames, ofUnit_resolveLambdas]

/-- A lambda has the same scope of its own after it was resolved. -/
@[simp] theorem Lambda.ownScope_resolve (l : Lambda) : l.resolve.ownScope = l.ownScope :=
  ofUnit_resolved ..

/-! ## Resolved units -/

/-- The names in the tree are bound in the scope, and the lambdas in it are resolved. -/
structure Node.Resolved (s : Scope) (n : Node) : Prop where
  bound : ∀ o ∈ n.occurrences, o.binding = s.binding? o.name
  lambdas : ∀ l ∈ n.lambdas, ∃ l₀ : Lambda, l = l₀.resolve

/-- Resolving the lambdas of a unit and then binding its names resolves it. -/
theorem Node.resolved_bindNames (s : Scope) (n : Node) :
    (n.resolveLambdas.bindNames s).Resolved s where
  bound o ho := by
    rw [occurrences_bindNames, List.mem_map] at ho
    obtain ⟨o, -, rfl⟩ := ho
    rfl
  lambdas l hl := by
    rw [lambdas_bindNames, lambdas_resolveLambdas, List.mem_map] at hl
    obtain ⟨l₀, -, rfl⟩ := hl
    exact ⟨l₀, rfl⟩

/-- A lambda in a resolved tree has its own scope, and its body is resolved in it. -/
theorem Node.Resolved.inner {s : Scope} {n : Node} (h : n.Resolved s) {l : Lambda}
    (hl : l ∈ n.lambdas) : l.scope = some l.ownScope ∧ l.body.Resolved l.ownScope := by
  obtain ⟨l₀, rfl⟩ := h.lambdas l hl
  rw [l₀.ownScope_resolve]
  exact ⟨rfl, l₀.body.resolved_bindNames l₀.ownScope⟩

/-- A program that can be resolved receives nothing. -/
theorem Node.resolveProgram_ok {program body : Node} {s : Scope}
    (h : program.resolveProgram = (body, .ok s)) :
    s = Scope.ofUnit [] program ∧ s.capturedNames = [] ∧
      body = program.resolveLambdas.bindNames s := by
  simp only [resolveProgram] at h
  split at h
  · next none =>
    cases h
    exact ⟨rfl, none, rfl⟩
  · cases h

/-- A program that is not refused is resolved as the body of a unit without parameters. -/
theorem Node.resolveProgram_fst {program : Node} {s : Scope}
    (h : program.resolveProgram.2 = .ok s) :
    program.resolveProgram.1 = program.resolveLambdas.bindNames s :=
  (Node.resolveProgram_ok (Prod.ext rfl h)).2.2

end ClosureLang
