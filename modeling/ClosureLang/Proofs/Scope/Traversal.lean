import ClosureLang.Proofs.Scope.Names

/-!
# One traversal for all annotations

Four functions rewrite the annotations of a tree and nothing else. Binding names writes the place of
every name of a unit; resolving lambdas replaces every lambda of a unit by its resolved form;
erasing takes all annotations off, and erasing bodies takes off those that resolving does not reach.
They walk a unit in the same way and differ in three things only: the place that a name gets, what
becomes of a lambda, and what becomes of the body of a definition or a class. An `Annotator` says
these three things, and `Node.annotate` is the walk.

What such a walk keeps is proved here, once for all of them. It keeps the names of a unit and their
order, and it treats the lambdas of the unit one by one (`occurrences_annotate`,
`lambdas_annotate`). One walk after another is one walk (`annotate_annotate`), and two walks that do
the same with names, lambdas and bodies are the same walk (`annotate_congr`). The laws of resolving
and erasing follow from these without another induction over the constructors of a tree.

What a walk does to lambdas that stand inside other lambdas is a matter of the function that it
applies to a lambda. For these there is the induction over nested units, `Node.nested_induction`:
what is true of a unit if it is true of the bodies of its lambdas is true of every unit.
-/

set_option autoImplicit false

namespace ClosureLang

/-- What a traversal leaves at the places of a tree that have to do with annotations. -/
structure Annotator where
  /-- The place that a name gets, by the name and the place that it had. -/
  place : String → Option Binding → Option Binding
  /-- What becomes of a lambda of the unit. -/
  lambda : Lambda → Lambda
  /-- What becomes of the body of a definition or a class, which is not part of the unit. -/
  apart : Node → Node

namespace Annotator

/-- First `a`, then `b`. -/
def andThen (a b : Annotator) : Annotator :=
  ⟨fun name place => b.place name (a.place name place), b.lambda ∘ a.lambda, b.apart ∘ a.apart⟩

/-- The occurrence with the place that its name gets. -/
def occurrence (a : Annotator) (o : Occurrence) : Occurrence :=
  { o with binding := a.place o.name o.binding }

end Annotator

namespace Node

mutual

/-- The tree with what the annotator leaves at the names, the lambdas and the separate bodies of its
unit. -/
def annotate (a : Annotator) : Node → Node
  | .var name place => .var name (a.place name place)
  | .invoke name args place => .invoke name (annotateAll a args) (a.place name place)
  | .assign name value place => .assign name (value.annotate a) (a.place name place)
  | .lambda params body scope => (a.lambda ⟨params, body, scope⟩).toNode
  | .operator name left right => .operator name (left.annotate a) (right.annotate a)
  | .call method receiver args => .call method (receiver.annotate a) (annotateAll a args)
  | .block items => .block (annotateAll a items)
  | .conditional condition body => .conditional (condition.annotate a) (body.annotate a)
  | .loop condition body => .loop (condition.annotate a) (body.annotate a)
  | .step direction operand => .step direction (operand.annotate a)
  | .attr name receiver => .attr name (receiver.annotate a)
  | .attrAssign name receiver value => .attrAssign name (receiver.annotate a) (value.annotate a)
  | .definition name params body => .definition name params (a.apart body)
  | .classDef name body => .classDef name (a.apart body)
  | node => node

/-- The trees of a list, annotated. -/
def annotateAll (a : Annotator) : List Node → List Node
  | [] => []
  | node :: nodes => node.annotate a :: annotateAll a nodes

end

variable {a b : Annotator}

/-- A list is annotated tree by tree. -/
theorem annotateAll_eq_map (a : Annotator) (ns : List Node) :
    annotateAll a ns = ns.map (annotate a) := by
  induction ns with
  | nil => rfl
  | cons n ns ih => rw [annotateAll, ih, List.map_cons]

/-! ## Traversals that are the same -/

mutual

/-- A traversal does to a tree what it does to the lambdas of the tree: nothing else of the lambda
function matters. -/
theorem annotate_congr {f : Lambda → Lambda} : ∀ {n : Node}, (∀ l ∈ n.lambdas, a.lambda l = f l) →
    n.annotate a = n.annotate { a with lambda := f }
  | .lambda .., same => congrArg Lambda.toNode (same _ List.mem_cons_self)
  | .operator .., same | .attrAssign .., same | .conditional .., same | .loop .., same => by
    obtain ⟨first, second⟩ := List.forall_mem_append.mp same
    rw [annotate, annotate_congr first, annotate_congr second, annotate]
  | .call .., same => by
    obtain ⟨first, second⟩ := List.forall_mem_append.mp same
    rw [annotate, annotate_congr first, annotateAll_congr second, annotate]
  | .assign _ n _, same | .step _ n, same | .attr _ n, same => by
    rw [annotate, annotate_congr (n := n) same, annotate]
  | .invoke _ ns _, same | .block ns, same => by
    have args : ∀ l ∈ lambdasAll ns, a.lambda l = f l := same
    rw [annotate, annotateAll_congr args, annotate]
  | .var .., _ | .definition .., _ | .classDef .., _ => rfl
  | .integer _, _ | .string _, _ | .atom _, _ | .boolean _, _ | .nil, _ | .instanceVar _, _ => rfl
  | .importPath _, _ | .has .., _ | .comment _, _ => rfl

/-- Two functions that do the same with the lambdas of a list of trees make the same traversal. -/
theorem annotateAll_congr {f : Lambda → Lambda} :
    ∀ {ns : List Node}, (∀ l ∈ lambdasAll ns, a.lambda l = f l) →
      annotateAll a ns = annotateAll { a with lambda := f } ns
  | [], _ => rfl
  | n :: ns, same => by
    obtain ⟨first, second⟩ := List.forall_mem_append.mp same
    rw [annotateAll, annotate_congr first, annotateAll_congr second, annotateAll]

end

mutual

/-- One traversal after another is one traversal. -/
theorem annotate_annotate : ∀ n : Node, (n.annotate a).annotate b = n.annotate (a.andThen b)
  | .lambda .. => rfl
  | .operator _ left right | .attrAssign _ left right | .conditional left right
  | .loop left right => by
    simp only [annotate, annotate_annotate left, annotate_annotate right]
  | .call _ receiver args => by
    simp only [annotate, annotate_annotate receiver, annotateAll_annotateAll args]
  | .assign _ n _ | .step _ n | .attr _ n => by
    simp only [annotate, annotate_annotate n, Annotator.andThen]
  | .invoke _ ns _ | .block ns => by
    simp only [annotate, annotateAll_annotateAll ns, Annotator.andThen]
  | .var .. | .definition .. | .classDef .. => rfl
  | .integer _ | .string _ | .atom _ | .boolean _ | .nil | .instanceVar _ => rfl
  | .importPath _ | .has .. | .comment _ => rfl

/-- Two traversals of a list of trees are one. -/
theorem annotateAll_annotateAll : ∀ ns : List Node,
    annotateAll b (annotateAll a ns) = annotateAll (a.andThen b) ns
  | [] => rfl
  | n :: ns => by simp only [annotateAll, annotate_annotate n, annotateAll_annotateAll ns]

end

/-! ## What a traversal keeps -/

mutual

/-- A traversal keeps the names of a unit in their order and gives each of them its place. -/
theorem occurrences_annotate : ∀ n : Node,
    (n.annotate a).occurrences = n.occurrences.map a.occurrence
  | .lambda .. => rfl
  | .operator _ left right | .attrAssign _ left right | .conditional left right
  | .loop left right => by
    simp only [annotate, occurrences, occurrences_annotate left, occurrences_annotate right,
      List.map_append]
  | .call _ receiver args => by
    simp only [annotate, occurrences, occurrences_annotate receiver,
      occurrencesAll_annotateAll args, List.map_append]
  | .assign _ n _ | .step _ n | .attr _ n => by
    simp only [annotate, occurrences, occurrences_annotate n, List.map_cons, Annotator.occurrence]
  | .invoke _ ns _ | .block ns => by
    simp only [annotate, occurrences, occurrencesAll_annotateAll ns, List.map_cons,
      Annotator.occurrence]
  | .var .. | .definition .. | .classDef .. => rfl
  | .integer _ | .string _ | .atom _ | .boolean _ | .nil | .instanceVar _ => rfl
  | .importPath _ | .has .. | .comment _ => rfl

/-- A traversal of a list of trees keeps the names and their order. -/
theorem occurrencesAll_annotateAll : ∀ ns : List Node,
    occurrencesAll (annotateAll a ns) = (occurrencesAll ns).map a.occurrence
  | [] => rfl
  | n :: ns => by
    simp only [annotateAll, occurrencesAll, occurrences_annotate n, occurrencesAll_annotateAll ns,
      List.map_append]

end

mutual

/-- A traversal treats the lambdas of a unit one by one. -/
theorem lambdas_annotate : ∀ n : Node, (n.annotate a).lambdas = n.lambdas.map a.lambda
  | .lambda .. => rfl
  | .operator _ left right | .attrAssign _ left right | .conditional left right
  | .loop left right => by
    simp only [annotate, lambdas, lambdas_annotate left, lambdas_annotate right, List.map_append]
  | .call _ receiver args => by
    simp only [annotate, lambdas, lambdas_annotate receiver, lambdasAll_annotateAll args,
      List.map_append]
  | .assign _ n _ | .step _ n | .attr _ n => by simp only [annotate, lambdas, lambdas_annotate n]
  | .invoke _ ns _ | .block ns => by simp only [annotate, lambdas, lambdasAll_annotateAll ns]
  | .var .. | .definition .. | .classDef .. => rfl
  | .integer _ | .string _ | .atom _ | .boolean _ | .nil | .instanceVar _ => rfl
  | .importPath _ | .has .. | .comment _ => rfl

/-- A traversal of a list of trees treats the lambdas one by one. -/
theorem lambdasAll_annotateAll : ∀ ns : List Node,
    lambdasAll (annotateAll a ns) = (lambdasAll ns).map a.lambda
  | [] => rfl
  | n :: ns => by
    simp only [annotateAll, lambdasAll, lambdas_annotate n, lambdasAll_annotateAll ns,
      List.map_append]

end

mutual

/-- The walk of the resolver does not look at places, and of a lambda it sees the scope that follows
from the parameters and the body. -/
theorem walk_annotate : ∀ {n : Node}, (∀ l ∈ n.lambdas, (a.lambda l).ownScope = l.ownScope) →
    ∀ u : Usage, u.walk (n.annotate a) = u.walk n
  | .lambda .., same, u =>
    congrArg (fun s : Scope => u.lend s.capturedNames) (same _ List.mem_cons_self)
  | .operator .., same, u | .attrAssign .., same, u | .conditional .., same, u
  | .loop .., same, u => by
    obtain ⟨first, second⟩ := List.forall_mem_append.mp same
    simp only [annotate, Usage.walk, walk_annotate first, walk_annotate second]
  | .call .., same, u => by
    obtain ⟨first, second⟩ := List.forall_mem_append.mp same
    simp only [annotate, Usage.walk, walk_annotate first, walkAll_annotateAll second]
  | .assign _ n _, same, u | .step _ n, same, u | .attr _ n, same, u => by
    simp only [annotate, Usage.walk, walk_annotate (n := n) same]
  | .invoke _ ns _, same, u | .block ns, same, u => by
    have args : ∀ l ∈ lambdasAll ns, (a.lambda l).ownScope = l.ownScope := same
    simp only [annotate, Usage.walk, walkAll_annotateAll args]
  | .var .., _, _ | .definition .., _, _ | .classDef .., _, _ => rfl
  | .integer _, _, _ | .string _, _, _ | .atom _, _, _ | .boolean _, _, _ | .nil, _, _ => rfl
  | .instanceVar _, _, _ | .importPath _, _, _ | .has .., _, _ | .comment _, _, _ => rfl

/-- The walk over a list of trees meets the same names after a traversal that keeps the scopes of
lambdas. -/
theorem walkAll_annotateAll : ∀ {ns : List Node},
    (∀ l ∈ lambdasAll ns, (a.lambda l).ownScope = l.ownScope) →
      ∀ u : Usage, u.walkAll (annotateAll a ns) = u.walkAll ns
  | [], _, _ => rfl
  | n :: ns, same, u => by
    obtain ⟨first, second⟩ := List.forall_mem_append.mp same
    simp only [annotateAll, Usage.walkAll, walk_annotate first, walkAll_annotateAll second]

end

/-- A traversal that keeps the scopes of lambdas keeps the scope of the unit. -/
theorem ofUnit_annotate {n : Node} (same : ∀ l ∈ n.lambdas, (a.lambda l).ownScope = l.ownScope)
    (params : List String) : Scope.ofUnit params (n.annotate a) = Scope.ofUnit params n := by
  rw [Scope.ofUnit, walk_annotate same, Scope.ofUnit]

/-! ## Nested units -/

/-- Induction over nested units: what is true of a unit whenever it is true of the bodies of its
lambdas is true of every unit. -/
theorem nested_induction {P : Node → Prop} (unit : ∀ n, (∀ l ∈ n.lambdas, P l.body) → P n)
    (n : Node) : P n :=
  unit n fun l mem =>
    have := n.sizeOf_lambdas mem
    nested_induction unit l.body
termination_by sizeOf n

end Node

end ClosureLang
