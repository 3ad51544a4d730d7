import ClosureLang.Proofs.Scope.Closing
import ClosureLang.Scope.Resolve

/-!
# Names and the units they occur in

A name occurs in a unit where a variable of the unit is read, called or assigned; the body of a
lambda is a unit of its own. A unit declares its parameters and the names that it assigns. A name is
free in a lambda if the lambda does not declare it and either reads it or has a lambda in it in
which the name is free. None of this depends on where the resolver says that a name lives.

The walk of the resolver meets exactly these names: `received_iff_free` says that a lambda receives
the names that are free in it, and the laws on `Scope.ofUnit` after it say where the names of a unit
live.

The walk goes over a tree once and adds to a usage as it goes: names that are used, assigned and
lent. `Adds` says which names a tree adds to any usage, so that the walk over a tree can be
described part by part whatever came before. A lambda adds the names that it receives, both to the
used and to the lent ones. Whether a name is free in a lambda depends on the lambdas inside it, and
these are not parts of the tree in the sense of the walk but units of their own; the induction is on
the size of the body.
-/

set_option autoImplicit false

namespace ClosureLang

/-- A place in a unit where a name stands. -/
structure Occurrence where
  name : String
  binding : Option Binding
  /-- Whether the name is assigned there, and not read. -/
  assigned : Bool
  deriving DecidableEq, Repr

namespace Node

mutual

/-- The occurrences of names directly in a unit, from left to right. -/
def occurrences : Node → List Occurrence
  | .var name binding => [⟨name, binding, false⟩]
  | .invoke name args binding => ⟨name, binding, false⟩ :: occurrencesAll args
  | .assign name value binding => ⟨name, binding, true⟩ :: value.occurrences
  | .operator _ left right => left.occurrences ++ right.occurrences
  | .call _ receiver args => receiver.occurrences ++ occurrencesAll args
  | .block items => occurrencesAll items
  | .conditional condition body => condition.occurrences ++ body.occurrences
  | .loop condition body => condition.occurrences ++ body.occurrences
  | .step _ operand => operand.occurrences
  | .attr _ receiver => receiver.occurrences
  | .attrAssign _ receiver value => receiver.occurrences ++ value.occurrences
  | _ => []

/-- The occurrences of names directly in the trees of a list. -/
def occurrencesAll : List Node → List Occurrence
  | [] => []
  | node :: nodes => node.occurrences ++ occurrencesAll nodes

end

mutual

/-- The lambdas directly in a unit, from left to right. -/
def lambdas : Node → List Lambda
  | .lambda params body scope => [⟨params, body, scope⟩]
  | .operator _ left right => left.lambdas ++ right.lambdas
  | .call _ receiver args => receiver.lambdas ++ lambdasAll args
  | .invoke _ args _ => lambdasAll args
  | .block items => lambdasAll items
  | .conditional condition body => condition.lambdas ++ body.lambdas
  | .loop condition body => condition.lambdas ++ body.lambdas
  | .step _ operand => operand.lambdas
  | .assign _ value _ => value.lambdas
  | .attr _ receiver => receiver.lambdas
  | .attrAssign _ receiver value => receiver.lambdas ++ value.lambdas
  | _ => []

/-- The lambdas directly in the trees of a list. -/
def lambdasAll : List Node → List Lambda
  | [] => []
  | node :: nodes => node.lambdas ++ lambdasAll nodes

end

/-- A unit with this body reads `name`. -/
def Reads (body : Node) (name : String) : Prop :=
  ∃ o ∈ body.occurrences, o.assigned = false ∧ o.name = name

/-- A unit with this body assigns `name`. -/
def Assigns (body : Node) (name : String) : Prop :=
  ∃ o ∈ body.occurrences, o.assigned = true ∧ o.name = name

/-- A unit with these parameters and this body declares `name`. -/
def Declares (params : List String) (body : Node) (name : String) : Prop :=
  name ∈ params ∨ body.Assigns name

end Node

/-- The name is used in the lambda, or in a lambda inside it, and no unit from there up to the
lambda itself declares it. -/
inductive Lambda.Free : Lambda → String → Prop where
  | read {l : Lambda} {name : String} :
      l.body.Reads name → ¬ l.body.Declares l.params name → l.Free name
  | inside {l inner : Lambda} {name : String} :
      inner ∈ l.body.lambdas → inner.Free name → ¬ l.body.Declares l.params name → l.Free name

/-- Some lambda directly in a unit with this body receives `name`. -/
def Node.Lends (body : Node) (name : String) : Prop := ∃ l ∈ body.lambdas, l.Free name

/-! ## What the walk meets -/

namespace Usage

/-- The names that one tree, or a list of trees, adds to the usage of a unit. -/
structure Adds (occurrences : List Occurrence) (lambdas : List Lambda) (u u' : Usage) : Prop where
  assigned : ∀ name, name ∈ u'.assigned ↔
    name ∈ u.assigned ∨ ∃ o ∈ occurrences, o.assigned = true ∧ o.name = name
  lent : ∀ name, name ∈ u'.lent ↔
    name ∈ u.lent ∨ ∃ l ∈ lambdas, name ∈ (Scope.ofUnit l.params l.body).capturedNames
  used : ∀ name, name ∈ u'.used ↔
    name ∈ u.used ∨ (∃ o ∈ occurrences, o.assigned = false ∧ o.name = name) ∨
      ∃ l ∈ lambdas, name ∈ (Scope.ofUnit l.params l.body).capturedNames

namespace Adds

variable {os os' : List Occurrence} {ls ls' : List Lambda} {u u₁ u' : Usage}

/-- A tree without names and lambdas adds nothing. -/
theorem nothing (u : Usage) : Adds [] [] u u :=
  ⟨fun _ => by simp, fun _ => by simp, fun _ => by simp⟩

/-- Two trees one after the other add what each of them adds. -/
theorem append (h : Adds os ls u u₁) (h' : Adds os' ls' u₁ u') :
    Adds (os ++ os') (ls ++ ls') u u' where
  assigned name := by
    simp only [h'.assigned, h.assigned, List.mem_append, or_and_right, exists_or, or_assoc]
  lent name := by
    simp only [h'.lent, h.lent, List.mem_append, or_and_right, exists_or, or_assoc]
  used name := by
    simp only [h'.used, h.used, List.mem_append, or_and_right, exists_or]
    grind

/-- A use adds its name to those that are used. -/
theorem use (u : Usage) (name : String) (binding : Option Binding) :
    Adds [⟨name, binding, false⟩] [] u (u.use name) where
  assigned other := by simp [Usage.use]
  lent other := by simp [Usage.use]
  used other := by simp [Usage.use, NameTable.mem_insert, @eq_comm _ other name]

/-- An assignment adds its name to those that are assigned. -/
theorem assign (u : Usage) (name : String) (binding : Option Binding) :
    Adds [⟨name, binding, true⟩] [] u (u.assign name) where
  assigned other := by simp [Usage.assign, NameTable.mem_insert, @eq_comm _ other name]
  lent other := by simp [Usage.assign]
  used other := by simp [Usage.assign]

/-- A lambda adds the names that it receives to those that are lent and to those that are used. -/
theorem lend (u : Usage) (l : Lambda) :
    Adds [] [l] u (u.lend (Scope.ofUnit l.params l.body).capturedNames) where
  assigned other := by simp [Usage.lend]
  lent other := by simp [Usage.lend, NameTable.mem_insertAll]
  used other := by simp [Usage.lend, NameTable.mem_insertAll]

end Adds

mutual

/-- The walk over a tree adds the names that occur in it and the names that its lambdas receive. -/
theorem walk_adds : ∀ (n : Node) (u : Usage), Adds n.occurrences n.lambdas u (u.walk n)
  | .var name binding, u => .use u name binding
  | .invoke name args binding, u => (Adds.use u name binding).append (walkAll_adds args _)
  | .assign name value binding, u => (Adds.assign u name binding).append (walk_adds value _)
  | .lambda params body scope, u => .lend u ⟨params, body, scope⟩
  | .operator _ left right, u => (walk_adds left u).append (walk_adds right _)
  | .call _ receiver args, u => (walk_adds receiver u).append (walkAll_adds args _)
  | .block items, u => walkAll_adds items u
  | .conditional condition body, u => (walk_adds condition u).append (walk_adds body _)
  | .loop condition body, u => (walk_adds condition u).append (walk_adds body _)
  | .step _ operand, u => walk_adds operand u
  | .attr _ receiver, u => walk_adds receiver u
  | .attrAssign _ receiver value, u => (walk_adds receiver u).append (walk_adds value _)
  | .integer _, u | .string _, u | .atom _, u | .boolean _, u | .nil, u | .instanceVar _, u =>
    .nothing u
  | .importPath _, u | .definition .., u | .classDef .., u | .has .., u | .comment _, u =>
    .nothing u

/-- The walk over the trees of a list adds what each of them adds. -/
theorem walkAll_adds : ∀ (ns : List Node) (u : Usage),
    Adds (Node.occurrencesAll ns) (Node.lambdasAll ns) u (u.walkAll ns)
  | [], u => .nothing u
  | n :: ns, u => (walk_adds n u).append (walkAll_adds ns _)

end

end Usage

/-! ## Received names are free names -/

namespace Node

mutual

/-- The body of a lambda in a tree is smaller than the tree. -/
theorem sizeOf_lambdas : ∀ (n : Node) {l : Lambda}, l ∈ n.lambdas → sizeOf l.body < sizeOf n
  | .lambda params body scope, l, h => by
    simp only [lambdas, List.mem_singleton] at h
    subst h
    simp only [lambda.sizeOf_spec]
    omega
  | .operator _ left right, l, h | .attrAssign _ left right, l, h | .conditional left right, l, h
  | .loop left right, l, h => by
    simp only [operator.sizeOf_spec, attrAssign.sizeOf_spec, conditional.sizeOf_spec,
      loop.sizeOf_spec]
    rcases List.mem_append.mp h with h | h
    · have := sizeOf_lambdas left h
      omega
    · have := sizeOf_lambdas right h
      omega
  | .call _ receiver args, l, h => by
    simp only [call.sizeOf_spec]
    rcases List.mem_append.mp h with h | h
    · have := sizeOf_lambdas receiver h
      omega
    · have := sizeOf_lambdasAll args h
      omega
  | .assign _ n _, l, h | .step _ n, l, h | .attr _ n, l, h => by
    have := sizeOf_lambdas n h
    simp only [assign.sizeOf_spec, step.sizeOf_spec, attr.sizeOf_spec]
    omega
  | .invoke _ ns _, l, h | .block ns, l, h => by
    have := sizeOf_lambdasAll ns h
    simp only [invoke.sizeOf_spec, block.sizeOf_spec]
    omega

/-- The body of a lambda in a list is smaller than the list, so that nested units can be followed to
their end. -/
theorem sizeOf_lambdasAll : ∀ (ns : List Node) {l : Lambda},
    l ∈ lambdasAll ns → sizeOf l.body < sizeOf ns
  | n :: ns, l, h => by
    simp only [List.cons.sizeOf_spec]
    rcases List.mem_append.mp h with h | h
    · have := sizeOf_lambdas n h
      omega
    · have := sizeOf_lambdasAll ns h
      omega

end

end Node

section ofUnit

variable {params : List String} {body : Node} {name : String}

/-- The walk over a unit knows the names that the unit declares. -/
theorem declares_walk :
    (Usage.walk ∅ body).declares params name = true ↔ body.Declares params name := by
  have assigned := (Usage.walk_adds body ∅).assigned name
  simp only [Usage.declares, Bool.or_eq_true, List.contains_iff_mem, Node.Declares, Node.Assigns]
  rw [← NameTable.mem_def, assigned]
  refine or_congr_right (or_iff_right ?_)
  exact List.not_mem_nil

/-- A unit receives the names that it reads, or that a lambda in it receives, and does not
declare. -/
theorem received_ofUnit : name ∈ (Scope.ofUnit params body).capturedNames ↔
    (body.Reads name ∨ ∃ l ∈ body.lambdas, name ∈ l.ownScope.capturedNames) ∧
      ¬ body.Declares params name := by
  have used := (Usage.walk_adds body ∅).used name
  rw [Scope.ofUnit, Usage.capturedNames_close, Usage.free, NameTable.entries_filter,
    List.mem_filter, ← NameTable.mem_def, used, Bool.not_eq_true', ← declares_walk,
    Bool.not_eq_true]
  refine and_congr_left fun _ => or_iff_right ?_
  exact List.not_mem_nil

/-- What a lambda receives is free in it: the induction is on the size of the body, through the
lambdas inside. -/
theorem free_of_received (l : Lambda) (h : name ∈ l.ownScope.capturedNames) : l.Free name := by
  obtain ⟨reads | ⟨inner, hinner, received⟩, undeclared⟩ := received_ofUnit.mp h
  · exact .read reads undeclared
  · have smaller := l.body.sizeOf_lambdas hinner
    exact .inside hinner (free_of_received inner received) undeclared
termination_by sizeOf l.body

/-- A lambda receives the names that are free in it. -/
theorem received_iff_free {l : Lambda} : name ∈ l.ownScope.capturedNames ↔ l.Free name := by
  refine ⟨free_of_received l, fun h => ?_⟩
  induction h with
  | read reads undeclared => exact received_ofUnit.mpr ⟨.inl reads, undeclared⟩
  | inside hinner _ undeclared ih => exact received_ofUnit.mpr ⟨.inr ⟨_, hinner, ih⟩, undeclared⟩

/-- The names that the walk finds lent are those that some lambda of the unit receives. -/
theorem lent_walk : name ∈ (Usage.walk ∅ body).lent ↔ body.Lends name := by
  have lent := (Usage.walk_adds body ∅).lent name
  rw [lent]
  simp only [Node.Lends, ← received_iff_free]
  refine or_iff_right ?_
  exact List.not_mem_nil

/-! ## Where the names of a unit live -/

/-- The names that the walk finds declared are those that the unit declares. -/
theorem mem_declared_walk :
    name ∈ (Usage.walk ∅ body).declared params ↔ body.Declares params name :=
  Usage.mem_declared.trans declares_walk

/-- The names that the walk finds free are those that the unit receives. -/
theorem mem_free_walk : name ∈ (Usage.walk ∅ body).free params ↔
    name ∈ (Scope.ofUnit params body).capturedNames := by
  rw [Scope.ofUnit, Usage.capturedNames_close]
  rfl

/-- A unit has cells for the names it receives and for those of its own that it lends. -/
theorem slot?_ofUnit : (∃ slot, (Scope.ofUnit params body).slot? name = some slot) ↔
    name ∈ (Scope.ofUnit params body).capturedNames ∨
      body.Declares params name ∧ body.Lends name := by
  rw [← mem_free_walk, ← mem_declared_walk, ← lent_walk, ← Usage.mem_refs_close]
  exact ⟨fun ⟨_, h⟩ => NameTable.mem_of_index? h, NameTable.exists_index?⟩

/-- The cells that a unit receives are its first ones. -/
theorem slot_lt_captured_ofUnit {slot : Nat}
    (h : (Scope.ofUnit params body).slot? name = some slot) :
    slot < (Scope.ofUnit params body).captured ↔
      name ∈ (Scope.ofUnit params body).capturedNames := by
  rw [← mem_free_walk]
  exact Usage.slot_lt_captured_iff h

/-- A unit has registers for its parameters and for the names of its own that it does not lend. -/
theorem register?_ofUnit : (∃ register, (Scope.ofUnit params body).register? name = some register) ↔
    body.Declares params name ∧ (name ∈ params ∨ ¬ body.Lends name) := by
  rw [← Option.isSome_iff_exists, Scope.register?, lookup_isSome_iff, Scope.ofUnit,
    Usage.mem_locals_close, mem_declared_walk, ← lent_walk, Usage.inRegister]
  simp [NameTable.mem_def]

/-- A name that a unit receives is not its own. -/
theorem not_declares_of_received (h : name ∈ (Scope.ofUnit params body).capturedNames) :
    ¬ body.Declares params name :=
  (received_ofUnit.mp h).2

/-- A name that occurs in a unit is its own or received. -/
theorem declares_or_received {o : Occurrence} (h : o ∈ body.occurrences) :
    body.Declares params o.name ∨ o.name ∈ (Scope.ofUnit params body).capturedNames := by
  by_cases own : body.Declares params o.name
  · exact .inl own
  refine .inr (received_ofUnit.mpr ⟨.inl ⟨o, h, ?_, rfl⟩, own⟩)
  cases assigned : o.assigned with
  | false => rfl
  | true => exact absurd (.inr ⟨o, h, assigned, rfl⟩) own

/-- A name that a lambda in a unit receives is the unit's own or received by the unit. -/
theorem declares_or_received_of_free {l : Lambda} (h : l ∈ body.lambdas) (free : l.Free name) :
    body.Declares params name ∨ name ∈ (Scope.ofUnit params body).capturedNames := by
  by_cases own : body.Declares params name
  · exact .inl own
  · exact .inr (received_ofUnit.mpr ⟨.inr ⟨l, h, received_iff_free.mpr free⟩, own⟩)

end ofUnit

end ClosureLang
