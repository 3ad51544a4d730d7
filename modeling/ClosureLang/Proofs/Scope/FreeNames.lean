import ClosureLang.Proofs.Scope.Registers

/-!
# The free names of a unit, in order

The names that a unit uses, read from left to right: a lambda in it uses its own free names, and
these are the names that it uses and does not declare. With the names that the unit declares in
order, its parameters before those that it assigns, that determines the table of its cells. It has
the free names first, and then those declared names that are free in a lambda directly in the unit.

The walk of the resolver meets exactly these names, in this order, so they can be read off the scope
that it makes.
-/

set_option autoImplicit false

namespace ClosureLang

/-! ## The names of a unit -/

namespace Node

/-- The names that a unit assigns, from left to right: a target comes before its value. -/
def assignedNames (body : Node) : List String :=
  (body.occurrences.filter (·.assigned)).map (·.name)

/-- The names that a unit declares: its parameters, then the names that it assigns. -/
def declaredNames (params : List String) (body : Node) : List String :=
  (params ++ body.assignedNames).eraseDups

/-- The names among `used` that a unit does not declare. -/
def undeclaredNames (params : List String) (body : Node) (used : List String) : List String :=
  used.eraseDups.filter fun name => name ∉ declaredNames params body

mutual

/-- The names that a tree uses, from left to right. A lambda uses its own free names. Definitions
and classes use none. -/
def usedNames : Node → List String
  | .var name _ => [name]
  | .invoke name args _ => name :: usedNamesAll args
  | .assign _ value _ => value.usedNames
  | .lambda params body _ => undeclaredNames params body body.usedNames
  | .operator _ left right => left.usedNames ++ right.usedNames
  | .call _ receiver args => receiver.usedNames ++ usedNamesAll args
  | .block items => usedNamesAll items
  | .conditional condition body => condition.usedNames ++ body.usedNames
  | .loop condition body => condition.usedNames ++ body.usedNames
  | .step _ operand => operand.usedNames
  | .attr _ receiver => receiver.usedNames
  | .attrAssign _ receiver value => receiver.usedNames ++ value.usedNames
  | _ => []

/-- The names that the trees of a list use. -/
def usedNamesAll : List Node → List String
  | [] => []
  | node :: nodes => node.usedNames ++ usedNamesAll nodes

end

/-- The names that a unit uses and does not declare. -/
def freeNames (params : List String) (body : Node) : List String :=
  undeclaredNames params body body.usedNames

/-- The names that a unit declares and that are free in a lambda directly in it. -/
def boxedNames (params : List String) (body : Node) : List String :=
  (declaredNames params body).filter fun name =>
    ∃ l ∈ body.lambdas, name ∈ freeNames l.params l.body

end Node

/-! ## The walk meets them in order -/

namespace Usage

/-- One tree, or a list of trees, adds these names to the usage of a unit. -/
structure Meets (occurrences : List Occurrence) (names : List String) (u u' : Usage) : Prop where
  assigned : u'.assigned =
    u.assigned.insertAll ((occurrences.filter (·.assigned)).map (·.name))
  used : u'.used = u.used.insertAll names

namespace Meets

variable {os os' : List Occurrence} {names names' : List String} {u u₁ u' : Usage}

/-- A tree without names meets none. -/
theorem nothing (u : Usage) : Meets [] [] u u := ⟨rfl, rfl⟩

/-- Two trees one after the other meet what each of them meets, in this order. -/
theorem append (h : Meets os names u u₁) (h' : Meets os' names' u₁ u') :
    Meets (os ++ os') (names ++ names') u u' where
  assigned := by
    rw [List.filter_append, List.map_append, NameTable.insertAll_append, ← h.assigned, h'.assigned]
  used := by rw [NameTable.insertAll_append, ← h.used, h'.used]

/-- A use meets its name. -/
theorem use (u : Usage) (name : String) (binding : Option Binding) :
    Meets [⟨name, binding, false⟩] [name] u (u.use name) := ⟨rfl, rfl⟩

/-- An assignment meets no name that is used. -/
theorem assign (u : Usage) (name : String) (binding : Option Binding) :
    Meets [⟨name, binding, true⟩] [] u (u.assign name) := ⟨rfl, rfl⟩

/-- A lambda meets the names that it receives. -/
theorem lend (u : Usage) (names : List String) : Meets [] names u (u.lend names) := ⟨rfl, rfl⟩

end Meets

variable {params : List String} {body : Node}

/-- What the walk over a unit met is what it declares. -/
theorem Meets.declares {u : Usage} {names : List String} (h : Meets body.occurrences names ∅ u)
    {name : String} : u.declares params name = true ↔ name ∈ body.declaredNames params := by
  have assigned : name ∈ u.assigned ↔ name ∈ body.assignedNames := by
    rw [h.assigned, NameTable.mem_insertAll]
    exact or_iff_right List.not_mem_nil
  simp only [Usage.declares, Bool.or_eq_true, List.contains_iff_mem, ← NameTable.mem_def, assigned,
    Node.declaredNames, List.mem_eraseDups, List.mem_append]

/-- The free names of a unit are the names that the walk meets and the unit does not declare. -/
theorem Meets.free {u : Usage} {names : List String} (h : Meets body.occurrences names ∅ u) :
    (u.free params).entries = body.undeclaredNames params names := by
  have used : u.used.entries = names.eraseDups := by
    rw [h.used]
    exact NameTable.entries_insertAll_empty names
  rw [Usage.free, NameTable.entries_filter, used, Node.undeclaredNames]
  refine List.filter_congr fun name _ => ?_
  rw [Bool.eq_iff_iff, Bool.not_eq_true', ← Bool.not_eq_true, h.declares, decide_eq_true_iff]

mutual

/-- The walk over a tree meets the names that it uses, in order. -/
theorem walk_meets : ∀ (n : Node) (u : Usage), Meets n.occurrences n.usedNames u (u.walk n)
  | .var name binding, u => .use u name binding
  | .invoke name args binding, u => (Meets.use u name binding).append (walkAll_meets args _)
  | .assign name value binding, u => (Meets.assign u name binding).append (walk_meets value _)
  | .lambda params body _, u => by
    have received : ((walk ∅ body).close params).capturedNames = body.freeNames params := by
      rw [capturedNames_close, (walk_meets body ∅).free, Node.freeNames]
    show Meets [] (body.freeNames params) u _
    rw [← received]
    exact .lend u _
  | .operator _ left right, u => (walk_meets left u).append (walk_meets right _)
  | .call _ receiver args, u => (walk_meets receiver u).append (walkAll_meets args _)
  | .block items, u => walkAll_meets items u
  | .conditional condition body, u => (walk_meets condition u).append (walk_meets body _)
  | .loop condition body, u => (walk_meets condition u).append (walk_meets body _)
  | .step _ operand, u => walk_meets operand u
  | .attr _ receiver, u => walk_meets receiver u
  | .attrAssign _ receiver value, u => (walk_meets receiver u).append (walk_meets value _)
  | .integer _, u | .string _, u | .atom _, u | .boolean _, u | .nil, u | .instanceVar _, u =>
    .nothing u
  | .importPath _, u | .definition .., u | .classDef .., u | .has .., u | .comment _, u =>
    .nothing u

/-- The walk over the trees of a list meets what each of them uses. -/
theorem walkAll_meets : ∀ (ns : List Node) (u : Usage),
    Meets (Node.occurrencesAll ns) (Node.usedNamesAll ns) u (u.walkAll ns)
  | [], u => .nothing u
  | n :: ns, u => (walk_meets n u).append (walkAll_meets ns _)

end

end Usage

/-! ## The table of cells -/

section ofUnit

variable {params : List String} {body : Node} {name : String}

/-- A unit receives its free names, in order. -/
theorem capturedNames_ofUnit :
    (Scope.ofUnit params body).capturedNames = body.freeNames params := by
  rw [Scope.ofUnit, Usage.capturedNames_close, (Usage.walk_meets body ∅).free, Node.freeNames]

/-- A unit receives as many names as are free in it. -/
theorem captured_ofUnit : (Scope.ofUnit params body).captured = (body.freeNames params).length := by
  rw [Scope.ofUnit, Usage.captured_close, NameTable.size, (Usage.walk_meets body ∅).free,
    Node.freeNames]

/-- There are as many received names as the scope says. -/
theorem length_capturedNames_ofUnit : (Scope.ofUnit params body).capturedNames.length =
    (Scope.ofUnit params body).captured := by
  rw [capturedNames_ofUnit, captured_ofUnit]

/-- The free names of a lambda, listed in order, are those that are free in it. -/
theorem mem_freeNames_iff {l : Lambda} : name ∈ l.body.freeNames l.params ↔ l.Free name := by
  rw [← received_iff_free, Lambda.ownScope, capturedNames_ofUnit]

/-- The names that a unit declares, once each. -/
theorem eraseDups_declared_walk :
    ((Usage.walk ∅ body).declared params).eraseDups = body.declaredNames params := by
  have assigned : (Usage.walk ∅ body).assigned.entries = body.assignedNames.eraseDups := by
    rw [(Usage.walk_meets body ∅).assigned]
    exact NameTable.entries_insertAll_empty _
  have once : body.assignedNames.eraseDups.eraseDups = body.assignedNames.eraseDups :=
    eraseDups_of_nodup (assigned ▸ (Usage.walk ∅ body).assigned.nodup)
  rw [Usage.declared, assigned, Node.declaredNames, List.eraseDups_append, List.eraseDups_append,
    List.removeAll, List.removeAll, eraseDups_filter, eraseDups_filter, eraseDups_filter, once,
    List.filter_filter]
  simp only [List.contains_eq_any_beq, Bool.and_self]

/-- No free name of a unit is declared in it. -/
theorem not_declared_of_mem_freeNames (free : name ∈ body.freeNames params) :
    name ∉ body.declaredNames params := by
  simpa using (List.mem_filter.mp free).2

/-- The cells of a unit are those of its free names, and then those of its boxed names. -/
theorem entries_refs_ofUnit : (Scope.ofUnit params body).refs.entries =
    body.freeNames params ++ body.boxedNames params := by
  have free : ((Usage.walk ∅ body).free params).entries = body.freeNames params :=
    (Usage.walk_meets body ∅).free
  rw [Scope.ofUnit, Usage.refs_close, NameTable.entries_insertAll, free, eraseDups_filter,
    eraseDups_filter, eraseDups_declared_walk, Node.boxedNames, List.filter_filter]
  congr 1
  refine List.filter_congr fun name declared => ?_
  have own : name ∉ body.freeNames params := fun free => not_declared_of_mem_freeNames free declared
  simp [own, ← NameTable.mem_def, lent_walk, Node.Lends, mem_freeNames_iff]

/-- `f = (n) => { f(n, m) }; m` has a cell for `m`, which is received, and one for `f`. -/
example :
    let call : Node := .block [.invoke "f" [.var "n" none, .var "m" none] none]
    let body : Node := .block [.assign "f" (.lambda ["n"] call none) none, .var "m" none]
    (body.freeNames [], body.boxedNames [], (Scope.ofUnit [] body).refs.entries) =
      (["m"], ["f"], ["m", "f"]) := by
  decide

end ofUnit

end ClosureLang
