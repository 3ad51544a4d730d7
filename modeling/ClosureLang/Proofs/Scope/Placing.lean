import ClosureLang.Proofs.Scope.FreeNames

/-!
# Every name has a place

Resolving binds every name of a unit to its cell, or else to its register. That there is a place for
every name is shown of a resolver that looks for one and fails if it finds none: resolving a lambda
never fails, and what comes of it is what resolving makes of the lambda. Only a program can be
refused, and it is if a name is free in it. The error is about the first such name.

The second resolver is there for what it can say. `bindNames` writes whatever the scope answers, so
a name without a place would go unnoticed. `placeNames` and `placeLambdas` have an error for it, and
that the two agree (`placeNames_eq`, `placeLambdas_eq`) is that the error does not occur. It does
not, because the names that occur in a unit are declared there or free there (`exists_binding`): a
declared name has a register unless it is lent without being a parameter, and then it has a cell, as
every free name has.

What the scope of a unit says is put together at the end. `Scope.Describes` lists it for a unit and
its resolved body: which cells there are and in which order, how many of them are received, and
where each name is bound.
-/

set_option autoImplicit false

namespace ClosureLang

/-! ## Looking for places -/

/-- Where a name lives, which is an error if that is nowhere. -/
def Scope.place (s : Scope) (name : String) : Except CompileError Binding :=
  match s.binding? name with
  | some binding => .ok binding
  | none => .error (.undefinedVariable name)

namespace Node

mutual

/-- Attaches to each name of a unit the place where it lives, if all of them have one. -/
def placeNames (s : Scope) : Node → Except CompileError Node
  | .var name _ => do
    return .var name (some (← s.place name))
  | .invoke name args _ => do
    let binding ← s.place name
    return .invoke name (← placeNamesAll s args) (some binding)
  | .assign name value _ => do
    let binding ← s.place name
    return .assign name (← value.placeNames s) (some binding)
  | .operator name left right => do
    return .operator name (← left.placeNames s) (← right.placeNames s)
  | .call method receiver args => do
    return .call method (← receiver.placeNames s) (← placeNamesAll s args)
  | .block items => do
    return .block (← placeNamesAll s items)
  | .conditional condition body => do
    return .conditional (← condition.placeNames s) (← body.placeNames s)
  | .loop condition body => do
    return .loop (← condition.placeNames s) (← body.placeNames s)
  | .step direction operand => do
    return .step direction (← operand.placeNames s)
  | .attr name receiver => do
    return .attr name (← receiver.placeNames s)
  | .attrAssign name receiver value => do
    return .attrAssign name (← receiver.placeNames s) (← value.placeNames s)
  | node => .ok node

/-- Attaches places to the names in the trees of a list. -/
def placeNamesAll (s : Scope) : List Node → Except CompileError (List Node)
  | [] => .ok []
  | node :: nodes => do
    return (← node.placeNames s) :: (← placeNamesAll s nodes)

end

mutual

/-- Resolves the lambdas in a unit, if all names in them have places. -/
def placeLambdas : Node → Except CompileError Node
  | .lambda params body _ => do
    let body ← body.placeLambdas
    let s := Scope.ofUnit params body
    return .lambda params (← body.placeNames s) (some s)
  | .invoke name args binding => do
    return .invoke name (← placeLambdasAll args) binding
  | .assign name value binding => do
    return .assign name (← value.placeLambdas) binding
  | .operator name left right => do
    return .operator name (← left.placeLambdas) (← right.placeLambdas)
  | .call method receiver args => do
    return .call method (← receiver.placeLambdas) (← placeLambdasAll args)
  | .block items => do
    return .block (← placeLambdasAll items)
  | .conditional condition body => do
    return .conditional (← condition.placeLambdas) (← body.placeLambdas)
  | .loop condition body => do
    return .loop (← condition.placeLambdas) (← body.placeLambdas)
  | .step direction operand => do
    return .step direction (← operand.placeLambdas)
  | .attr name receiver => do
    return .attr name (← receiver.placeLambdas)
  | .attrAssign name receiver value => do
    return .attrAssign name (← receiver.placeLambdas) (← value.placeLambdas)
  | node => .ok node

/-- Resolves the lambdas in the trees of a list. -/
def placeLambdasAll : List Node → Except CompileError (List Node)
  | [] => .ok []
  | node :: nodes => do
    return (← node.placeLambdas) :: (← placeLambdasAll nodes)

end

/-- Resolves a program, if no name is received from outside and all names have places. -/
def placeProgram (program : Node) : Except CompileError (Node × Scope) := do
  let program ← program.placeLambdas
  let s := Scope.ofUnit [] program
  match s.capturedNames with
  | [] => return (← program.placeNames s, s)
  | name :: _ => throw (.undefinedVariable name)

end Node

/-- Resolves a lambda by itself, if all names in it have places. -/
def Lambda.place (l : Lambda) : Except CompileError Lambda := do
  let body ← l.body.placeLambdas
  let s := Scope.ofUnit l.params body
  return ⟨l.params, ← body.placeNames s, some s⟩

/-- What has an outcome goes on with it. -/
theorem ok_bind {α β : Type} (a : α) (f : α → Except CompileError β) : (.ok a >>= f) = f a := rfl

/-! ## There always is one -/

section

variable {params : List String} {body : Node} {name : String}

/-- A name lives in its cell if it has one. -/
theorem Scope.binding?_of_slot {s : Scope} {slot : Nat} (h : s.slot? name = some slot) :
    s.binding? name = some (.cell slot) := by
  simp [binding?, h]

/-- A name without a cell lives in its register. -/
theorem Scope.binding?_of_register {s : Scope} {register : Nat} (none : s.slot? name = none)
    (h : s.register? name = some register) : s.binding? name = some (.register register) := by
  simp [binding?, none, h]

/-- A name that occurs in a unit and has no cell has a register. -/
theorem exists_register {o : Occurrence} (h : o ∈ body.occurrences)
    (none : (Scope.ofUnit params body).slot? o.name = none) :
    ∃ register, (Scope.ofUnit params body).register? o.name = some register := by
  have without : ¬ ∃ slot, (Scope.ofUnit params body).slot? o.name = some slot := by simp [none]
  rw [slot?_ofUnit, not_or, not_and] at without
  have own := (declares_or_received h).resolve_right without.1
  exact register?_ofUnit.mpr ⟨own, .inr (without.2 own)⟩

/-- Every name that occurs in a unit has a place in its scope. -/
theorem exists_binding {o : Occurrence} (h : o ∈ body.occurrences) :
    ∃ b, (Scope.ofUnit params body).binding? o.name = some b := by
  cases cell : (Scope.ofUnit params body).slot? o.name with
  | some slot => exact ⟨_, Scope.binding?_of_slot cell⟩
  | none =>
    obtain ⟨register, found⟩ := exists_register h cell
    exact ⟨_, Scope.binding?_of_register cell found⟩

end

namespace Node

mutual

/-- If all names have a place, looking for places is binding the names. -/
theorem placeNames_eq {s : Scope} : ∀ {n : Node},
    (∀ o ∈ n.occurrences, ∃ b, s.binding? o.name = some b) → n.placeNames s = .ok (n.bindNames s)
  | .var name binding, h => by
    -- only these three ask for a place; all others hand the question on to their parts
    obtain ⟨b, found⟩ := h ⟨name, binding, false⟩ List.mem_cons_self
    simp only [placeNames, Scope.place, bindNames, found]
    rfl
  | .invoke name args binding, h => by
    obtain ⟨⟨b, found⟩, inside⟩ := List.forall_mem_cons.mp h
    simp only [placeNames, Scope.place, bindNames, found, placeNamesAll_eq inside]
    rfl
  | .assign name value binding, h => by
    obtain ⟨⟨b, found⟩, inside⟩ := List.forall_mem_cons.mp h
    simp only [placeNames, Scope.place, bindNames, found, placeNames_eq inside]
    rfl
  | .operator _ left right, h => by
    obtain ⟨first, second⟩ := List.forall_mem_append.mp h
    rw [placeNames, placeNames_eq first, placeNames_eq second]
    rfl
  | .call _ receiver args, h => by
    obtain ⟨first, second⟩ := List.forall_mem_append.mp h
    rw [placeNames, placeNames_eq first, placeNamesAll_eq second]
    rfl
  | .block items, h => by
    have inside : ∀ o ∈ occurrencesAll items, ∃ b, s.binding? o.name = some b := h
    rw [placeNames, placeNamesAll_eq inside]
    rfl
  | .conditional condition body, h => by
    obtain ⟨first, second⟩ := List.forall_mem_append.mp h
    rw [placeNames, placeNames_eq first, placeNames_eq second]
    rfl
  | .loop condition body, h => by
    obtain ⟨first, second⟩ := List.forall_mem_append.mp h
    rw [placeNames, placeNames_eq first, placeNames_eq second]
    rfl
  | .step _ operand, h => by
    rw [placeNames, placeNames_eq (n := operand) h]
    rfl
  | .attr _ receiver, h => by
    rw [placeNames, placeNames_eq (n := receiver) h]
    rfl
  | .attrAssign _ receiver value, h => by
    obtain ⟨first, second⟩ := List.forall_mem_append.mp h
    rw [placeNames, placeNames_eq first, placeNames_eq second]
    rfl
  | .integer _, _ | .string _, _ | .atom _, _ | .boolean _, _ | .nil, _ | .instanceVar _, _ => rfl
  | .importPath _, _ | .definition .., _ | .classDef .., _ | .has .., _ | .comment _, _ => rfl
  | .lambda .., _ => rfl

/-- The names of trees have places if each occurrence has one, and the places are those that binding
writes. -/
theorem placeNamesAll_eq {s : Scope} : ∀ {ns : List Node},
    (∀ o ∈ occurrencesAll ns, ∃ b, s.binding? o.name = some b) →
      placeNamesAll s ns = .ok (bindNamesAll s ns)
  | [], _ => rfl
  | n :: ns, h => by
    obtain ⟨first, rest⟩ := List.forall_mem_append.mp h
    rw [placeNamesAll, placeNames_eq first, placeNamesAll_eq rest]
    rfl

end

/-- All names of a unit whose lambdas are resolved have places. -/
theorem placeNames_resolveLambdas (params : List String) (body : Node) :
    body.resolveLambdas.placeNames (Scope.ofUnit params body) =
      .ok (body.resolveLambdas.bindNames (Scope.ofUnit params body)) := by
  rw [← ofUnit_resolveLambdas]
  exact placeNames_eq fun _ h => exists_binding h

mutual

/-- Resolving the lambdas in a tree never fails. -/
theorem placeLambdas_eq : ∀ n : Node, n.placeLambdas = .ok n.resolveLambdas
  | .lambda params body _ => by
    rw [placeLambdas, placeLambdas_eq body]
    simp only [ok_bind, ofUnit_resolveLambdas, placeNames_resolveLambdas]
    rfl
  | .invoke name args _ => by
    rw [placeLambdas, placeLambdasAll_eq args]
    rfl
  | .assign name value _ => by
    rw [placeLambdas, placeLambdas_eq value]
    rfl
  | .operator _ left right => by
    rw [placeLambdas, placeLambdas_eq left, placeLambdas_eq right]
    rfl
  | .call _ receiver args => by
    rw [placeLambdas, placeLambdas_eq receiver, placeLambdasAll_eq args]
    rfl
  | .block items => by
    rw [placeLambdas, placeLambdasAll_eq items]
    rfl
  | .conditional condition body => by
    rw [placeLambdas, placeLambdas_eq condition, placeLambdas_eq body]
    rfl
  | .loop condition body => by
    rw [placeLambdas, placeLambdas_eq condition, placeLambdas_eq body]
    rfl
  | .step _ operand => by
    rw [placeLambdas, placeLambdas_eq operand]
    rfl
  | .attr _ receiver => by
    rw [placeLambdas, placeLambdas_eq receiver]
    rfl
  | .attrAssign _ receiver value => by
    rw [placeLambdas, placeLambdas_eq receiver, placeLambdas_eq value]
    rfl
  | .integer _ | .string _ | .atom _ | .boolean _ | .nil | .instanceVar _ | .var .. => rfl
  | .importPath _ | .definition .. | .classDef .. | .has .. | .comment _ => rfl

/-- Resolving the lambdas of trees never fails, and comes to the resolved trees. -/
theorem placeLambdasAll_eq : ∀ ns : List Node, placeLambdasAll ns = .ok (resolveLambdasAll ns)
  | [] => rfl
  | n :: ns => by
    rw [placeLambdasAll, placeLambdas_eq n, placeLambdasAll_eq ns]
    rfl

end

/-- A program is resolved, or refused because of a name that it would receive. -/
theorem placeProgram_eq (program : Node) : program.placeProgram =
    program.resolveProgram.2.map fun s => (program.resolveProgram.1, s) := by
  simp only [placeProgram, resolveProgram, placeLambdas_eq, ok_bind, ofUnit_resolveLambdas,
    placeNames_resolveLambdas]
  cases (Scope.ofUnit [] program).capturedNames <;> rfl

/-- A program is refused exactly if a name is free in it, and the error names the first one. -/
theorem resolveProgram_snd (program : Node) : program.resolveProgram.2 =
    match program.freeNames [] with
    | [] => .ok (Scope.ofUnit [] program)
    | name :: _ => .error (.undefinedVariable name) := by
  simp only [← capturedNames_ofUnit, resolveProgram]
  cases (Scope.ofUnit [] program).capturedNames <;> rfl

end Node

/-- Resolving a lambda never fails. -/
theorem Lambda.place_eq (l : Lambda) : l.place = .ok l.resolve := by
  rw [place, Node.placeLambdas_eq]
  simp only [ok_bind, ofUnit_resolveLambdas, Node.placeNames_resolveLambdas]
  rfl

/-! ## What the scope of a unit says -/

/-- The scope of a unit has cells for its free names and then for its boxed ones. In the resolved
body, every name is bound to its cell, or else to its register. -/
structure Scope.Describes (s : Scope) (params : List String) (body resolved : Node) : Prop where
  refs : s.refs.entries = body.freeNames params ++ body.boxedNames params
  captured : s.captured = (body.freeNames params).length
  names : resolved.occurrences.map (·.name) = body.occurrences.map (·.name)
  cell : ∀ o ∈ resolved.occurrences, ∀ slot, s.refs.entries[slot]? = some o.name →
    o.binding = some (.cell slot)
  register : ∀ o ∈ resolved.occurrences, o.name ∉ s.refs.entries →
    ∃ register, s.register? o.name = some register ∧ o.binding = some (.register register)

/-- What is bound in the scope of a unit is bound as the scope says. -/
theorem ofUnit_describes {params : List String} {body resolved : Node}
    (names : resolved.occurrences.map (·.name) = body.occurrences.map (·.name))
    (bound : resolved.Resolved (Scope.ofUnit params body)) :
    (Scope.ofUnit params body).Describes params body resolved where
  refs := entries_refs_ofUnit
  captured := captured_ofUnit
  names := names
  cell o inside slot there :=
    (bound.bound o inside).trans (Scope.binding?_of_slot (NameTable.index?_eq_some_iff.mpr there))
  register o inside without := by
    have mem : o.name ∈ body.occurrences.map (·.name) := names ▸ List.mem_map_of_mem inside
    obtain ⟨o', inside', same⟩ := List.mem_map.mp mem
    have none : (Scope.ofUnit params body).slot? o.name = none :=
      NameTable.index?_eq_none_iff.mpr without
    obtain ⟨register, found⟩ := exists_register inside' (same ▸ none)
    rw [same] at found
    exact ⟨register, found, (bound.bound o inside).trans (Scope.binding?_of_register none found)⟩

/-- The scope of a unit describes the unit and what resolving makes of its body. -/
theorem resolved_describes (params : List String) (body : Node) :
    (Scope.ofUnit params body).Describes params body
      (body.resolveLambdas.bindNames (Scope.ofUnit params body)) := by
  refine ofUnit_describes ?_ (Node.resolved_bindNames _ body)
  rw [Node.occurrences_bindNames, Node.occurrences_resolveLambdas, List.map_map]
  rfl

/-- A lambda that was resolved is described by its scope as it is now. -/
theorem Lambda.resolve_describes (l₀ : Lambda) : ∃ s, l₀.resolve.scope = some s ∧
    s.Describes l₀.resolve.params l₀.resolve.body l₀.resolve.body := by
  have bound : l₀.resolve.body.Resolved l₀.resolve.ownScope := by
    rw [ownScope_resolve]
    exact l₀.body.resolved_bindNames l₀.ownScope
  have described : l₀.resolve.ownScope.Describes l₀.resolve.params l₀.resolve.body
      l₀.resolve.body := ofUnit_describes rfl bound
  rw [ownScope_resolve] at described
  exact ⟨l₀.ownScope, rfl, described⟩

/-- **Free and boxed names.** Resolving a lambda by itself never fails, and its scope describes it,
as the scopes of the lambdas in it describe these. The same is true of all lambdas in a program that
is resolved, even if that fails. It fails exactly if a name is free in the program, with the first
such name, and else the scope of the program describes it. -/
theorem scopes_describe (program : Node) (l : Lambda) :
    (l.place = .ok l.resolve ∧
      (∃ s, l.resolve.scope = some s ∧ s.Describes l.params l.body l.resolve.body) ∧
      ∀ inner, l.resolve.body.Encloses inner →
        ∃ s, inner.scope = some s ∧ s.Describes inner.params inner.body inner.body) ∧
    (∀ inner, program.resolveProgram.1.Encloses inner →
      ∃ s, inner.scope = some s ∧ s.Describes inner.params inner.body inner.body) ∧
    program.placeProgram =
      program.resolveProgram.2.map (fun s => (program.resolveProgram.1, s)) ∧
    (∀ name more, program.freeNames [] = name :: more →
      program.resolveProgram.2 = .error (.undefinedVariable name)) ∧
    (program.freeNames [] = [] → ∃ s, program.resolveProgram.2 = .ok s ∧
      s.Describes [] program program.resolveProgram.1) := by
  refine ⟨⟨l.place_eq, ⟨l.ownScope, rfl, resolved_describes l.params l.body⟩, ?_⟩, ?_,
    program.placeProgram_eq, ?_, ?_⟩
  · intro inner inside
    obtain ⟨l₀, rfl⟩ := inside.resolved (l.body.resolved_bindNames l.ownScope).lambdas
    exact l₀.resolve_describes
  · intro inner inside
    obtain ⟨l₀, rfl⟩ := Node.resolved_of_encloses inside
    exact l₀.resolve_describes
  · intro name more free
    rw [program.resolveProgram_snd, free]
  · intro closed
    have accepted := program.resolveProgram_snd
    rw [closed] at accepted
    refine ⟨Scope.ofUnit [] program, accepted, ?_⟩
    rw [Node.resolveProgram_fst accepted]
    exact resolved_describes [] program

/-- `f = (n) => f(n, m)` is refused for `m`, which is free in it. After `m = 1` it is not: the
program has cells for `m` and `f`, and the lambda receives both, in the order in which it uses
them. -/
theorem selfCalling_described :
    let call : Node := .invoke "f" [.var "n" none, .var "m" none] none
    let loose : Node := .assign "f" (.lambda ["n"] call none) none
    let closed : Node := .block [.assign "m" (.integer 1) none, loose]
    let inner : Lambda := Lambda.resolve ⟨["n"], call, none⟩
    loose.resolveProgram.2 = .error (.undefinedVariable "m") ∧
      (∃ s, closed.resolveProgram.2 = .ok s ∧ s.refs.entries = ["m", "f"] ∧
        s.Describes [] closed closed.resolveProgram.1) ∧
      ∃ s, inner.scope = some s ∧ s.refs.entries = ["f", "m"] ∧
        s.Describes ["n"] inner.body inner.body := by
  intro call loose closed inner
  have inside : closed.resolveProgram.1.Encloses inner := .direct List.mem_cons_self
  obtain ⟨-, -, -, refused, -⟩ := scopes_describe loose ⟨[], loose, none⟩
  obtain ⟨-, nested, -, -, accepted⟩ := scopes_describe closed ⟨[], closed, none⟩
  obtain ⟨s, resolved, described⟩ := accepted (by decide)
  obtain ⟨own, attached, described'⟩ := nested inner inside
  have cells : s.refs.entries = ["m", "f"] := described.refs.trans (by decide)
  have cells' : own.refs.entries = ["f", "m"] := described'.refs.trans (by decide)
  exact ⟨refused "m" [] (by decide), ⟨s, resolved, cells, described⟩,
    ⟨own, attached, cells', described'⟩⟩

end ClosureLang
