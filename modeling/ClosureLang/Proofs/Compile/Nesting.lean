import ClosureLang.Proofs.Compile.Emission
import ClosureLang.Proofs.Scope.Resolution

/-!
# The units of a compiled program

A compiled program is a tree of units. A chain of units leads from one of them outward to the
program itself; every fact about a unit in its surroundings is a fact about such a chain. All units
of a program are alike: each has the scope of its parameters and body, its body is resolved in that
scope, and its code is the move of the boxed parameters, the layout of the body and a return.

A `CompiledUnit` has the source and the code of a unit side by side, and `Nesting` is the chain.
That the two belong together is `Consistent`: the body is resolved in the scope, and the code is
what emitting it leaves. It holds of the program and is handed on from a unit to the lambdas in it,
so it holds of every unit of a chain (`Nesting.consistent`). What is in the code of a consistent
unit is then listed once, as its `Shape`, and the facts about code start from there.

In the other direction, whatever unit is found in the code of a program has a chain
(`Nesting.of_contains`). So what is shown of all chains is true of all code.
-/

set_option autoImplicit false

namespace ClosureLang

/-- One unit of a compiled program. -/
structure CompiledUnit where
  params : List String
  scope : Scope
  body : Node
  code : Code
  /-- Its number among the units of the unit around it. -/
  index : Nat

/-- A unit of the compiled program together with the units around it, from the inside out. -/
inductive Nesting (program : Node) : List CompiledUnit → Prop where
  | outermost {scope : Scope} {body : Node} {code : Code} :
      program.resolveProgram = (body, .ok scope) → program.compile = (body, .ok code) →
        Nesting program [⟨[], scope, body, code, 0⟩]
  | inside {u : CompiledUnit} {around : List CompiledUnit} {l : Lambda} {scope : Scope}
      {code : Code} {index : Nat} :
      Nesting program (u :: around) → u.body.lambdas[index]? = some l → l.scope = some scope →
        u.code.units[index]? = some code →
          Nesting program (⟨l.params, scope, l.body, code, index⟩ :: u :: around)

namespace CompiledUnit

/-- The unit itself declares the name. -/
def Declares (u : CompiledUnit) (name : String) : Prop := u.body.Declares u.params name

/-- The unit was resolved and then emitted. -/
structure Consistent (u : CompiledUnit) : Prop where
  scope : u.scope = Scope.ofUnit u.params u.body
  resolved : u.body.Resolved u.scope
  emitted : ∃ e, Emit.unitOf (Emitter.startLambda u.scope) (Emit.node u.body) = .ok e ∧
    e.code = u.code

/-- What is in the code of a unit, given the literals of the unit. -/
structure Shape (u : CompiledUnit) (table : NameTable) : Prop where
  literals : u.code.literals = table.entries
  texts : ∀ text ∈ (u.body.layout u.scope).texts, text ∈ table
  numRefs : u.code.numRefs = u.scope.numRefs
  numRegisters : u.code.numRegisters = u.scope.numLocals + (u.body.layout u.scope).height + 1
  instructions : u.code.instructions.toList =
    Lambda.prologue u.scope ++
      (u.body.layout u.scope).code table u.scope.numLocals (Lambda.prologue u.scope).length 0 ++
        [.ret u.scope.numLocals]
  units : u.code.units = u.body.lambdas.map Lambda.unit
  makeable : ∀ l ∈ u.body.lambdas, l.Makeable u.scope

/-- The code of a unit that was emitted is its prologue, the layout of its body and a return, with
the literals that the layout asks for. -/
theorem Consistent.shape {u : CompiledUnit} (h : u.Consistent) : ∃ table, u.Shape table := by
  obtain ⟨e, emits, code⟩ := h.emitted
  obtain ⟨e₁, ran, rfl⟩ := Emit.unitOf_run emits
  have made := Emit.node_emitted u.body ran rfl
  have start : (Emitter.startLambda u.scope).instructions.toList = Lambda.prologue u.scope := rfl
  refine ⟨e₁.literals, ?_, ?_, ?_, ?_, ?_, ?_, ?_⟩
  · rw [← code]
    rfl
  · intro text htext
    rw [made.literals]
    exact NameTable.mem_insertAll.mpr (.inr htext)
  · rw [← code]
    exact congrArg Scope.numRefs made.scope
  · have highest := made.highest (Nat.le_refl _)
    rw [← code]
    show e₁.highest + 1 = _
    rw [highest]
    show max u.scope.numLocals (u.scope.numLocals + (u.body.layout u.scope).height) + 1 = _
    omega
  · have body := made.instructions e₁.literals (.refl _)
    rw [start] at body
    rw [← code]
    show (e₁.instructions.push (.ret u.scope.numLocals)).toList = _
    rw [Array.toList_push, body, ← Array.length_toList, start]
    rfl
  · rw [← code, ← Node.lambdas_layout u.scope]
    exact made.units
  · rw [← Node.lambdas_layout u.scope]
    exact made.makeable

/-- What was emitted has instructions. -/
theorem Consistent.supported {u : CompiledUnit} (h : u.Consistent) : u.body.Supported := by
  obtain ⟨e, emits, -⟩ := h.emitted
  obtain ⟨_, ran, -⟩ := Emit.unitOf_run emits
  exact Emit.node_supported u.body ran

end CompiledUnit

/-! ## Every unit of a program is consistent -/

/-- A program has no parameters, so none has to move. -/
theorem boxedParams_program (program : Node) : (Scope.ofUnit [] program).boxedParams = [] := by
  rw [Scope.ofUnit, Usage.boxedParams_close List.nodup_nil, Usage.locals_close List.nodup_nil,
    List.map_eq_nil_iff, List.filter_eq_nil_iff]
  intro row hrow
  have kept := (List.mem_filter.mp (List.fst_mem_of_mem_zipIdx hrow)).2
  simpa [Usage.inRegister] using kept

/-- A program that was resolved and compiled is consistent as a unit without parameters. -/
theorem consistent_program {program body : Node} {scope : Scope} {code : Code}
    (resolved : program.resolveProgram = (body, .ok scope))
    (compiled : program.compile = (body, .ok code)) :
    CompiledUnit.Consistent ⟨[], scope, body, code, 0⟩ := by
  rw [Node.compile, resolved] at compiled
  obtain ⟨rfl, -, rfl⟩ := Node.resolveProgram_ok resolved
  refine ⟨(ofUnit_resolved ..).symm, program.resolved_bindNames _, ?_⟩
  have start : Emitter.startLambda (Scope.ofUnit [] program) =
      Emitter.start (Scope.ofUnit [] program) := by
    rw [Emitter.startLambda, boxedParams_program]
    rfl
  rw [start]
  cases emits : Emit.unitOf (Emitter.start (Scope.ofUnit [] program))
      (Emit.node (program.resolveLambdas.bindNames (Scope.ofUnit [] program))) with
  | error cause => simp [emits, Except.map] at compiled
  | ok e =>
    simp only [emits, Except.map, Prod.mk.injEq, Except.ok.injEq, true_and] at compiled
    exact ⟨e, rfl, compiled⟩

/-- The unit of a lambda in a consistent unit is consistent. -/
theorem CompiledUnit.Consistent.inner {u : CompiledUnit} (h : u.Consistent) {l : Lambda}
    {scope : Scope} {code : Code} {index : Nat} (lambda : u.body.lambdas[index]? = some l)
    (known : l.scope = some scope) (compiled : u.code.units[index]? = some code) :
    Consistent ⟨l.params, scope, l.body, code, index⟩ := by
  have mem := List.mem_of_getElem? lambda
  obtain ⟨own, resolved⟩ := h.resolved.inner mem
  obtain rfl := Option.some.inj (own.symm.trans known)
  obtain ⟨table, shape⟩ := h.shape
  obtain ⟨e, emits, -⟩ := (shape.makeable l mem).compiles
  refine ⟨rfl, resolved, e, ?_, ?_⟩
  · rw [Lambda.emit, own] at emits
    exact emits
  · rw [shape.units, List.getElem?_map, lambda, Option.map_some, Lambda.unit, emits] at compiled
    exact Option.some.inj compiled

/-- **Every unit of a compiled program is consistent.** -/
theorem Nesting.consistent {program : Node} {units : List CompiledUnit}
    (h : Nesting program units) : ∀ u ∈ units, u.Consistent := by
  induction h with
  | outermost resolved compiled =>
    intro u hu
    cases List.mem_singleton.mp hu
    exact consistent_program resolved compiled
  | inside _ lambda known compiled ih =>
    intro u hu
    rcases List.mem_cons.mp hu with rfl | hu
    · exact (ih _ (by simp)).inner lambda known compiled
    · exact ih u hu

/-- Every lambda in a unit of a program is a unit of the program. -/
theorem Nesting.lambda_inside {program : Node} {u : CompiledUnit} {around : List CompiledUnit}
    (h : Nesting program (u :: around)) {l : Lambda} {index : Nat}
    (lambda : u.body.lambdas[index]? = some l) :
    Nesting program (⟨l.params, l.ownScope, l.body, l.unit, index⟩ :: u :: around) := by
  have consistent := h.consistent u (by simp)
  obtain ⟨table, shape⟩ := consistent.shape
  have own := (consistent.resolved.inner (List.mem_of_getElem? lambda)).1
  exact .inside h lambda own (by rw [shape.units, List.getElem?_map, lambda]; rfl)

/-! ## Every inner unit is a unit of the program -/

/-- The unit is the given one or stands in it, at any depth. -/
inductive Code.Contains (code : Code) : Code → Prop where
  | self : code.Contains code
  | inside {c inner : Code} : code.Contains c → inner ∈ c.units → code.Contains inner

/-- Compiling a program leaves the tree that resolving it leaves. -/
theorem Node.compile_fst (program : Node) : program.compile.1 = program.resolveProgram.1 := by
  unfold compile
  split
  · next found => rw [found]
  · next found => rw [found]

/-- The scope that resolving a program comes to and the code that compiling it comes to are those of
the outermost unit. -/
theorem Nesting.of_outcomes {program : Node} {scope : Scope} {code : Code}
    (resolved : program.resolveProgram.2 = .ok scope) (compiled : program.compile.2 = .ok code) :
    Nesting program [⟨[], scope, program.resolveProgram.1, code, 0⟩] :=
  .outermost (Prod.ext rfl resolved) (Prod.ext program.compile_fst compiled)

/-- A program that has code is resolved, and its code is that of the outermost unit. -/
theorem Nesting.of_compile {program : Node} {code : Code}
    (compiled : program.compile.2 = .ok code) : ∃ u, Nesting program [u] ∧ u.code = code := by
  cases resolved : program.resolveProgram.2 with
  | error cause =>
    have refused : program.resolveProgram = (program.resolveProgram.1, .error cause) :=
      Prod.ext rfl resolved
    rw [Node.compile, refused] at compiled
    cases compiled
  | ok scope => exact ⟨_, .of_outcomes resolved compiled, rfl⟩

/-- Whatever unit is found in the code of a program, a chain of units leads to it. -/
theorem Nesting.of_contains {program : Node} {code c : Code}
    (compiled : program.compile.2 = .ok code) (h : code.Contains c) :
    ∃ u around, Nesting program (u :: around) ∧ u.code = c := by
  induction h with
  | self =>
    obtain ⟨u, nesting, same⟩ := Nesting.of_compile compiled
    exact ⟨u, [], nesting, same⟩
  | inside _ mem ih =>
    obtain ⟨u, around, nesting, rfl⟩ := ih
    obtain ⟨table, shape⟩ := (nesting.consistent u List.mem_cons_self).shape
    rw [shape.units, List.mem_map] at mem
    obtain ⟨l, hl, rfl⟩ := mem
    obtain ⟨index, lambda⟩ := List.mem_iff_getElem?.mp hl
    exact ⟨_, _, nesting.lambda_inside lambda, rfl⟩

end ClosureLang
