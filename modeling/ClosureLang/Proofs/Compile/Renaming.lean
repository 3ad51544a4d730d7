import ClosureLang.Proofs.Compile.Acceptance
import ClosureLang.Proofs.Scope.Renaming

/-!
# Code does not show the names of variables

Code says of a variable where it lives, never what it is called. So the code of a program stays the
same, literals and inner units included, when the variables are renamed, and so does the error of a
program without code, except for the name in it if a name is undeclared.

The two emissions run side by side. The emitters differ in the names of their scopes only, and a
name is only ever used to ask its scope for a place, which is where both give the same answer. Only
the errors for want of a place tell names; they are left out of the comparison, because a resolved
program does not have them.

A renaming is an injection on names. Two variables that are different have to stay different, or one
would take the place of the other; that it is an injection is also all that is needed, since the
order in which names come up decides about places, and not the names themselves. Names of methods,
attributes and atoms are not renamed: they are not variables, and the first and the last of them are
literals of the code.
-/

set_option autoImplicit false

namespace ClosureLang

variable (r : String ↪ String)

namespace CompileError

/-- The error with the variable renamed that it calls undefined. -/
def rename : CompileError → CompileError
  | undefinedVariable name => undefinedVariable (r name)
  | cause => cause

/-- Some name has no place. -/
inductive WantsPlace : CompileError → Prop where
  | unresolved (name : String) : WantsPlace (.unresolved name)
  | missingCapture (name : String) : WantsPlace (.missingCapture name)

end CompileError

/-- The emitter with the names in its scope renamed. -/
def Emitter.rename (e : Emitter) : Emitter := { e with scope := e.scope.rename r }

/-- Code has no names of variables in it, so renaming them in the emitter changes no code. -/
@[simp] theorem Emitter.code_rename (e : Emitter) : (e.rename r).code = e.code := by
  simp [Emitter.code, Emitter.rename]

/-- A unit that is begun in the renamed scope is the renamed beginning of the unit. -/
theorem Emitter.start_rename (s : Scope) : start (s.rename r) = (start s).rename r := by
  simp [start, rename]

/-- The same for the unit of a lambda, whose prologue says places only. -/
theorem Emitter.startLambda_rename (s : Scope) :
    startLambda (s.rename r) = (startLambda s).rename r := by
  rw [startLambda, start_rename]
  rfl

/-! ## Computations that do the same -/

namespace Emit

variable {α β : Type} {x y : Emit α} {f g : α → Emit β}

/-- From emitters that differ by the renaming, the computations come to ends that differ by the
renaming, unless the first one ends because some name has no place. -/
def Alike (x y : Emit α) : Prop :=
  ∀ e : Emitter, match x.run e with
    | .ok a e' => y.run (e.rename r) = .ok a (e'.rename r)
    | .error cause _ =>
      ¬ cause.WantsPlace → ∃ e', y.run (e.rename r) = .error (cause.rename r) e'

namespace Alike

variable {r}

/-- Computations that do nothing do the same. -/
theorem pure (a : α) : Alike r (Pure.pure a) (Pure.pure a) := fun _ => rfl

/-- An error is renamed along with the program. -/
theorem throw (cause : CompileError) :
    Alike r (MonadExcept.throw cause : Emit α) (MonadExcept.throw (cause.rename r)) :=
  fun e _ => ⟨e.rename r, rfl⟩

/-- Where the first computation fails for want of a place, nothing is asked of the second. -/
theorem throw_of_wantsPlace {cause : CompileError} (h : cause.WantsPlace) (y : Emit α) :
    Alike r (MonadExcept.throw cause) y := fun _ out => absurd h out

/-- A change of the emitter that commutes with the renaming is the same on both sides. -/
theorem modify {change : Emitter → Emitter}
    (same : ∀ e, change (e.rename r) = (change e).rename r) :
    Alike r (modifyThe Emitter change : Emit Unit) (modifyThe Emitter change) :=
  fun e => congrArg (EStateM.Result.ok ()) (same e)

/-- Sequences do the same if their parts do. The parts after the first get the same result on both
sides, since results tell no names. -/
theorem bind (h : Alike r x y) (h' : ∀ a, Alike r (f a) (g a)) : Alike r (x >>= f) (y >>= g) := by
  intro e
  have first := h e
  cases ran : x.run e with
  | ok a e₁ =>
    rw [ran] at first
    rw [Answers.bind_of_ok ran, Answers.bind_of_ok first]
    exact h' a e₁
  | error cause e₁ =>
    rw [ran] at first
    rw [Answers.bind_of_error ran]
    intro placed
    obtain ⟨e', failed⟩ := first placed
    exact ⟨e', Answers.bind_of_error failed⟩

theorem top : Alike r Emit.top Emit.top := fun _ => rfl

theorem here : Alike r Emit.here Emit.here := fun _ => rfl

theorem instruction (i : Instruction) : Alike r (Emit.instruction i) (Emit.instruction i) :=
  modify fun _ => rfl

theorem patch (pos : Nat) (i : Instruction) : Alike r (Emit.patch pos i) (Emit.patch pos i) :=
  modify fun _ => rfl

theorem raise : Alike r Emit.raise Emit.raise := modify fun _ => rfl

theorem lower : Alike r Emit.lower Emit.lower := modify fun _ => rfl

theorem returnTo (register : Nat) : Alike r (Emit.returnTo register) (Emit.returnTo register) :=
  modify fun _ => rfl

theorem literal (text : String) : Alike r (Emit.literal text) (Emit.literal text) := fun _ => rfl

theorem store (value : Immediate) : Alike r (Emit.store value) (Emit.store value) :=
  top.bind fun _ => instruction _

/-- A name that has a place is read from there, whatever the name. -/
theorem read (name : String) (binding : Option Binding) :
    Alike r (Emit.read name binding) (Emit.read (r name) binding) := by
  rcases binding with _ | index | slot
  · exact throw_of_wantsPlace (.unresolved name) _
  · exact top.bind fun _ => instruction _
  · exact top.bind fun _ => instruction _

/-- Assigning asks the annotation only, which is the same on both sides; the name is told by the
error that is left out. -/
theorem assign (name : String) (binding : Option Binding) :
    Alike r (Emit.assign name binding) (Emit.assign (r name) binding) := by
  rcases binding with _ | index | slot
  · exact throw_of_wantsPlace (.unresolved name) _
  · exact top.bind fun _ => instruction _
  · exact top.bind fun _ => instruction _

/-- The step of a variable does the same under both names. -/
theorem step_var (direction : Step) (name : String) (binding : Option Binding) :
    Alike r (Emit.step direction (.var name binding))
      (Emit.step direction (.var (r name) binding)) := by
  rcases binding with _ | index | slot
  · exact throw_of_wantsPlace (.unresolved name) _
  · exact (literal _).bind fun _ => instruction _
  · exact throw _

/-- Asked for the renamed names, the renamed scope gives the cells that the scope gives for the
names. -/
theorem slots (names : List String) : Alike r (Emit.slots names) (Emit.slots (names.map r)) := by
  induction names with
  | nil => exact pure []
  | cons name names ih =>
    intro e
    have place : (e.rename r).scope.slot? (r name) = e.scope.slot? name :=
      e.scope.slot?_rename r name
    rw [List.map_cons, Emit.slots, Emit.slots,
      Answers.bind_of_ok (show (get : Emit Emitter).run e = .ok e e from rfl),
      Answers.bind_of_ok
        (show (get : Emit Emitter).run (e.rename r) = .ok (e.rename r) (e.rename r) from rfl),
      place]
    cases e.scope.slot? name with
    | none => exact fun placed => absurd (.missingCapture name) placed
    | some slot => exact (ih.bind fun handed => pure (slot :: handed)) e

/-- Closures are made alike over units that differ by the renaming. -/
theorem closure (arity : Nat) (inner : Emitter) :
    Alike r (Emit.closure arity inner) (Emit.closure arity (inner.rename r)) := by
  have operands (handed : List Nat) :
      Alike r (handed.forM fun slot => Emit.instruction (.readCell 0 slot))
        (handed.forM fun slot => Emit.instruction (.readCell 0 slot)) := by
    induction handed with
    | nil => exact pure ()
    | cons slot handed ih => exact (instruction _).bind fun _ => ih
  have received : (inner.rename r).scope.capturedNames = inner.scope.capturedNames.map r :=
    inner.scope.capturedNames_rename r
  rw [Emit.closure, Emit.closure, received, Emitter.code_rename]
  refine (slots _).bind fun handed e => ?_
  have made : Alike r
      (do
        Emit.instruction (.createLambda e.top arity handed.length e.units.size)
        handed.forM fun slot => Emit.instruction (.readCell 0 slot))
      (do
        Emit.instruction (.createLambda e.top arity handed.length e.units.size)
        handed.forM fun slot => Emit.instruction (.readCell 0 slot)) :=
    (instruction _).bind fun _ => operands handed
  exact made { e with units := e.units.push inner.code }

/-- Whole units are emitted alike. -/
theorem unitOf {body body' : Emit Unit} (h : Alike r body body') (start : Emitter) :
    match Emit.unitOf start body with
    | .ok inner => Emit.unitOf (start.rename r) body' = .ok (inner.rename r)
    | .error cause =>
      ¬ cause.WantsPlace → Emit.unitOf (start.rename r) body' = .error (cause.rename r) := by
  have frame : (start.rename r).scope.numLocals = start.scope.numLocals :=
    start.scope.numLocals_rename r
  have whole := (h.bind fun _ => instruction (.ret start.scope.numLocals)) start
  rw [Emit.unitOf, Emit.unitOf, frame]
  revert whole
  cases (do body; Emit.instruction (.ret start.scope.numLocals) : Emit Unit).run start with
  | ok _ inner =>
    intro same
    rw [same]
  | error cause _ =>
    intro failing placed
    obtain ⟨_, failed⟩ := failing placed
    rw [failed]

end Alike

/-! ## Trees -/

/-- A step is emitted or refused alike: the kind of its operand decides, and of a variable the
place. -/
theorem step_alike (s : Scope) (direction : Step) (operand : Node) :
    Alike r (step direction (operand.resolveLambdas.bindNames s))
      (step direction ((operand.rename r).resolveLambdas.bindNames (s.rename r))) := by
  cases operand with
  | var name binding =>
    show Alike r (step direction (.var name (s.binding? name)))
      (step direction (.var (r name) ((s.rename r).binding? (r name))))
    rw [s.binding?_rename r name]
    exact .step_var direction name _
  | step direction' _ => cases direction' <;> exact .throw _
  | _ => exact .throw _

mutual

/-- **The code of a tree is that of the renamed tree.** In units whose scopes differ by the
renaming, the resolved trees are emitted alike. -/
theorem node_alike : ∀ (n : Node) (s : Scope),
    Alike r (node (n.resolveLambdas.bindNames s))
      (node ((n.rename r).resolveLambdas.bindNames (s.rename r)))
  | .integer _, _ | .boolean _, _ | .nil, _ => .store _
  | .string _, _ | .atom _, _ => (Alike.literal _).bind fun _ => .store _
  | .comment _, _ => .pure ()
  | .var name binding, s => by
    show Alike r (read name (s.binding? name)) (read (r name) ((s.rename r).binding? (r name)))
    rw [s.binding?_rename r name]
    exact .read name _
  | .operator name left right, s =>
    (node_alike left s).bind fun _ => Alike.raise.bind fun _ => (node_alike right s).bind
      fun _ => Alike.lower.bind fun _ => (Alike.literal _).bind fun _ =>
        Alike.top.bind fun _ => .instruction _
  | .call method receiver args, s => by
    have emitted : Alike r
        (node (.call method (receiver.resolveLambdas.bindNames s)
          (Node.bindNamesAll s (Node.resolveLambdasAll args))))
        (node (.call method ((receiver.rename r).resolveLambdas.bindNames (s.rename r))
          (Node.bindNamesAll (s.rename r) (Node.resolveLambdasAll (Node.renameAll r args))))) := by
      rw [node, node]
      simp only [Node.length_bindNamesAll, Node.length_resolveLambdasAll, Node.length_renameAll]
      exact (node_alike receiver s).bind fun _ => Alike.top.bind fun _ =>
        (arguments_alike args s).bind fun _ => (Alike.returnTo _).bind fun _ =>
          (Alike.literal _).bind fun _ => .instruction _
    exact emitted
  | .invoke name args binding, s => by
    have emitted : Alike r
        (node (.invoke name (Node.bindNamesAll s (Node.resolveLambdasAll args)) (s.binding? name)))
        (node (.invoke (r name)
          (Node.bindNamesAll (s.rename r) (Node.resolveLambdasAll (Node.renameAll r args)))
          ((s.rename r).binding? (r name)))) := by
      rw [node, node, s.binding?_rename r name]
      simp only [Node.length_bindNamesAll, Node.length_resolveLambdasAll, Node.length_renameAll]
      exact (Alike.read name _).bind fun _ => Alike.top.bind fun _ =>
        (arguments_alike args s).bind fun _ => (Alike.returnTo _).bind fun _ => .instruction _
    exact emitted
  | .block [], _ => .store _
  | .block (item :: items), s => (node_alike item s).bind fun _ => nodes_alike items s
  | .conditional condition body, s =>
    (node_alike condition s).bind fun _ => Alike.top.bind fun _ => Alike.here.bind fun _ =>
      (Alike.instruction _).bind fun _ => (node_alike body s).bind fun _ =>
        Alike.here.bind fun _ => .patch _ _
  | .loop condition body, s =>
    Alike.here.bind fun _ => (node_alike condition s).bind fun _ => Alike.top.bind fun _ =>
      Alike.here.bind fun _ => (Alike.instruction _).bind fun _ =>
        (node_alike body s).bind fun _ => (Alike.instruction _).bind fun _ =>
          Alike.here.bind fun _ => .patch _ _
  | .step direction operand, s => step_alike r s direction operand
  | .assign name value binding, s => by
    have emitted : Alike r
        (node (.assign name (value.resolveLambdas.bindNames s) (s.binding? name)))
        (node (.assign (r name) ((value.rename r).resolveLambdas.bindNames (s.rename r))
          ((s.rename r).binding? (r name)))) := by
      rw [node, node, s.binding?_rename r name]
      exact (node_alike value s).bind fun _ => .assign name _
    exact emitted
  | .lambda params body _, s => by
    -- The lambda's own scope does not depend on the unit around it: it is that of its renamed unit.
    have unit := (node_alike body (Scope.ofUnit params body)).unitOf
      (Emitter.startLambda (Scope.ofUnit params body))
    have emitted : Alike r
        (node (.lambda params (body.resolveLambdas.bindNames (Scope.ofUnit params body))
          (some (Scope.ofUnit params body))))
        (node (.lambda (params.map r) ((body.rename r).resolveLambdas.bindNames
            ((Scope.ofUnit params body).rename r))
          (some ((Scope.ofUnit params body).rename r)))) := by
      rw [node, node, lambdaUnit, lambdaUnit, Emitter.startLambda_rename]
      revert unit
      cases unitOf (Emitter.startLambda (Scope.ofUnit params body)) _ with
      | ok inner =>
        intro same
        rw [same, List.length_map]
        exact .closure _ inner
      | error cause =>
        intro same e placed
        rw [same placed]
        exact ⟨_, rfl⟩
    rw [← ofUnit_rename] at emitted
    exact emitted
  | .instanceVar _, _ | .attr .., _ | .attrAssign .., _ | .importPath _, _ | .definition .., _
  | .classDef .., _ | .has .., _ => .throw _

/-- The trees of a list, resolved in the scope and in the renamed scope. -/
theorem nodes_alike : ∀ (ns : List Node) (s : Scope),
    Alike r (nodes (Node.bindNamesAll s (Node.resolveLambdasAll ns)))
      (nodes (Node.bindNamesAll (s.rename r) (Node.resolveLambdasAll (Node.renameAll r ns))))
  | [], _ => .pure ()
  | n :: ns, s => (node_alike n s).bind fun _ => nodes_alike ns s

/-- The same for arguments. -/
theorem arguments_alike : ∀ (args : List Node) (s : Scope),
    Alike r (arguments (Node.bindNamesAll s (Node.resolveLambdasAll args)))
      (arguments (Node.bindNamesAll (s.rename r) (Node.resolveLambdasAll (Node.renameAll r args))))
  | [], _ => .pure ()
  | arg :: args, s => Alike.raise.bind fun _ => (node_alike arg s).bind fun _ =>
      arguments_alike args s

end

end Emit

/-! ## Programs -/

/-- **Code does not show the names of variables.** Renaming the variables of a program, different
names by different ones, changes neither its code nor its error, apart from the name in an error
about an undefined one. -/
theorem compile_rename (program : Node) :
    (program.rename r).compile.2 = program.compile.2.mapError (CompileError.rename r) := by
  have scope : Scope.ofUnit [] (program.rename r) = (Scope.ofUnit [] program).rename r :=
    ofUnit_rename r [] program
  have unit := (Emit.node_alike r program (Scope.ofUnit [] program)).unitOf
    (Emitter.start (Scope.ofUnit [] program))
  have placed (cause : CompileError) (failed : program.compile.2 = .error cause) :
      ¬ cause.WantsPlace := by
    rintro (name | name)
    · exact (compile_places program name).1 failed
    · exact (compile_places program name).2 failed
  rw [Node.compile, Node.resolveProgram] at placed ⊢
  rw [Node.compile, Node.resolveProgram, scope, Scope.capturedNames_rename]
  cases received : (Scope.ofUnit [] program).capturedNames with
  | cons name names => rfl
  | nil =>
    simp only [received, List.map_nil] at placed ⊢
    rw [Emitter.start_rename]
    revert unit placed
    cases Emit.unitOf (Emitter.start (Scope.ofUnit [] program)) _ with
    | ok inner =>
      intro same _
      rw [same]
      exact congrArg Except.ok (Emitter.code_rename r inner)
    | error cause =>
      intro same placed
      rw [same (placed cause rfl)]
      rfl

/-- A variable may be called like an operator, and is not mistaken for its name. -/
example :
    (Node.block [.assign "x" (.integer 1) none,
      .operator "+" (.var "x" none) (.var "x" none)]).compile.2 =
    (Node.block [.assign "+" (.integer 1) none,
      .operator "+" (.var "+" none) (.var "+" none)]).compile.2 :=
  rfl

end ClosureLang
