import ClosureLang.Proofs.Compile.Emission
import ClosureLang.Proofs.Scope.Uses

/-!
# Which programs have code

A program has code if every name in it is declared where it is used, everything in it has
instructions, and steps are applied to variables in registers only. Otherwise the error is that of
the first offence: names are looked at before anything is emitted, and the rest from left to right.
What is attached to the tree beforehand makes no difference, and since a resolved tree has a place
for every name, emission never fails for want of one.

The offences are listed without compiling anything. `Node.reached` are the nodes for which code is
emitted, in preorder, each with the unit in which it stands, since the unit decides whether a
variable lives in a register. `Site.error?` is the error of a node by itself. What an emission does
is then compared with the list of the errors of what it meets: it fails with the first of them, or
it comes to an end if there is none (`FailsFirst`, and `Emit.Answers` for a computation in a unit).
Errors of a sequence are those of its first part followed by those of the second (`Answers.bind`),
which is all that the order of the walk is about.

Lambdas are where the two walks differ. The walk that resolves names goes through the whole program
before anything is emitted; emission enters the body of a lambda when it comes to it, with the scope
of that lambda, and is back in the unit around it afterwards (`Answers.lambdaUnit`). So the errors
of a lambda's body stand where the lambda stands, and a missing cell is never among them: a unit has
a cell for everything that a lambda in it receives (`Answers.closure`).
-/

set_option autoImplicit false

namespace ClosureLang

/-! ## What emission meets -/

/-- A node with the unit in which it stands. -/
structure Site where
  unit : Lambda
  node : Node

namespace Node

mutual

/-- The nodes of a tree for which code is emitted, in preorder. The operand of a step and the parts
of a node without instructions are left out. -/
def reached (unit : Lambda) : Node → List Site
  | .operator name left right =>
    ⟨unit, .operator name left right⟩ :: (left.reached unit ++ right.reached unit)
  | .call method receiver args =>
    ⟨unit, .call method receiver args⟩ :: (receiver.reached unit ++ reachedAll unit args)
  | .invoke name args binding => ⟨unit, .invoke name args binding⟩ :: reachedAll unit args
  | .block items => ⟨unit, .block items⟩ :: reachedAll unit items
  | .conditional condition body =>
    ⟨unit, .conditional condition body⟩ :: (condition.reached unit ++ body.reached unit)
  | .loop condition body =>
    ⟨unit, .loop condition body⟩ :: (condition.reached unit ++ body.reached unit)
  | .assign name value binding => ⟨unit, .assign name value binding⟩ :: value.reached unit
  | .lambda params body scope =>
    ⟨unit, .lambda params body scope⟩ :: body.reached ⟨params, body, scope⟩
  | node => [⟨unit, node⟩]

/-- The nodes of the trees of a list for which code is emitted. -/
def reachedAll (unit : Lambda) : List Node → List Site
  | [] => []
  | n :: ns => n.reached unit ++ reachedAll unit ns

end

/-- There are instructions for nodes of this kind. -/
def hasInstructions : Node → Bool
  | .instanceVar _ | .attr .. | .attrAssign .. | .importPath _ | .definition .. | .classDef ..
  | .has .. => false
  | _ => true

instance (body : Node) (name : String) : Decidable (body.Lends name) :=
  decidable_of_iff (name ∈ (Usage.walk ∅ body).lent) lent_walk

end Node

/-- The unit keeps the name in a register: it declares the name, and no lambda in it needs it. -/
def Lambda.Keeps (l : Lambda) (name : String) : Prop :=
  l.body.Declares l.params name ∧ ¬ l.body.Lends name

instance (l : Lambda) (name : String) : Decidable (l.Keeps name) :=
  inferInstanceAs (Decidable (l.body.Declares l.params name ∧ ¬ l.body.Lends name))

/-- The error that a node leads to by itself. -/
def Site.error? (site : Site) : Option CompileError :=
  match site.node with
  | .step direction (.var name _) =>
    if site.unit.Keeps name then none else some (.invalidStep direction "captured variable")
  | .step direction operand => some (.invalidStep direction operand.kind)
  | node => if node.hasInstructions then none else some (.unsupported node.kind)

/-- The errors that the nodes lead to, in order. -/
def errors (sites : List Site) : List CompileError := sites.filterMap Site.error?

@[simp] theorem errors_append (sites more : List Site) :
    errors (sites ++ more) = errors sites ++ errors more := List.filterMap_append

/-- A node without an error of its own adds nothing to the errors. -/
theorem errors_cons_of_none {site : Site} (h : site.error? = none) (sites : List Site) :
    errors (site :: sites) = errors sites := List.filterMap_cons_none h

/-- The error of a node comes before those of the nodes after it. -/
theorem errors_cons_of_some {site : Site} {cause : CompileError} (h : site.error? = some cause)
    (sites : List Site) : errors (site :: sites) = cause :: errors sites :=
  List.filterMap_cons_some h

/-- The outcome is the first of the errors; if there is none, it is a result that is `right`. -/
def FailsFirst {α : Type} (causes : List CompileError) (outcome : Except CompileError α)
    (right : α → Prop) : Prop :=
  match causes with
  | [] => ∃ a, outcome = .ok a ∧ right a
  | cause :: _ => outcome = .error cause

namespace FailsFirst

variable {α : Type} {causes : List CompileError} {outcome : Except CompileError α}
  {right : α → Prop}

/-- There is a result exactly if there is no error. -/
theorem ok_iff (h : FailsFirst causes outcome right) : (∃ a, outcome = .ok a) ↔ causes = [] := by
  cases causes with
  | nil =>
    obtain ⟨a, ok, -⟩ := h
    exact iff_of_true ⟨a, ok⟩ rfl
  | cons cause more =>
    have failed : outcome = .error cause := h
    simp [failed]

/-- A failure is always one of the errors. -/
theorem mem (h : FailsFirst causes outcome right) {cause : CompileError}
    (failed : outcome = .error cause) : cause ∈ causes := by
  subst failed
  cases causes with
  | nil =>
    obtain ⟨a, ok, -⟩ := h
    cases ok
  | cons first more =>
    cases h
    exact List.mem_cons_self

end FailsFirst

/-! ## Computations that answer -/

namespace Emit

variable {α β : Type} {s : Scope} {causes more : List CompileError} {x : Emit α} {f : α → Emit β}

/-- In a unit with scope `s` the computation fails with the first of the errors, and comes to an end
if there is none. -/
def Answers (s : Scope) (causes : List CompileError) (x : Emit α) : Prop :=
  ∀ e : Emitter, e.scope = s → match causes with
    | [] => ∃ a e', x.run e = .ok a e' ∧ e'.scope = s
    | cause :: _ => ∃ e', x.run e = .error cause e'

namespace Answers

/-- A computation that does nothing has no errors. -/
theorem pure (s : Scope) (a : α) : Answers s [] (Pure.pure a : Emit α) :=
  fun e scope => ⟨a, e, rfl, scope⟩

/-- A computation that throws fails with its error, whatever might come after it. -/
theorem throw (s : Scope) (cause : CompileError) (more : List CompileError) :
    Answers s (cause :: more) (MonadExcept.throw cause : Emit α) :=
  fun e _ => ⟨e, rfl⟩

/-- A change of the emitter that leaves the scope alone has no errors. -/
theorem modify {change : Emitter → Emitter} (kept : ∀ e, (change e).scope = e.scope) :
    Answers s [] (modifyThe Emitter change : Emit Unit) :=
  fun e scope => ⟨(), change e, rfl, (kept e).trans scope⟩

/-- If the first computation comes to an end, the sequence does what the second one does from
there. -/
theorem bind_of_ok {e e₁ : Emitter} {a : α} (h : x.run e = .ok a e₁) :
    (x >>= f).run e = (f a).run e₁ := by
  show EStateM.bind x f e = _
  unfold EStateM.bind
  rw [show x e = .ok a e₁ from h]
  rfl

/-- If the first computation fails, so does the sequence, with the same error. -/
theorem bind_of_error {e e₁ : Emitter} {cause : CompileError} (h : x.run e = .error cause e₁) :
    (x >>= f).run e = .error cause e₁ := by
  show EStateM.bind x f e = _
  unfold EStateM.bind
  rw [show x e = .error cause e₁ from h]

/-- The errors of a sequence are those of the first computation followed by those of the second. -/
theorem bind (h : Answers s causes x) (h' : ∀ a, Answers s more (f a)) :
    Answers s (causes ++ more) (x >>= f) := by
  intro e scope
  have first := h e scope
  cases causes with
  | nil =>
    obtain ⟨a, e₁, ran, scope₁⟩ := first
    rw [bind_of_ok ran]
    exact h' a e₁ scope₁
  | cons cause causes =>
    obtain ⟨e₁, failed⟩ := first
    exact ⟨e₁, bind_of_error failed⟩

/-- After something that does not fail. -/
theorem after (h : Answers s [] x) (h' : ∀ a, Answers s more (f a)) : Answers s more (x >>= f) :=
  h.bind h'

/-- Before something that does not fail. -/
theorem before (h : Answers s causes x) (h' : ∀ a, Answers s [] (f a)) :
    Answers s causes (x >>= f) := by
  have whole := h.bind h'
  rwa [List.append_nil] at whole

theorem top : Answers s [] Emit.top := fun e scope => ⟨e.top, e, rfl, scope⟩

theorem here : Answers s [] Emit.here := fun e scope => ⟨e.instructions.size, e, rfl, scope⟩

theorem instruction (i : Instruction) : Answers s [] (Emit.instruction i) := modify fun _ => rfl

theorem patch (pos : Nat) (i : Instruction) : Answers s [] (Emit.patch pos i) := modify fun _ => rfl

theorem raise : Answers s [] Emit.raise := modify fun _ => rfl

theorem lower : Answers s [] Emit.lower := modify fun _ => rfl

theorem returnTo (register : Nat) : Answers s [] (Emit.returnTo register) := modify fun _ => rfl

/-- Looking up or adding a literal has no errors. -/
theorem literal (text : String) : Answers s [] (Emit.literal text) :=
  fun e scope => ⟨_, { e with literals := e.literals.insert text }, rfl, scope⟩

/-- Storing a value has no errors. -/
theorem store (value : Immediate) : Answers s [] (Emit.store value) :=
  top.after fun _ => instruction _

/-- Reading a name that is bound has no errors. -/
theorem read {name : String} {binding : Option Binding} (known : binding ≠ none) :
    Answers s [] (Emit.read name binding) := by
  rcases binding with _ | index | slot
  · exact absurd rfl known
  · exact top.after fun _ => instruction _
  · exact top.after fun _ => instruction _

/-- Assigning a name that is bound has no errors. -/
theorem assign {name : String} {binding : Option Binding} (known : binding ≠ none) :
    Answers s [] (Emit.assign name binding) := by
  rcases binding with _ | index | slot
  · exact absurd rfl known
  · exact top.after fun _ => instruction _
  · exact top.after fun _ => instruction _

/-- Finding the cells of names has no errors if the scope has a cell for each of them. -/
theorem slots {names : List String} (supplied : ∀ name ∈ names, ∃ slot, s.slot? name = some slot) :
    Answers s [] (Emit.slots names) := by
  induction names with
  | nil => exact pure s []
  | cons name names ih =>
    obtain ⟨slot, found⟩ := supplied name List.mem_cons_self
    have rest := ih fun other mem => supplied other (List.mem_cons_of_mem name mem)
    intro e scope
    have known : e.scope.slot? name = some slot := scope ▸ found
    obtain ⟨handed, e', ran, scope'⟩ := rest e scope
    refine ⟨slot :: handed, e', ?_, scope'⟩
    rw [Emit.slots, bind_of_ok (show (get : Emit Emitter).run e = .ok e e from rfl), known]
    exact bind_of_ok ran

/-- Making a closure has no errors if the unit around it has a cell for every name that is
received. -/
theorem closure {arity : Nat} {inner : Emitter}
    (supplied : ∀ name ∈ inner.scope.capturedNames, ∃ slot, s.slot? name = some slot) :
    Answers s [] (Emit.closure arity inner) := by
  have operands (handed : List Nat) :
      Answers s [] (handed.forM fun slot => Emit.instruction (.readCell 0 slot)) := by
    induction handed with
    | nil => exact pure s ()
    | cons slot handed ih => exact (instruction _).after fun _ => ih
  refine (slots supplied).after fun handed e scope => ?_
  have push : Answers s [] (do
      Emit.instruction (.createLambda e.top arity handed.length e.units.size)
      handed.forM fun slot => Emit.instruction (.readCell 0 slot)) :=
    (instruction _).after fun _ => operands handed
  exact push { e with units := e.units.push inner.code } scope

/-- A unit is emitted unless its body fails. -/
theorem unitOf {start : Emitter} {body : Emit Unit} (h : Answers s causes body)
    (scope : start.scope = s) :
    FailsFirst causes (Emit.unitOf start body) fun inner => inner.scope = s := by
  have whole : Answers s causes (do body; Emit.instruction (.ret start.scope.numLocals)) :=
    h.before fun _ => instruction _
  have outcome := whole start scope
  cases causes with
  | nil =>
    obtain ⟨_, inner, ran, kept⟩ := outcome
    exact ⟨inner, by rw [Emit.unitOf, ran], kept⟩
  | cons cause causes =>
    obtain ⟨e, failed⟩ := outcome
    show Emit.unitOf start body = .error cause
    rw [Emit.unitOf, failed]

/-- A unit of its own fails with the first error of its body, and otherwise ends in the scope that
it was begun with. -/
theorem lambdaUnit {body : Emit Unit} (h : Answers s causes body) :
    FailsFirst causes (Emit.lambdaUnit (some s) body) fun inner => inner.scope = s :=
  h.unitOf rfl

end Answers

end Emit

/-! ## Places of names in a unit -/

namespace Lambda

variable {l : Lambda} {name : String}

/-- A name that a unit keeps is bound to its register. -/
theorem Keeps.binding (h : l.Keeps name) :
    ∃ index, l.ownScope.binding? name = some (.register index) := by
  obtain ⟨declared, unlent⟩ := h
  obtain ⟨register, found⟩ : ∃ register, l.ownScope.register? name = some register :=
    register?_ofUnit.mpr ⟨declared, .inr unlent⟩
  have noSlot : l.ownScope.slot? name = none := by
    refine Option.eq_none_iff_forall_ne_some.mpr fun slot found => ?_
    rcases slot?_ofUnit.mp ⟨slot, found⟩ with received | ⟨-, lent⟩
    · exact not_declares_of_received received declared
    · exact unlent lent
  exact ⟨register, by rw [Scope.binding?, noSlot, found]; rfl⟩

/-- Another name that occurs in a unit is bound to a cell. -/
theorem binding_of_not_keeps (h : ¬ l.Keeps name) {o : Occurrence} (occurs : o ∈ l.body.occurrences)
    (same : o.name = name) : ∃ slot, l.ownScope.binding? name = some (.cell slot) := by
  have cell : ∃ slot, l.ownScope.slot? name = some slot := by
    have known : l.body.Declares l.params o.name ∨ o.name ∈ l.ownScope.capturedNames :=
      declares_or_received occurs
    rw [same] at known
    refine slot?_ofUnit.mpr ?_
    rcases known with declared | received
    · exact .inr ⟨declared, Classical.not_not.mp fun unlent => h ⟨declared, unlent⟩⟩
    · exact .inl received
  obtain ⟨slot, found⟩ := cell
  exact ⟨slot, by rw [Scope.binding?, found]; rfl⟩

/-- Every name that occurs in a unit is bound. -/
theorem binding_ne_none {o : Occurrence} (occurs : o ∈ l.body.occurrences) :
    l.ownScope.binding? o.name ≠ none := by
  by_cases keeps : l.Keeps o.name
  · obtain ⟨index, bound⟩ := keeps.binding
    simp [bound]
  · obtain ⟨slot, bound⟩ := binding_of_not_keeps keeps occurs rfl
    simp [bound]

/-- A unit has a cell for each name that a lambda in it receives. -/
theorem supplied {inner : Lambda} (mem : inner ∈ l.body.lambdas) :
    ∀ name ∈ inner.ownScope.capturedNames, ∃ slot, l.ownScope.slot? name = some slot := by
  intro name received
  have free := received_iff_free.mp received
  have known : l.body.Declares l.params name ∨ name ∈ l.ownScope.capturedNames :=
    declares_or_received_of_free mem free
  refine slot?_ofUnit.mpr ?_
  rcases known with declared | outside
  · exact .inr ⟨declared, inner, mem, free⟩
  · exact .inl outside

end Lambda

/-! ## Trees -/

namespace Emit

open Node in
/-- The emission of a step fails for a variable in a cell, and for anything but a variable. -/
theorem step_answers (l : Lambda) (direction : Step) (operand : Node)
    (occurs : operand.occurrences ⊆ l.body.occurrences) :
    Answers l.ownScope (errors [⟨l, .step direction operand⟩])
      (step direction (operand.resolveLambdas.bindNames l.ownScope)) := by
  cases operand with
  | var name binding =>
    have here := occurs List.mem_cons_self
    have resolved : (var name binding).resolveLambdas.bindNames l.ownScope =
        .var name (l.ownScope.binding? name) := rfl
    by_cases keeps : l.Keeps name
    · obtain ⟨index, bound⟩ := keeps.binding
      have none : Site.error? ⟨l, .step direction (.var name binding)⟩ = none := if_pos keeps
      rw [errors_cons_of_none none, resolved, bound]
      exact (Answers.literal _).after fun _ => .instruction _
    · obtain ⟨slot, bound⟩ := Lambda.binding_of_not_keeps keeps here rfl
      have some : Site.error? ⟨l, .step direction (.var name binding)⟩ =
          some (.invalidStep direction "captured variable") := if_neg keeps
      rw [errors_cons_of_some some, resolved, bound]
      exact .throw l.ownScope _ []
  | step direction' _ => cases direction' <;> exact .throw l.ownScope _ []
  | _ => exact .throw l.ownScope _ []

mutual

/-- **Emission meets the errors of a tree.** In any unit, emitting a resolved tree fails with the
first of them, and with no other error. -/
theorem node_answers : ∀ (n : Node) (l : Lambda), n.occurrences ⊆ l.body.occurrences →
    n.lambdas ⊆ l.body.lambdas →
      Answers l.ownScope (errors (n.reached l)) (node (n.resolveLambdas.bindNames l.ownScope))
  | .integer _, _, _, _ | .boolean _, _, _, _ | .nil, _, _, _ => .store _
  | .string _, _, _, _ | .atom _, _, _, _ => (Answers.literal _).after fun _ => .store _
  | .comment _, l, _, _ => .pure l.ownScope ()
  | .var name binding, l, occurs, _ => .read (Lambda.binding_ne_none (occurs List.mem_cons_self))
  | .operator name left right, l, occurs, lambdas => by
    obtain ⟨o₁, o₂⟩ := List.append_subset.mp occurs
    obtain ⟨l₁, l₂⟩ := List.append_subset.mp lambdas
    rw [Node.reached, errors_cons_of_none rfl, errors_append]
    -- only the operands have errors; what is emitted between and after them has none
    exact (node_answers left l o₁ l₁).bind fun _ => Answers.raise.after fun _ =>
      (node_answers right l o₂ l₂).before fun _ => Answers.lower.after fun _ =>
        (Answers.literal _).after fun _ => Answers.top.after fun _ => .instruction _
  | .call method receiver args, l, occurs, lambdas => by
    obtain ⟨o₁, o₂⟩ := List.append_subset.mp occurs
    obtain ⟨l₁, l₂⟩ := List.append_subset.mp lambdas
    rw [Node.reached, errors_cons_of_none rfl, errors_append]
    exact (node_answers receiver l o₁ l₁).bind fun _ => Answers.top.after fun _ =>
      (arguments_answer args l o₂ l₂).before fun _ => (Answers.returnTo _).after fun _ =>
        (Answers.literal _).after fun _ => .instruction _
  | .invoke name args binding, l, occurs, lambdas => by
    obtain ⟨here, others⟩ := List.cons_subset.mp occurs
    rw [Node.reached, errors_cons_of_none rfl]
    exact (Answers.read (Lambda.binding_ne_none here)).after fun _ => Answers.top.after fun _ =>
      (arguments_answer args l others lambdas).before fun _ => (Answers.returnTo _).after fun _ =>
        .instruction _
  | .block [], _, _, _ => .store _
  | .block (item :: items), l, occurs, lambdas => by
    obtain ⟨o₁, o₂⟩ := List.append_subset.mp occurs
    obtain ⟨l₁, l₂⟩ := List.append_subset.mp lambdas
    rw [Node.reached, errors_cons_of_none rfl, Node.reachedAll, errors_append]
    exact (node_answers item l o₁ l₁).bind fun _ => nodes_answer items l o₂ l₂
  | .conditional condition body, l, occurs, lambdas => by
    obtain ⟨o₁, o₂⟩ := List.append_subset.mp occurs
    obtain ⟨l₁, l₂⟩ := List.append_subset.mp lambdas
    rw [Node.reached, errors_cons_of_none rfl, errors_append]
    exact (node_answers condition l o₁ l₁).bind fun _ => Answers.top.after fun _ =>
      Answers.here.after fun _ => (Answers.instruction _).after fun _ =>
        (node_answers body l o₂ l₂).before fun _ => Answers.here.after fun _ => .patch _ _
  | .loop condition body, l, occurs, lambdas => by
    obtain ⟨o₁, o₂⟩ := List.append_subset.mp occurs
    obtain ⟨l₁, l₂⟩ := List.append_subset.mp lambdas
    rw [Node.reached, errors_cons_of_none rfl, errors_append]
    exact Answers.here.after fun _ => (node_answers condition l o₁ l₁).bind fun _ =>
      Answers.top.after fun _ => Answers.here.after fun _ => (Answers.instruction _).after fun _ =>
        (node_answers body l o₂ l₂).before fun _ => (Answers.instruction _).after fun _ =>
          Answers.here.after fun _ => .patch _ _
  | .step direction operand, l, occurs, _ => step_answers l direction operand occurs
  | .assign name value binding, l, occurs, lambdas => by
    obtain ⟨here, others⟩ := List.cons_subset.mp occurs
    rw [Node.reached, errors_cons_of_none rfl]
    exact (node_answers value l others lambdas).before fun _ =>
      .assign (Lambda.binding_ne_none here)
  | .lambda params body scope, l, _, lambdas => by
    have supplied := Lambda.supplied (lambdas List.mem_cons_self)
    -- the body is emitted as a unit of its own, in the scope of the lambda
    have answers := node_answers body ⟨params, body, scope⟩ (List.Subset.refl _)
      (List.Subset.refl _)
    have resolved : (Node.lambda params body scope).resolveLambdas.bindNames l.ownScope =
        .lambda params (body.resolveLambdas.bindNames (Lambda.ownScope ⟨params, body, scope⟩))
          (some (Lambda.ownScope ⟨params, body, scope⟩)) := rfl
    rw [Node.reached, errors_cons_of_none rfl, resolved, node]
    cases causes : errors (body.reached ⟨params, body, scope⟩) with
    | nil =>
      rw [causes] at answers
      obtain ⟨inner, emitted, kept⟩ := answers.lambdaUnit
      rw [emitted]
      exact .closure (kept ▸ supplied)
    | cons cause more =>
      rw [causes] at answers
      have failed : lambdaUnit _ _ = .error cause := answers.lambdaUnit
      rw [failed]
      exact .throw l.ownScope cause more
  | .instanceVar _, l, _, _ | .attr .., l, _, _ | .attrAssign .., l, _, _ | .importPath _, l, _, _
  | .definition .., l, _, _ | .classDef .., l, _, _ | .has .., l, _, _ => .throw l.ownScope _ []

/-- Emitting the trees of a list fails with the first error in them. The list belongs to the body of
the unit `l`: its names and lambdas are among those of the body. -/
theorem nodes_answer : ∀ (ns : List Node) (l : Lambda),
    Node.occurrencesAll ns ⊆ l.body.occurrences → Node.lambdasAll ns ⊆ l.body.lambdas →
      Answers l.ownScope (errors (Node.reachedAll l ns))
        (nodes (Node.bindNamesAll l.ownScope (Node.resolveLambdasAll ns)))
  | [], l, _, _ => .pure l.ownScope ()
  | n :: ns, l, occurs, lambdas => by
    obtain ⟨o₁, o₂⟩ := List.append_subset.mp occurs
    obtain ⟨l₁, l₂⟩ := List.append_subset.mp lambdas
    rw [Node.reachedAll, errors_append]
    exact (node_answers n l o₁ l₁).bind fun _ => nodes_answer ns l o₂ l₂

/-- The same for arguments. -/
theorem arguments_answer : ∀ (args : List Node) (l : Lambda),
    Node.occurrencesAll args ⊆ l.body.occurrences → Node.lambdasAll args ⊆ l.body.lambdas →
      Answers l.ownScope (errors (Node.reachedAll l args))
        (arguments (Node.bindNamesAll l.ownScope (Node.resolveLambdasAll args)))
  | [], l, _, _ => .pure l.ownScope ()
  | arg :: args, l, occurs, lambdas => by
    obtain ⟨o₁, o₂⟩ := List.append_subset.mp occurs
    obtain ⟨l₁, l₂⟩ := List.append_subset.mp lambdas
    rw [Node.reachedAll, errors_append]
    exact Answers.raise.after fun _ => (node_answers arg l o₁ l₁).bind fun _ =>
      arguments_answer args l o₂ l₂

end

end Emit

/-! ## Programs -/

/-- What a program has to be like to have code. -/
structure Node.Compilable (program : Node) : Prop where
  /-- Every name is declared by some unit around its use. -/
  declared : ∀ use ∈ program.uses [program.asUnit], use.Declared
  /-- There are instructions for every node that emission meets. -/
  instructions : ∀ site ∈ program.reached program.asUnit, site.node.hasInstructions = true
  /-- Every step that emission meets is that of a variable in a register of the same unit. -/
  steps : ∀ site ∈ program.reached program.asUnit, ∀ direction operand,
    site.node = .step direction operand →
      ∃ name binding, operand = .var name binding ∧ site.unit.Keeps name

/-- A node leads to no error by itself exactly if there are instructions for it and, in case it is a
step, it is one of a variable that the unit keeps in a register. -/
theorem Site.error?_eq_none_iff {site : Site} : site.error? = none ↔
    site.node.hasInstructions = true ∧ ∀ direction operand, site.node = .step direction operand →
      ∃ name binding, operand = .var name binding ∧ site.unit.Keeps name := by
  obtain ⟨l, n⟩ := site
  cases n with
  | step direction operand =>
    cases operand with
    | var name binding =>
      have iff : Site.error? ⟨l, .step direction (.var name binding)⟩ = none ↔ l.Keeps name := by
        simp [Site.error?]
      rw [iff]
      refine ⟨fun keeps => ⟨rfl, fun _ _ eq => ?_⟩, fun h => ?_⟩
      · cases eq
        exact ⟨name, binding, rfl, keeps⟩
      · obtain ⟨_, _, eq, keeps⟩ := h.2 direction _ rfl
        cases eq
        exact keeps
    | _ =>
      refine ⟨nofun, fun h => ?_⟩
      obtain ⟨_, _, eq, -⟩ := h.2 direction _ rfl
      cases eq
  | instanceVar | attr | attrAssign | importPath | definition | classDef | has =>
    exact ⟨nofun, fun h => nomatch h.1⟩
  | _ => exact ⟨fun _ => ⟨rfl, nofun⟩, fun _ => rfl⟩

/-- No node by itself leads to an error about the place of a name. -/
theorem Site.error?_places (site : Site) (name : String) :
    site.error? ≠ some (.unresolved name) ∧ site.error? ≠ some (.missingCapture name) := by
  unfold error?
  split <;> (try split) <;> simp

/-- No errors means that no node leads to one. -/
theorem errors_eq_nil_iff {sites : List Site} :
    errors sites = [] ↔ ∀ site ∈ sites, site.error? = none := List.filterMap_eq_nil_iff

/-- A program fails with the first of its undeclared names, or else with the first error that
emission meets. -/
theorem compile_failsFirst (program : Node) : FailsFirst
    ((undeclared (program.uses [program.asUnit])).map .undefinedVariable ++
      errors (program.reached program.asUnit)) program.compile.2 fun _ => True := by
  have first : (Scope.ofUnit [] program).capturedNames.head? = _ :=
    head?_capturedNames program.asUnit
  rw [Node.compile, Node.resolveProgram]
  cases names : undeclared (program.uses [program.asUnit]) with
  | cons name names' =>
    have undefined : undeclared (program.asUnit.body.uses [program.asUnit]) = _ := names
    rw [undefined] at first
    obtain ⟨rest, received⟩ := List.head?_eq_some_iff.mp first
    simp only [received]
    exact rfl
  | nil =>
    have defined : undeclared (program.asUnit.body.uses [program.asUnit]) = _ := names
    rw [defined] at first
    have received := List.head?_eq_none_iff.mp first
    simp only [received, List.map_nil, List.nil_append]
    have answers := Emit.node_answers program program.asUnit (List.Subset.refl _)
      (List.Subset.refl _)
    have unit := answers.unitOf (show (Emitter.start program.asUnit.ownScope).scope = _ from rfl)
    cases causes : errors (program.reached program.asUnit) with
    | nil =>
      rw [causes] at unit
      obtain ⟨inner, emitted, -⟩ := unit
      have ok : Emit.unitOf (Emitter.start (Scope.ofUnit [] program)) (Emit.node
          (program.resolveLambdas.bindNames (Scope.ofUnit [] program))) = .ok inner := emitted
      exact ⟨inner.code, by rw [ok]; rfl, trivial⟩
    | cons cause more =>
      rw [causes] at unit
      have failed : Emit.unitOf (Emitter.start (Scope.ofUnit [] program)) (Emit.node
          (program.resolveLambdas.bindNames (Scope.ofUnit [] program))) = .error cause := unit
      show Except.map _ _ = .error cause
      rw [failed]
      rfl

/-- A program never fails because a name is without a place. -/
theorem compile_places (program : Node) (name : String) :
    program.compile.2 ≠ .error (.unresolved name) ∧
      program.compile.2 ≠ .error (.missingCapture name) := by
  have absent {cause : CompileError} (h : ∀ site : Site, site.error? ≠ some cause)
      (h' : ∀ other, CompileError.undefinedVariable other ≠ cause) :
      program.compile.2 ≠ .error cause := by
    intro failed
    rcases List.mem_append.mp ((compile_failsFirst program).mem failed) with mem | mem
    · obtain ⟨other, -, same⟩ := List.mem_map.mp mem
      exact h' other same
    · obtain ⟨site, -, same⟩ := List.mem_filterMap.mp mem
      exact h site same
  refine ⟨absent (fun site => (site.error?_places name).1) fun other same => ?_,
    absent (fun site => (site.error?_places name).2) fun other same => ?_⟩ <;> cases same

/-- **Which programs have code.** A program has code exactly if it is compilable, whatever was
attached to it before. If a name is undeclared, the error is that of the first one in the walk,
whatever else is wrong; otherwise it is that of the first node with an error. No name is ever
without a place. -/
theorem compile_outcome (program : Node) :
    ((∃ code, program.compile.2 = .ok code) ↔ program.Compilable) ∧
    (∀ before use after, program.uses [program.asUnit] = before ++ use :: after →
      (∀ u ∈ before, u.Declared) → ¬ use.Declared →
        program.compile.2 = .error (.undefinedVariable use.name)) ∧
    ((∀ use ∈ program.uses [program.asUnit], use.Declared) →
      ∀ before site after cause, program.reached program.asUnit = before ++ site :: after →
        (∀ s ∈ before, s.error? = none) → site.error? = some cause →
          program.compile.2 = .error cause) ∧
    ∀ name, program.compile.2 ≠ .error (.unresolved name) ∧
      program.compile.2 ≠ .error (.missingCapture name) := by
  have outcome := compile_failsFirst program
  have declared_iff : undeclared (program.uses [program.asUnit]) = [] ↔
      ∀ use ∈ program.uses [program.asUnit], use.Declared := by
    simp [undeclared]
  -- the condition says what it takes for both lists of errors to be empty
  have compilable_iff : program.Compilable ↔
      undeclared (program.uses [program.asUnit]) = [] ∧
        errors (program.reached program.asUnit) = [] := by
    rw [declared_iff, errors_eq_nil_iff]
    constructor
    · intro h
      refine ⟨h.declared, fun site mem => ?_⟩
      exact Site.error?_eq_none_iff.mpr ⟨h.instructions site mem, h.steps site mem⟩
    · rintro ⟨declared, fine⟩
      refine ⟨declared, fun site mem => ?_, fun site mem => ?_⟩
      · exact (Site.error?_eq_none_iff.mp (fine site mem)).1
      · exact (Site.error?_eq_none_iff.mp (fine site mem)).2
  refine ⟨?_, fun before use after split declared undefined => ?_,
    fun declared before site after cause split fine offends => ?_, fun name => ?_⟩
  · rw [outcome.ok_iff, compilable_iff, List.append_eq_nil_iff, List.map_eq_nil_iff]
  · have first : undeclared (program.uses [program.asUnit]) = use.name :: undeclared after := by
      have none : undeclared before = [] := by simpa [undeclared] using declared
      have one : undeclared [use] = [use.name] := by simp [undeclared, undefined]
      rw [split, undeclared_append, none, undeclared_cons, one]
      rfl
    rw [first] at outcome
    exact outcome
  · have first : errors (program.reached program.asUnit) = cause :: errors after := by
      rw [split, errors_append, errors_eq_nil_iff.mpr fine, errors_cons_of_some offends]
      rfl
    rw [declared_iff.mpr declared, first] at outcome
    exact outcome
  · exact compile_places program name

/-- An undeclared name is reported even where something without instructions stands before it, and
where all names are declared, what comes first is reported. -/
theorem offences_reported :
    (Node.block [.instanceVar "a", .var "y" none]).compile.2 = .error (.undefinedVariable "y") ∧
    (Node.block [.instanceVar "a", .step .increment .nil]).compile.2 =
      .error (.unsupported (Node.instanceVar "a").kind) := by
  constructor
  · exact (compile_outcome _).2.1 [] ⟨"y", _⟩ [] rfl nofun (by decide)
  · refine (compile_outcome _).2.2.1 (by decide) [⟨_, .block _⟩] ⟨_, .instanceVar "a"⟩
      [⟨_, .step .increment .nil⟩] _ rfl (fun site mem => ?_) rfl
    obtain rfl := List.mem_singleton.mp mem
    rfl

end ClosureLang
