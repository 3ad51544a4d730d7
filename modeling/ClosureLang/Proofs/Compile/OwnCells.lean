import ClosureLang.Proofs.Compile.WellFormed
import ClosureLang.Proofs.Scope.FreeNames

/-!
# Units write to cells of their own only

The cells of a unit are those that it receives, and after them its own. It writes to a cell where a
boxed parameter is moved to it and where a name is assigned that has a cell, and both are names that
the unit declares; so the cell is never a received one. A step changes a variable in its register.
That the variable has no cell is what makes this right, and a step of a variable that has one has no
code.

What the instructions of a unit write is read off the tree they are made from, piece by piece
(`Piece.Accounts`): every writing of a cell belongs to an occurrence that is assigned, and every
call without arguments is the step of a variable. An occurrence that is assigned in a unit is
declared by the unit, since assigning is how a unit declares names; and what a unit declares it does
not receive.

The prologue is not made from the tree. Its rows come from the scope, which notes a row when a
parameter is declared that is lent (`Scope.BoxesOwn`).
-/

set_option autoImplicit false

namespace ClosureLang

/-! ## The steps of a unit -/

namespace Node

mutual

/-- The steps directly in a unit with what they are applied to, from left to right. -/
def steps : Node → List (Step × Node)
  | .step direction operand => (direction, operand) :: operand.steps
  | .operator _ left right => left.steps ++ right.steps
  | .call _ receiver args => receiver.steps ++ stepsAll args
  | .invoke _ args _ => stepsAll args
  | .block items => stepsAll items
  | .conditional condition body => condition.steps ++ body.steps
  | .loop condition body => condition.steps ++ body.steps
  | .assign _ value _ => value.steps
  | .attr _ receiver => receiver.steps
  | .attrAssign _ receiver value => receiver.steps ++ value.steps
  | _ => []

/-- The steps directly in the trees of a list. -/
def stepsAll : List Node → List (Step × Node)
  | [] => []
  | node :: nodes => node.steps ++ stepsAll nodes

end

end Node

/-! ## What instructions write -/

/-- If the instruction writes to a cell, that belongs to an assigned name. If it calls a method
without arguments, that is a step of a variable in its register. -/
def Instruction.Accounted (s : Scope) (os : List Occurrence) (steps : List (Step × Node))
    (table : NameTable) : Instruction → Prop
  | .storeCell slot _ => ∃ o ∈ os, o.assigned = true ∧ s.slot? o.name = some slot
  | .callPlain dst receiver literal => receiver = dst ∧ ∃ direction name,
      (direction, .var name (some (.register dst))) ∈ steps ∧
        s.binding? name = some (.register dst) ∧ table.index? direction.symbol = some literal
  | _ => True

/-- An account stays right if more names are assigned and more steps are taken. -/
theorem Instruction.Accounted.mono {s : Scope} {os os' : List Occurrence}
    {steps steps' : List (Step × Node)} {table : NameTable} {i : Instruction}
    (h : i.Accounted s os steps table) (occurrences : os ⊆ os') (all : steps ⊆ steps') :
    i.Accounted s os' steps' table := by
  cases i with
  | storeCell slot src =>
    obtain ⟨o, mem, assigned⟩ := h
    exact ⟨o, occurrences mem, assigned⟩
  | callPlain dst receiver literal =>
    obtain ⟨same, direction, name, mem, bound⟩ := h
    exact ⟨same, direction, name, all mem, bound⟩
  | _ => trivial

/-- Wherever the piece stands, its instructions write to what is assigned and stepped. -/
def Piece.Accounts (s : Scope) (os : List Occurrence) (steps : List (Step × Node)) (p : Piece) :
    Prop :=
  ∀ (table : NameTable) (top start unit : Nat), (∀ text ∈ p.texts, text ∈ table) →
    ∀ i ∈ p.code table top start unit, i.Accounted s os steps table

namespace Piece.Accounts

variable {s : Scope} {os os' : List Occurrence} {steps steps' : List (Step × Node)} {p q : Piece}

/-- The same for the account of a piece. -/
theorem mono (h : p.Accounts s os steps) (occurrences : os ⊆ os') (all : steps ⊆ steps') :
    p.Accounts s os' steps' :=
  fun table top start unit texts i mem =>
    (h table top start unit texts i mem).mono occurrences all

/-- No code needs no account. -/
theorem silent (lambdas : List Lambda) : (silent lambdas).Accounts s os steps :=
  fun _ _ _ _ _ _ mem => absurd mem List.not_mem_nil

/-- A piece of one instruction is accounted for if the instruction is, wherever it stands. -/
theorem instruction {i : Nat → Instruction} (h : ∀ top table, (i top).Accounted s os steps table) :
    (instruction i).Accounts s os steps :=
  fun table top _ _ _ _ mem => List.mem_singleton.mp mem ▸ h top table

/-- The same for an instruction that names a text, given the number of the text. -/
theorem naming {text : String} {i : Nat → Nat → Instruction}
    (h : ∀ top (table : NameTable) number, table.index? text = some number →
      (i top number).Accounted s os steps table) : (naming text i).Accounts s os steps := by
  intro table top start unit texts i mem
  obtain ⟨number, found⟩ := NameTable.exists_index? (texts text List.mem_cons_self)
  obtain rfl := List.mem_singleton.mp mem
  have same : table.number text = number := by simp [NameTable.number, found]
  exact same ▸ h top table number found

/-- Two pieces are accounted for by what either of them assigns and steps. -/
theorem append (h : p.Accounts s os steps) (h' : q.Accounts s os' steps') :
    (p ++ q).Accounts s (os ++ os') (steps ++ steps') := by
  intro table top start unit texts i mem
  obtain ⟨inFirst, inSecond⟩ := List.forall_mem_append.mp texts
  rcases List.mem_append.mp mem with first | second
  · exact (h table top _ _ inFirst i first).mono (List.subset_append_left ..)
      (List.subset_append_left ..)
  · exact (h' table top _ _ inSecond i second).mono (List.subset_append_right ..)
      (List.subset_append_right ..)

/-- What comes after neither assigns nor steps. -/
theorem concat (h : p.Accounts s os steps) (h' : q.Accounts s [] []) :
    (p ++ q).Accounts s os steps :=
  (h.append h').mono (by simp) (by simp)

/-- The stack position plays no part in the account of a piece. -/
theorem raised (h : p.Accounts s os steps) : p.raised.Accounts s os steps :=
  fun table top start unit => h table (top + 1) start unit

/-- The branch of a condition writes nothing, so the account is that of the parts. -/
theorem conditional (h : p.Accounts s os steps) (h' : q.Accounts s os' steps') :
    (conditional p q).Accounts s (os ++ os') (steps ++ steps') := by
  intro table top start unit texts i mem
  obtain ⟨inFirst, inSecond⟩ := List.forall_mem_append.mp texts
  rcases List.mem_append.mp mem with first | second
  · exact (h table top _ _ inFirst i first).mono (List.subset_append_left ..)
      (List.subset_append_left ..)
  · rcases List.mem_cons.mp second with rfl | second
    · trivial
    · exact (h' table top _ _ inSecond i second).mono (List.subset_append_right ..)
        (List.subset_append_right ..)

/-- Neither the branch nor the jump of a loop writes anything. -/
theorem loop (h : p.Accounts s os steps) (h' : q.Accounts s os' steps') :
    (loop p q).Accounts s (os ++ os') (steps ++ steps') := by
  intro table top start unit texts i mem
  obtain ⟨inFirst, inSecond⟩ := List.forall_mem_append.mp texts
  rcases List.mem_append.mp mem with first | second
  · exact (h table top _ _ inFirst i first).mono (List.subset_append_left ..)
      (List.subset_append_left ..)
  rcases List.mem_cons.mp second with rfl | second
  · trivial
  rcases List.mem_append.mp second with second | back
  · exact (h' table top _ _ inSecond i second).mono (List.subset_append_right ..)
      (List.subset_append_right ..)
  · obtain rfl := List.mem_singleton.mp back
    trivial

/-- Making a closure writes to no cell, and neither do its operands, which are readings by their
form. -/
theorem closure (l : Lambda) : (closure s l).Accounts s os steps := by
  intro table top start unit _ i mem
  rcases List.mem_cons.mp mem with rfl | mem
  · trivial
  · obtain ⟨slot, -, rfl⟩ := List.mem_map.mp mem
    trivial

/-- Reading a name writes to no cell. -/
theorem read (b : Option Binding) : (read b).Accounts s os steps := by
  rcases b with _ | _ | _
  · exact silent []
  · exact instruction fun _ _ => trivial
  · exact instruction fun _ _ => trivial

/-- Assigning a name is accounted for by the occurrence that is assigned. -/
theorem assign {name : String} {b : Option Binding} (bound : b = s.binding? name) :
    (assign b).Accounts s [⟨name, b, true⟩] [] := by
  rcases b with _ | _ | slot
  · exact silent []
  · exact instruction fun _ _ => trivial
  · exact instruction fun _ _ =>
      ⟨_, List.mem_cons_self, rfl, s.slot?_of_binding bound.symm⟩

end Piece.Accounts

namespace Node

variable {s : Scope}

mutual

/-- The code of a tree writes to what the tree assigns and steps. -/
theorem layout_accounts : ∀ {n : Node}, n.Ready s →
    (n.layout s).Accounts s n.occurrences n.steps
  | .integer _, _ | .boolean _, _ | .nil, _ => .instruction fun _ _ => trivial
  | .string _, _ | .atom _, _ => .naming fun _ _ _ _ => trivial
  | .comment _, _ => .silent []
  | .var _ binding, _ => .read binding
  | .lambda params body scope, _ => .closure ⟨params, body, scope⟩
  | .operator _ left right, h =>
    ((layout_accounts h.operator.1).append (layout_accounts h.operator.2).raised).concat
      (.naming fun _ _ _ _ => trivial)
  | .call _ receiver args, h =>
    ((layout_accounts h.call.1).append (layoutArguments_accounts h.call.2)).concat
      (.naming fun _ _ _ _ => trivial)
  | .invoke name args binding, h => by
    have callee : (Piece.read binding).Accounts s [⟨name, binding, false⟩] [] := .read binding
    exact (callee.append (layoutArguments_accounts h.invoke.2)).concat
      (.instruction fun _ _ => trivial)
  | .block [], _ => .instruction fun _ _ => trivial
  | .block (item :: items), h =>
    (layout_accounts h.block.cons.1).append (layoutAll_accounts h.block.cons.2)
  | .conditional condition body, h =>
    (layout_accounts h.conditional.1).conditional (layout_accounts h.conditional.2)
  | .loop condition body, h => (layout_accounts h.loop.1).loop (layout_accounts h.loop.2)
  | .step direction _, h => by
    obtain ⟨name, index, rfl, bound⟩ := h.step
    exact .naming fun _ _ _ found => ⟨rfl, direction, name, List.mem_cons_self, bound, found⟩
  | .assign name value binding, h =>
    ((layout_accounts h.assign.2).append (.assign h.assign.1.1)).mono
      (by simp [occurrences]) (by simp [steps])
  | .instanceVar _, h | .attr .., h | .attrAssign .., h | .importPath _, h | .definition .., h
  | .classDef .., h | .has .., h => h.supported.elim

/-- The trees of a list are accounted for by the assignments and steps in all of them. -/
theorem layoutAll_accounts : ∀ {ns : List Node}, ReadyAll s ns →
    (layoutAll s ns).Accounts s (occurrencesAll ns) (stepsAll ns)
  | [], _ => .silent []
  | _ :: _, h => (layout_accounts h.cons.1).append (layoutAll_accounts h.cons.2)

/-- The same for arguments. -/
theorem layoutArguments_accounts : ∀ {args : List Node}, ReadyAll s args →
    (layoutArguments s args).Accounts s (occurrencesAll args) (stepsAll args)
  | [], _ => .silent []
  | _ :: _, h => ((layout_accounts h.cons.1).append (layoutArguments_accounts h.cons.2)).raised

end

end Node

/-! ## Boxed parameters -/

/-- The cells to which parameters are moved are those of parameters. -/
def Scope.BoxesOwn (s : Scope) (params : List String) : Prop :=
  ∀ row ∈ s.boxedParams, ∃ name ∈ params, s.slot? name = some row.2

/-- Declaring a name keeps the rows of boxed parameters to parameters: a row is added for a
parameter only. -/
theorem Scope.BoxesOwn.declare {u : Usage} {params : List String} {s : Scope}
    (h : s.BoxesOwn params) (name : String) : (u.declare params s name).BoxesOwn params := by
  have refs := u.refs_declare params s name
  intro row mem
  rw [u.boxedParams_declare params] at mem
  split at mem
  case isFalse =>
    obtain ⟨param, own, slot⟩ := h row mem
    exact ⟨param, own, (refs ▸ NameTable.continues_insertAll ..).index? slot⟩
  case isTrue boxed =>
    obtain ⟨lent, isParam⟩ := Bool.and_eq_true_iff.mp boxed
    rcases List.mem_append.mp mem with old | new
    · obtain ⟨param, own, slot⟩ := h row old
      exact ⟨param, own, (refs ▸ NameTable.continues_insertAll ..).index? slot⟩
    · obtain rfl := List.mem_singleton.mp new
      refine ⟨name, List.contains_iff_mem.mp isParam, ?_⟩
      rw [List.filter_cons_of_pos lent] at refs
      rw [Scope.slot?, refs]
      exact s.refs.index?_intern name

/-- In the scope of a unit, parameters are moved to the cells of parameters only. The scope is built
by declaring one name after the other, starting from no rows. -/
theorem boxesOwn_ofUnit (params : List String) (body : Node) :
    (Scope.ofUnit params body).BoxesOwn params := by
  have all : ∀ (u : Usage) (names : List String) (s : Scope), s.BoxesOwn params →
      (u.declareAll params s names).BoxesOwn params := by
    intro u names
    induction names with
    | nil => exact fun s h => h
    | cons name names ih => exact fun s h => ih (u.declare params s name) (h.declare name)
  exact all _ _ _ fun row mem => absurd mem List.not_mem_nil

/-! ## Units -/

namespace CompiledUnit

variable {u : CompiledUnit}

/-- What a unit declares has no cell among those that the unit receives. -/
theorem Consistent.captured_le (h : u.Consistent) {name : String} {slot : Nat}
    (own : u.Declares name) (found : u.scope.slot? name = some slot) : u.scope.captured ≤ slot := by
  rw [h.scope] at found ⊢
  refine Nat.le_of_not_lt fun below => ?_
  exact not_declares_of_received ((slot_lt_captured_ofUnit found).mp below) own

/-- Every instruction of a unit moves a boxed parameter, belongs to the body or returns. -/
theorem Consistent.mem_instructions (h : u.Consistent) : ∃ table : NameTable,
    u.code.literals = table.entries ∧ ∀ i ∈ u.code.instructions,
      i ∈ Lambda.prologue u.scope ∨ i.Accounted u.scope u.body.occurrences u.body.steps table ∨
        i = .ret u.scope.numLocals := by
  obtain ⟨table, shape⟩ := h.shape
  refine ⟨table, shape.literals, fun i mem => ?_⟩
  rw [← Array.mem_toList_iff, shape.instructions, List.mem_append, List.mem_append,
    List.mem_singleton, or_assoc] at mem
  exact mem.imp_right (.imp_left (Node.layout_accounts h.ready table _ _ _ shape.texts i))

/-- A unit writes to cells of its own only. -/
theorem Consistent.storeCell_own (h : u.Consistent) {slot src : Nat}
    (mem : .storeCell slot src ∈ u.code.instructions) : u.scope.captured ≤ slot := by
  obtain ⟨table, -, instructions⟩ := h.mem_instructions
  rcases instructions _ mem with moved | accounted | ret
  · obtain ⟨row, boxed, same⟩ := List.mem_map.mp moved
    cases same
    have boxes : u.scope.BoxesOwn u.params := h.scope ▸ boxesOwn_ofUnit u.params u.body
    obtain ⟨name, param, found⟩ := boxes row boxed
    exact h.captured_le (.inl param) found
  · obtain ⟨o, occurs, assigned, found⟩ := accounted
    exact h.captured_le (.inr ⟨o, occurs, assigned, rfl⟩) found
  · cases ret

/-- A variable of a unit that neither comes from outside nor is shared with a closure. -/
def Owns (u : CompiledUnit) (name : String) : Prop :=
  name ∉ u.scope.capturedNames ∧ ¬ u.body.Lends name

/-- A name that is bound to a register is the unit's own alone. -/
theorem Consistent.owns_of_register (h : u.Consistent) {name : String} {register : Nat}
    (bound : u.scope.binding? name = some (.register register)) : u.Owns name := by
  obtain ⟨none, found⟩ := u.scope.register?_of_binding bound
  rw [h.scope] at none found
  have own := (register?_ofUnit.mp ⟨register, found⟩).1
  have without : ¬ ∃ slot, (Scope.ofUnit u.params u.body).slot? name = some slot := by simp [none]
  rw [slot?_ofUnit, not_or, not_and] at without
  exact ⟨h.scope ▸ without.1, without.2 own⟩

/-- A call without arguments is the step of a variable that is the unit's own alone. -/
theorem Consistent.callPlain_steps (h : u.Consistent) {dst receiver literal : Nat}
    (mem : .callPlain dst receiver literal ∈ u.code.instructions) : receiver = dst ∧
      ∃ direction name, (direction, .var name (some (.register dst))) ∈ u.body.steps ∧
        u.code.literals[literal]? = some direction.symbol ∧
          u.scope.register? name = some dst ∧ u.Owns name := by
  obtain ⟨table, literals, instructions⟩ := h.mem_instructions
  rcases instructions _ mem with moved | accounted | ret
  · obtain ⟨row, -, other⟩ := List.mem_map.mp moved
    cases other
  · obtain ⟨same, direction, name, step, bound, number⟩ := accounted
    refine ⟨same, direction, name, step, ?_, (u.scope.register?_of_binding bound).2,
      h.owns_of_register bound⟩
    rw [literals]
    exact NameTable.index?_eq_some_iff.mp number
  · cases ret

/-- There is one place where closures of an inner unit are made, and they get as many cells there
as the inner unit receives. -/
theorem Consistent.made_receiving (h : u.Consistent) {unit : Nat} {inner : Code}
    (compiled : u.code.units[unit]? = some inner) : ∃ (v : CompiledUnit) (pos dst : Nat),
      v.Consistent ∧ v.code = inner ∧
      u.code.instructions[pos]? =
        some (.createLambda dst v.params.length v.scope.captured unit) ∧
      ∀ (pos' : Nat) i, u.code.instructions[pos']? = some i → i.madeUnit? = some unit →
        pos' = pos := by
  obtain ⟨table, shape⟩ := h.shape
  have there := compiled
  rw [shape.units, List.getElem?_map, Option.map_eq_some_iff] at there
  obtain ⟨l, lambda, -⟩ := there
  have mem := List.mem_of_getElem? lambda
  have known := (h.resolved.inner mem).1
  obtain ⟨pos, dst, making, once⟩ := h.made_once lambda
  have cells : (l.handed u.scope).length = l.ownScope.captured := by
    rw [Lambda.length_handed (shape.makeable l mem).supplied, Lambda.received, known]
    exact length_capturedNames_ofUnit
  exact ⟨_, pos, dst, h.inner lambda known compiled, rfl, cells ▸ making, once⟩

end CompiledUnit

/-- **Received cells are read-only.** Whatever unit stands in the code of a program: for each of its
inner units there is one place where closures of it are made, and the inner unit writes to no cell
below those that the closure gets there. And every call without arguments in the unit is a step of a
variable in its register, one that the unit neither receives nor lends; if no parameter is listed
twice, it is the only one that lives there. -/
theorem received_readOnly {program : Node} {code c : Code}
    (compiled : program.compile.2 = .ok code) (inside : code.Contains c) :
    (∀ (unit : Nat) (inner : Code), c.units[unit]? = some inner → ∃ (pos dst arity refs : Nat),
      c.instructions[pos]? = some (.createLambda dst arity refs unit) ∧
        (∀ (pos' : Nat) i, c.instructions[pos']? = some i → i.madeUnit? = some unit →
          pos' = pos) ∧
        ∀ slot src, .storeCell slot src ∈ inner.instructions → refs ≤ slot) ∧
    ∃ u around, Nesting program (u :: around) ∧ u.code = c ∧
      ∀ dst receiver literal, .callPlain dst receiver literal ∈ c.instructions → receiver = dst ∧
        ∃ direction name, (direction, .var name (some (.register dst))) ∈ u.body.steps ∧
          c.literals[literal]? = some direction.symbol ∧
            u.scope.register? name = some dst ∧ u.Owns name ∧
              (u.params.Nodup → ∀ other, u.scope.register? other = some dst → other = name) := by
  obtain ⟨u, around, nesting, rfl⟩ := Nesting.of_contains compiled inside
  have consistent := nesting.consistent u List.mem_cons_self
  refine ⟨fun unit inner found => ?_, u, around, nesting, rfl, fun dst receiver literal mem => ?_⟩
  · obtain ⟨v, pos, dst, own, rfl, making, once⟩ := consistent.made_receiving found
    exact ⟨pos, dst, _, _, making, once, fun _ _ mem => own.storeCell_own mem⟩
  · obtain ⟨same, direction, name, step, symbol, register, own⟩ := consistent.callPlain_steps mem
    refine ⟨same, direction, name, step, symbol, register, own, fun distinct other found => ?_⟩
    rw [consistent.scope] at register found
    exact (Usage.laidOut_of_nodup distinct).register_inj found register

/-- `x = 1; a => { n = x; n++; a = n; => a }`: the inner unit receives the cell of `x` and has one
of its own for `a`, and it steps `n` in a register. -/
theorem boxedParameter_written :
    let body : Node := .block [.assign "n" (.var "x" none) none,
      .step .increment (.var "n" none), .assign "a" (.var "n" none) none,
      .lambda [] (.var "a" none) none]
    let program : Node := .block [.assign "x" (.integer 1) none, .lambda ["a"] body none]
    let innermost : Code := ⟨1, 1, #[.readCell 0 0, .ret 0], [], []⟩
    let inner : Code := ⟨3, 2, #[.storeCell 1 0, .readCell 2 0, .storeRegister 1 2,
      .callPlain 1 1 0, .readRegister 2 1, .storeCell 1 2, .createLambda 2 0 1 0, .readCell 0 1,
      .ret 2], ["++"], [innermost]⟩
    let code : Code := ⟨1, 1, #[.store 0 (.int 1), .storeCell 0 0, .createLambda 0 1 1 0,
      .readCell 0 0, .ret 0], [], [inner]⟩
    program.compile.2 = .ok code ∧ code.Contains inner ∧
      (∀ slot src, .storeCell slot src ∈ inner.instructions → 1 ≤ slot) ∧
      ∃ u : CompiledUnit, u.code = inner ∧ ∃ name, u.scope.register? name = some 1 ∧
        u.Owns name := by
  intro body program innermost inner code
  have compiled : program.compile.2 = .ok code := rfl
  have inside : code.Contains inner := .inside .self List.mem_cons_self
  obtain ⟨made, -⟩ := received_readOnly compiled .self
  obtain ⟨pos, dst, arity, refs, making, once, writes⟩ := made 0 inner rfl
  obtain rfl : 2 = pos := once 2 _ rfl rfl
  cases making
  obtain ⟨-, u, around, -, same, calls⟩ := received_readOnly compiled inside
  have step : inner.instructions[3]? = some (.callPlain 1 1 0) := rfl
  obtain ⟨-, direction, name, -, -, register, own, -⟩ := calls 1 1 0 (Array.mem_of_getElem? step)
  exact ⟨compiled, inside, writes, u, same, name, register, own⟩

end ClosureLang
