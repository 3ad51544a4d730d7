import ClosureLang.Proofs.Compile.Segments

/-!
# What emitting a tree adds, and where it writes

Emission goes back to fill in its branches, and moves the stack position up and down on the way.
What it adds to an emitter is the layout of the tree nevertheless, whose sizes are known before any
instruction is: the layout does not depend on what was emitted before, apart from its own position,
the stack position, the literals and the number of units before its own. Nothing that the emitter
held is changed, whether it belongs to a unit that has still to be finished or to one that was.

The code of a tree is confined: it writes to registers from the stack position on and to the places
of the names that occur in the tree, and nowhere else. The operands after the making of a closure
look like readings to the first register, but they are not executed.

Because of these operands, being confined cannot be a property of single instructions. `Confined` is
one of a list with positions, in which operands are passed over (`Spans`). Lists can be put one
after the other all the same: a list in front can only turn more positions into operands, and of
those nothing has to be shown.
-/

set_option autoImplicit false

namespace ClosureLang

/-! ## Destinations -/

/-- Where an instruction puts its result. -/
def Instruction.destination? : Instruction → Option Binding
  | .storeCell slot _ => some (.cell slot)
  | i => i.written?.map .register

/-- The instructions write to registers from `low` on and to the places of the occurrences only. -/
def Confined (low : Nat) (os : List Occurrence) (is : List Instruction) : Prop :=
  ∀ (pos : Nat) i, is[pos]? = some i → ¬ Spans is pos → ∀ place ∈ i.destination?,
    (∃ register, low ≤ register ∧ place = .register register) ∨ ∃ o ∈ os, o.binding = some place

namespace Confined

variable {low low' : Nat} {os os' : List Occurrence} {is is' : List Instruction}

theorem nil (low : Nat) (os : List Occurrence) : Confined low os [] := nofun

/-- One instruction is confined if its own destination is. -/
theorem single {i : Instruction} (h : ∀ place ∈ i.destination?,
      (∃ register, low ≤ register ∧ place = .register register) ∨
        ∃ o ∈ os, o.binding = some place) : Confined low os [i] := by
  intro pos i' here _
  cases List.mem_singleton.mp (List.mem_of_getElem? here)
  exact h

/-- An instruction whose result goes to a register that is free. -/
theorem above {i : Instruction} {register : Nat} (h : i.destination? = some (.register register))
    (le : low ≤ register) : Confined low os [i] := by
  refine single fun place dest => .inl ⟨register, le, ?_⟩
  rw [h] at dest
  exact (Option.some.inj dest).symm

/-- An instruction whose result goes to the place of an occurrence. -/
theorem named {i : Instruction} {o : Occurrence} (h : i.destination? = o.binding) (mem : o ∈ os) :
    Confined low os [i] :=
  single fun _ dest => .inr ⟨o, mem, h ▸ dest⟩

/-- An instruction without a result. -/
theorem mute {i : Instruction} (h : i.destination? = none) : Confined low os [i] := by
  refine single fun place dest => ?_
  rw [h] at dest
  cases dest

/-- A lower bound that is lower and occurrences that are more confine less. -/
theorem mono (h : Confined low os is) (le : low' ≤ low) (sub : os ⊆ os') :
    Confined low' os' is := by
  intro pos i here free place dest
  refine (h pos i here free place dest).imp ?_ ?_
  · rintro ⟨register, above, rfl⟩
    exact ⟨register, Nat.le_trans le above, rfl⟩
  · rintro ⟨o, mem, bound⟩
    exact ⟨o, sub mem, bound⟩

/-- Two confined lists are confined together. The first one can only turn positions of the second
into operands, which makes less to show. -/
theorem append (h : Confined low os is) (h' : Confined low os' is') :
    Confined low (os ++ os') (is ++ is') := by
  intro pos i here free
  rw [spans_append, not_or] at free
  rcases Nat.lt_or_ge pos is.length with first | second
  · rw [List.getElem?_append_left first] at here
    exact h.mono (Nat.le_refl low) (List.subset_append_left ..) pos i here free.1
  · rw [List.getElem?_append_right second] at here
    refine h'.mono (Nat.le_refl low) (List.subset_append_right ..) (pos - is.length) i here ?_
    exact fun spans => free.2 ⟨pos - is.length, by omega, spans⟩

/-- The making of a closure writes one register; its operands are not executed. -/
theorem closure {dst arity unit : Nat} {slots : List Nat} (le : low ≤ dst) :
    Confined low os (.createLambda dst arity slots.length unit :: slots.map (.readCell 0)) := by
  intro pos i here free
  cases pos with
  | zero =>
    exact above (i := .createLambda dst arity slots.length unit) rfl le 0 i here not_spans_zero
  | succ pos =>
    have inside := (List.getElem?_eq_some_iff.mp here).1
    rw [List.length_cons, List.length_map] at inside
    exact absurd ⟨0, dst, arity, slots.length, unit, rfl, by omega, by omega⟩ free

end Confined

/-! ## The layout is confined -/

/-- Wherever the piece stands, it writes to registers from the stack position on and to the places
of the occurrences only. -/
def Piece.Confined (os : List Occurrence) (p : Piece) : Prop :=
  ∀ (table : NameTable) (top start unit : Nat),
    ClosureLang.Confined top os (p.code table top start unit)

namespace Piece.Confined

variable {os os' : List Occurrence} {p q : Piece}

/-- No code is confined. -/
theorem silent (os : List Occurrence) (lambdas : List Lambda) : (silent lambdas).Confined os :=
  fun _ top _ _ => .nil top os

/-- An instruction whose result goes to the stack position. -/
theorem instruction {i : Nat → Instruction}
    (h : ∀ top, (i top).destination? = some (.register top)) : (instruction i).Confined os :=
  fun _ top _ _ => .above (h top) (Nat.le_refl top)

/-- An instruction that names a literal and whose result goes to the stack position. -/
theorem naming {text : String} {i : Nat → Nat → Instruction}
    (h : ∀ top number, (i top number).destination? = some (.register top)) :
    (naming text i).Confined os :=
  fun _ top _ _ => .above (h top _) (Nat.le_refl top)

/-- Two pieces write where either of them may write. -/
theorem append (h : p.Confined os) (h' : q.Confined os') : (p ++ q).Confined (os ++ os') :=
  fun table top _ _ => (h table top _ _).append (h' table top _ _)

/-- Before a piece in which no name occurs. -/
theorem before (h : p.Confined os) (h' : q.Confined []) : (p ++ q).Confined os := by
  have whole := h.append h'
  rwa [List.append_nil] at whole

/-- A raised piece writes from one register further up on, so above the stack position all the
more. -/
theorem raised (h : p.Confined os) : p.raised.Confined os :=
  fun table top _ _ => (h table (top + 1) _ _).mono (Nat.le_succ top) (List.Subset.refl os)

/-- The branch of a condition writes nothing. -/
theorem conditional (h : p.Confined os) (h' : q.Confined os') :
    (conditional p q).Confined (os ++ os') := by
  intro table top start unit
  have branch : ClosureLang.Confined top [] [.branchUnless top (start + (p.size + 1 + q.size))] :=
    .mute rfl
  exact (h table top _ _).append (branch.append (h' table top _ _))

/-- Neither the branch nor the jump of a loop writes anything. -/
theorem loop (h : p.Confined os) (h' : q.Confined os') : (loop p q).Confined (os ++ os') := by
  intro table top start unit
  have branch : ClosureLang.Confined top []
      [.branchUnless top (start + (p.size + 1 + q.size + 1))] := .mute rfl
  have back : ClosureLang.Confined top [] [.jump start] := .mute rfl
  have whole := (h table top start unit).append
    (branch.append ((h' table top (start + (p.size + 1)) (unit + p.lambdas.length)).append back))
  rwa [List.append_nil] at whole

/-- The making of a closure writes to the stack position, and its operands are not executed. -/
theorem closure (s : Scope) (l : Lambda) : (closure s l).Confined os :=
  fun _ top _ _ => .closure (Nat.le_refl top)

/-- Reading a name writes to the stack position. -/
theorem read (binding : Option Binding) : (read binding).Confined os := by
  rcases binding with _ | _ | _
  · exact silent os []
  · exact instruction fun _ => rfl
  · exact instruction fun _ => rfl

/-- An assignment writes to the place of the name that is assigned. -/
theorem assign {o : Occurrence} (mem : o ∈ os) : (assign o.binding).Confined os := by
  rcases bound : o.binding with _ | _ | _
  · exact silent os []
  · exact fun _ _ _ _ => .named bound.symm mem
  · exact fun _ _ _ _ => .named bound.symm mem

/-- A step writes to the register of the variable that is stepped. -/
theorem step (direction : Step) (operand : Node) :
    (step direction operand).Confined operand.occurrences := by
  unfold Piece.step
  split
  · exact fun _ _ _ _ => .named rfl List.mem_cons_self
  · exact silent _ _

end Piece.Confined

namespace Node

mutual

/-- The code of a tree is confined to the names that occur in it. -/
theorem layout_confined (s : Scope) : ∀ n : Node, (n.layout s).Confined n.occurrences
  | .integer _ | .boolean _ | .nil => .instruction fun _ => rfl
  | .string _ | .atom _ => .naming fun _ _ => rfl
  | .var _ binding => .read binding
  | .operator _ left right =>
    ((layout_confined s left).append (layout_confined s right).raised).before
      (.naming fun _ _ => rfl)
  | .call _ receiver args =>
    ((layout_confined s receiver).append (layoutArguments_confined s args)).before
      (.naming fun _ _ => rfl)
  | .invoke name args binding =>
    have callee : (Piece.read binding).Confined [⟨name, binding, false⟩] := .read binding
    (callee.append (layoutArguments_confined s args)).before (.instruction fun _ => rfl)
  | .block [] => .instruction fun _ => rfl
  | .block (item :: items) => (layout_confined s item).append (layoutAll_confined s items)
  | .conditional condition body =>
    (layout_confined s condition).conditional (layout_confined s body)
  | .loop condition body => (layout_confined s condition).loop (layout_confined s body)
  | .step direction operand => .step direction operand
  | .assign name value binding => fun table top start unit => by
    have assigned : (Piece.assign binding).Confined [⟨name, binding, true⟩] :=
      .assign (o := ⟨name, binding, true⟩) List.mem_cons_self
    have whole := (layout_confined s value).append assigned table top start unit
    exact whole.mono (Nat.le_refl top) (List.append_subset.mpr
      ⟨List.subset_cons_self .., List.cons_subset.mpr ⟨List.mem_cons_self, List.nil_subset _⟩⟩)
  | .lambda params body scope => .closure s ⟨params, body, scope⟩
  | .instanceVar _ | .attr .. | .attrAssign .. | .importPath _ | .definition .. | .classDef ..
  | .has .. | .comment _ => .silent _ _

/-- The trees of a list write to the places of the names in all of them. -/
theorem layoutAll_confined (s : Scope) : ∀ ns : List Node,
    (layoutAll s ns).Confined (occurrencesAll ns)
  | [] => .silent _ _
  | n :: ns => (layout_confined s n).append (layoutAll_confined s ns)

/-- The same for arguments. -/
theorem layoutArguments_confined (s : Scope) : ∀ args : List Node,
    (layoutArguments s args).Confined (occurrencesAll args)
  | [] => .silent _ _
  | arg :: args => ((layout_confined s arg).append (layoutArguments_confined s args)).raised

end

end Node

/-! ## Emission -/

/-- **Emission is laid out up front.** Whatever an emitter holds, emitting a tree leaves the stack
position where it was and everything that was emitted in its place. After it come the instructions
of the tree's layout, as many as the layout says, in which every branch and jump has its target from
the start; the literals and the inner units that the layout names are added in its order. And no
instruction writes anywhere but to a register from the stack position on or to the place of a name
that occurs in the tree. -/
theorem emission_laidOut {n : Node} {e e' : Emitter} (emitted : (Emit.node n).run e = .ok () e') :
    e'.top = e.top ∧ e'.scope = e.scope ∧
    e'.literals.Continues e.literals ∧
    e'.literals = e.literals.insertAll (n.layout e.scope).texts ∧
    e'.units.toList = e.units.toList ++ n.lambdas.map Lambda.unit ∧
    (∀ l ∈ n.lambdas, l.Makeable e.scope) ∧
    ∃ code, e'.instructions.toList = e.instructions.toList ++ code ∧
      code = (n.layout e.scope).code e'.literals e.top e.instructions.size e.units.size ∧
      code.length = (n.layout e.scope).size ∧
      Confined e.top n.occurrences code := by
  have laid := Emit.node_emitted n emitted rfl
  have instructions := laid.instructions e'.literals (.refl _)
  have units := laid.units
  have makeable := laid.makeable
  rw [Node.lambdas_layout] at units makeable
  refine ⟨laid.top, laid.scope, laid.continues, laid.literals, units, makeable, _, instructions,
    rfl, ?_, n.layout_confined e.scope _ _ _ _⟩
  have sizes := congrArg List.length instructions
  rw [List.length_append, Array.length_toList, Array.length_toList, laid.size] at sizes
  exact (Nat.add_left_cancel sizes).symm

/-- `while x { if x + z.at(1) { => z } }` after a unit that is finished, with the stack position
at 4: `x` lives in a register and `z` in a cell. -/
theorem loopAfterReturn_laidOut :
    let cells : NameTable := ⟨["z"], by decide⟩
    let x : Node := .var "x" (some (.register 0))
    let z : Node := .var "z" (some (.cell 0))
    let n : Node := .loop x (.conditional (.operator "+" x (.call "at" z [.integer 1]))
      (.lambda [] z (some ⟨[], cells, 1, []⟩)))
    let e : Emitter := ⟨⟨[("x", 0)], cells, 1, []⟩, 4, 4, #[.readRegister 1 0, .ret 1],
      ⟨["+"], by decide⟩, #[default]⟩
    let code : List Instruction := [.readRegister 4 0, .branchUnless 4 13, .readRegister 4 0,
      .readCell 5 0, .store 6 (.int 1), .callMethod 5 5 1 1, .callOperator 4 4 0,
      .branchUnless 4 12, .createLambda 4 0 1 1, .readCell 0 0, .jump 2]
    ∃ e', (Emit.node n).run e = .ok () e' ∧ e'.top = 4 ∧
      e'.instructions.toList = e.instructions.toList ++ code ∧ e'.literals.entries = ["+", "at"] ∧
      Confined 4 n.occurrences code := by
  intro cells x z n e code
  have answers : (Emit.node n).run' e = some () := by decide +kernel
  obtain ⟨e', ran⟩ : ∃ e', (Emit.node n).run e = .ok () e' := by
    delta EStateM.run' at answers
    cases ran : (Emit.node n).run e with
    | ok _ e' => exact ⟨e', rfl⟩
    | error =>
      rw [ran] at answers
      cases answers
  obtain ⟨top, -, -, literals, -, -, code', instructions, layout, -, confined⟩ :=
    emission_laidOut ran
  have texts : e'.literals.entries = ["+", "at"] := by rw [literals]; rfl
  have same : code' = code := by rw [layout, literals]; rfl
  exact ⟨e', ran, top, same ▸ instructions, texts, same ▸ confined⟩

end ClosureLang
