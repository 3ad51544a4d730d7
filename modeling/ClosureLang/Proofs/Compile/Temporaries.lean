import ClosureLang.Proofs.Grammar.Parsed
import ClosureLang.Proofs.Machine.Correctness
import ClosureLang.Proofs.Machine.Written

/-!
# Temporaries are written before they are read

In a parsed program every operand leaves a value, so whatever the code of a tree reads above the
variables was written by the code of an operand. What remains is the value that the unit returns: it
was written exactly if the body leaves a value. A body of comments and steps leaves none, and then
the unit returns whatever the first temporary held when the unit was entered.

Both directions are about paths through the code and not about runs: what is written is told from
the instructions on the way, whatever the host does and whichever way a branch goes. In the one
direction, the code of a tree leads from its beginning to its end without reading a temporary that
was not written, and at its end the stack position is written if the tree leaves a value
(`node_leads`). What a piece needs and what it gives is carried along, since an assignment needs the
value before it and a branch may skip the body. In the other direction a single path is enough: if
the tree leaves no value, some path goes through its code and writes no temporary (`node_passes`),
and at its end stands the return.

Variables have to live below the temporaries for this. With distinct parameters they do
(`Consistent.below`); with repeated ones a variable may share the first temporary.
-/

set_option autoImplicit false

namespace ClosureLang

/-! ## Lambdas of fed trees -/

namespace Node

mutual

/-- If every operand leaves a value, the same holds in the lambdas of the tree. -/
theorem Fed.lambda : ∀ {n : Node}, n.Supported → n.Fed → ∀ l ∈ n.lambdas, l.body.Fed
  | .lambda _ _ _, _, h, l, hl => by
    obtain rfl := List.mem_singleton.mp hl
    exact h
  | .operator _ _ _, hs, h, l, hl =>
    (List.mem_append.mp hl).elim (Fed.lambda hs.1 h.1.2 l) (Fed.lambda hs.2 h.2.2 l)
  | .call _ _ _, hs, h, l, hl =>
    (List.mem_append.mp hl).elim (Fed.lambda hs.1 h.1.2 l) (OperandsFed.lambda hs.2 h.2 l)
  | .invoke _ _ _, hs, h, l, hl => OperandsFed.lambda hs.2 h l hl
  | .block _, hs, h, l, hl => FedAll.lambda hs h l hl
  | .conditional _ _, hs, h, l, hl =>
    (List.mem_append.mp hl).elim (Fed.lambda hs.1 h.1.2 l) (Fed.lambda hs.2 h.2 l)
  | .loop _ _, hs, h, l, hl =>
    (List.mem_append.mp hl).elim (Fed.lambda hs.1 h.1.2 l) (Fed.lambda hs.2 h.2 l)
  | .assign _ _ _, hs, h, l, hl => Fed.lambda hs.2 h.2 l hl
  | .step _ _, hs, _, l, hl => by
    obtain ⟨name, index, rfl⟩ := hs
    cases hl
  | .integer _, _, _, _, hl | .string _, _, _, _, hl | .atom _, _, _, _, hl
  | .boolean _, _, _, _, hl | .nil, _, _, _, hl | .var .., _, _, _, hl
  | .comment _, _, _, _, hl => by
    cases hl
  | .instanceVar _, hs, _, _, _ | .attr .., hs, _, _, _ | .attrAssign .., hs, _, _, _
  | .importPath _, hs, _, _, _ | .definition .., hs, _, _, _ | .classDef .., hs, _, _, _
  | .has .., hs, _, _, _ => hs.elim

/-- The same for the lambdas of a list. -/
theorem FedAll.lambda : ∀ {ns : List Node}, SupportedAll ns → FedAll ns →
    ∀ l ∈ lambdasAll ns, l.body.Fed
  | [], _, _, _, hl => by cases hl
  | _ :: _, hs, h, l, hl =>
    (List.mem_append.mp hl).elim (Fed.lambda hs.1 h.1 l) (FedAll.lambda hs.2 h.2 l)

/-- The same for the lambdas of arguments. -/
theorem OperandsFed.lambda : ∀ {ns : List Node}, SupportedAll ns → OperandsFed ns →
    ∀ l ∈ lambdasAll ns, l.body.Fed
  | [], _, _, _, hl => by cases hl
  | _ :: _, hs, h, l, hl =>
    (List.mem_append.mp hl).elim (Fed.lambda hs.1 h.1.2 l) (OperandsFed.lambda hs.2 h.2 l)

end

end Node

/-- In every unit of a parsed program, every operand leaves a value. -/
theorem Nesting.fed {program : Node} (fed : program.Fed) {units : List CompiledUnit}
    (h : Nesting program units) : ∀ u ∈ units, u.body.Fed := by
  induction h with
  | outermost resolved _ =>
    obtain ⟨-, -, rfl⟩ := Node.resolveProgram_ok resolved
    intro u hu
    obtain rfl := List.mem_singleton.mp hu
    simpa using fed
  | inside nesting lambda _ _ ih =>
    intro u hu
    rcases List.mem_cons.mp hu with rfl | hu
    · have outer := nesting.consistent _ List.mem_cons_self
      exact (ih _ List.mem_cons_self).lambda outer.supported _ (List.mem_of_getElem? lambda)
    · exact ih u hu

/-! ## The code of a tree -/

section leads

variable {c : Code} {s : Scope} {table : NameTable} {base : Nat}

/-- The variables of the unit live below the temporaries. -/
def Scope.Below (s : Scope) (base : Nat) : Prop :=
  ∀ (name : String) (r : Nat), s.register? name = some r → r < base

/-- Reading a name whose home is below `base` writes the stack position and needs nothing of the
temporaries. -/
theorem read_leads (below : s.Below base) {binding : Option Binding} {name : String}
    {top start unit : Nat} (bound : binding = s.binding? name ∧ binding ≠ none)
    (placed : (Piece.read binding).Placed c table top start unit) :
    c.Leads base (fun _ => False) (· = top) start (start + (Piece.read binding).size) := by
  obtain ⟨bound, known⟩ := bound
  rcases binding with _ | index | slot
  · exact absurd rfl known
  · have lt := below name index (s.register?_of_binding bound.symm).2
    refine .writes placed.instruction rfl (fun r hr le => ?_) rfl
    obtain rfl := List.mem_singleton.mp hr
    omega
  · exact .writes placed.instruction rfl nofun rfl

/-- Assigning needs the value at the stack position and leaves it there. -/
theorem assign_leads {binding : Option Binding} {top start unit : Nat} (known : binding ≠ none)
    (placed : (Piece.assign binding).Placed c table top start unit) :
    c.Leads base (· = top) (· = top) start (start + (Piece.assign binding).size) := by
  rcases binding with _ | index | slot
  · exact absurd rfl known
  all_goals
    exact (Code.Leads.instruction placed.instruction rfl fun _ hr _ =>
      List.mem_singleton.mp hr).mono (fun _ h => h) fun _ => .inr

/-- The registers of a receiver and its arguments. -/
theorem mem_window {top argc : Nat} {r : Nat} (h : r ∈ List.range' top (argc + 1)) :
    r = top ∨ top < r ∧ r ≤ top + argc := by
  have := List.mem_range'_1.mp h
  omega

/-- Two pieces, the second of which can rely on what the first one writes. -/
theorem append_leads {p q : Piece} {gives gives' : Nat → Prop} {start : Nat}
    (h : c.Leads base (fun _ => False) gives start (start + p.size))
    (h' : c.Leads base gives gives' (start + p.size) (start + p.size + q.size)) :
    c.Leads base (fun _ => False) (fun r => gives r ∨ gives' r) start (start + (p ++ q).size) := by
  rw [Piece.size_append, ← Nat.add_assoc]
  exact h.seq h'

mutual

/-- The code of a tree reads no temporary that it has not written, and if the tree leaves a value,
the register at the stack position is written. -/
theorem node_leads (below : s.Below base) : ∀ {n : Node}, n.Ready s → n.Fed →
    ∀ {top start unit : Nat}, (n.layout s).Placed c table top start unit →
      c.Leads base (fun _ => False) (fun r => r = top ∧ n.LeavesValue) start
        (start + (n.layout s).size)
  | .integer _, _, _, _, _, _, placed | .boolean _, _, _, _, _, _, placed
  | .nil, _, _, _, _, _, placed | .block [], _, _, _, _, _, placed =>
    (Code.Leads.writes placed.instruction rfl nofun rfl).weaken fun _ hr => hr.1
  | .string _, _, _, _, _, _, placed | .atom _, _, _, _, _, _, placed =>
    (Code.Leads.writes placed.naming.1 rfl nofun rfl).weaken fun _ hr => hr.1
  | .comment _, _, _, _, start, _, _ =>
    (Code.Leads.refl c base (fun _ => False) start).weaken fun _ hr => hr.2
  | .var _ binding, h, _, _, _, _, placed =>
    (read_leads below h.var placed).weaken fun _ hr => hr.1
  | .lambda params body scope, h, _, top, start, _, placed => by
    have supplied := h.supplied ⟨params, body, scope⟩ List.mem_cons_self
    have size : start + (Piece.closure s ⟨params, body, scope⟩).size =
        start + 1 + (Lambda.handed s ⟨params, body, scope⟩).length := by
      rw [Lambda.length_handed supplied]
      exact (Nat.add_assoc ..).symm
    rw [Node.layout, size]
    exact (Code.Leads.writes placed.closure.1 rfl nofun rfl).weaken fun _ hr => hr.1
  | .operator name left right, h, fed, top, start, unit, placed => by
    have sized := Node.layout_sized h.operator.1
    obtain ⟨operands, send⟩ := placed.append (sized.append (Node.layout_sized h.operator.2).raised)
    obtain ⟨first, second⟩ := operands.append sized
    -- both operands leave values, so both registers that the send reads are written
    have hl := (node_leads below h.operator.1 fed.1.2 first).weaken fun r hr => ⟨hr, fed.1.1⟩
    have hr := (node_leads below h.operator.2 fed.2.2 second.raised).weaken fun r hr =>
      ⟨hr, fed.2.1⟩
    refine (append_leads (append_leads (q := (right.layout s).raised) hl hr.anywhere)
      (.writes send.naming.1 rfl (fun r hr _ => ?_) rfl)).weaken fun _ hr => .inr hr.1
    exact (mem_window hr).imp_right fun ⟨lt, le⟩ => Nat.le_antisymm le lt
  | .call method receiver args, h, fed, top, start, unit, placed => by
    have sized := Node.layout_sized h.call.1
    obtain ⟨operands, send⟩ := placed.append (sized.append (Node.layoutArguments_sized h.call.2))
    obtain ⟨first, second⟩ := operands.append sized
    have hr := (node_leads below h.call.1 fed.1.2 first).weaken fun r hr => ⟨hr, fed.1.1⟩
    have ha := arguments_lead below h.call.2 fed.2 second
    exact (append_leads (append_leads hr ha.anywhere)
      (.writes send.naming.1 rfl (fun _ hr _ => mem_window hr) rfl)).weaken fun _ hr => .inr hr.1
  | .invoke name args binding, h, fed, top, start, unit, placed => by
    have sized : (Piece.read binding).Sized := .read binding
    obtain ⟨operands, call⟩ := placed.append (sized.append (Node.layoutArguments_sized h.invoke.2))
    obtain ⟨first, second⟩ := operands.append sized
    have hr := read_leads below h.invoke.1 first
    have ha := arguments_lead below h.invoke.2 fed second
    exact (append_leads (append_leads hr ha.anywhere)
      (.writes call.instruction rfl (fun _ hr _ => mem_window hr) rfl)).weaken fun _ hr => .inr hr.1
  | .block (item :: items), h, fed, top, start, unit, placed => by
    obtain ⟨first, second⟩ := placed.append (Node.layout_sized h.block.cons.1)
    have hi := node_leads below h.block.cons.1 fed.1 first
    have hs := nodes_lead below h.block.cons.2 fed.2 second
    -- what one of the trees has written stays written
    exact (append_leads hi hs.anywhere).weaken fun _ hr => hr.2.imp (.intro hr.1) (.intro hr.1)
  | .conditional condition body, h, fed, top, start, unit, placed => by
    obtain ⟨first, branch, second⟩ := placed.conditional (Node.layout_sized h.conditional.1)
    have hc := (node_leads below h.conditional.1 fed.1.2 first).weaken fun r hr => ⟨hr, fed.1.1⟩
    have hb := node_leads below h.conditional.2 fed.2 second
    rw [Nat.add_assoc] at hb
    -- the body may be skipped, so only the condition counts
    exact (hc.seq (.skip branch rfl hb.anywhere)).weaken fun _ hr => .inl hr.1
  | .loop condition body, h, fed, top, start, unit, placed => by
    obtain ⟨first, branch, second, jump⟩ := placed.loop (Node.layout_sized h.loop.1)
      (Node.layout_sized h.loop.2)
    have hc := (node_leads below h.loop.1 fed.1.2 first).weaken fun r hr => ⟨hr, fed.1.1⟩
    have hb := node_leads below h.loop.2 fed.2 second
    rw [Nat.add_assoc] at hb
    exact (hc.repeated branch hb.anywhere jump).weaken fun _ hr => hr.1
  | .step _ _, h, _, top, start, unit, placed => by
    obtain ⟨name, index, rfl, bound⟩ := h.step
    have lt := below name index (s.register?_of_binding bound).2
    -- a step reads the register of its variable, which is no temporary
    refine (Code.Leads.instruction placed.naming.1 rfl fun r hr le => ?_).weaken
      fun _ hr => hr.2.elim
    obtain rfl := List.mem_singleton.mp hr
    omega
  | .assign _ value binding, h, fed, top, start, unit, placed => by
    obtain ⟨first, second⟩ := placed.append (Node.layout_sized h.assign.2)
    have hv := (node_leads below h.assign.2 fed.2 first).weaken fun r hr => ⟨hr, fed.1⟩
    exact (append_leads hv (assign_leads h.assign.1.2 second)).weaken fun _ hr => .inl hr.1
  | .instanceVar _, h, _, _, _, _, _ | .attr .., h, _, _, _, _, _ | .attrAssign .., h, _, _, _, _, _
  | .importPath _, h, _, _, _, _, _ | .definition .., h, _, _, _, _, _
  | .classDef .., h, _, _, _, _, _ | .has .., h, _, _, _, _, _ => h.supported.elim

/-- The trees of a list need nothing that they do not write, and the stack position is written if
one of them leaves a value. -/
theorem nodes_lead (below : s.Below base) : ∀ {ns : List Node}, Node.ReadyAll s ns →
    Node.FedAll ns → ∀ {top start unit : Nat},
      (Node.layoutAll s ns).Placed c table top start unit →
        c.Leads base (fun _ => False) (fun r => r = top ∧ Node.AnyLeavesValue ns) start
          (start + (Node.layoutAll s ns).size)
  | [], _, _, _, start, _, _ =>
    (Code.Leads.refl c base (fun _ => False) start).weaken fun _ hr => hr.2
  | n :: ns, h, fed, top, start, unit, placed => by
    obtain ⟨first, second⟩ := placed.append (Node.layout_sized h.cons.1)
    have hn := node_leads below h.cons.1 fed.1 first
    have hs := nodes_lead below h.cons.2 fed.2 second
    exact (append_leads hn hs.anywhere).weaken fun _ hr => hr.2.imp (.intro hr.1) (.intro hr.1)

/-- Arguments write the registers above the stack position, one each. -/
theorem arguments_lead (below : s.Below base) : ∀ {args : List Node}, Node.ReadyAll s args →
    Node.OperandsFed args → ∀ {top start unit : Nat},
      (Node.layoutArguments s args).Placed c table top start unit →
        c.Leads base (fun _ => False) (fun r => top < r ∧ r ≤ top + args.length) start
          (start + (Node.layoutArguments s args).size)
  | [], _, _, top, start, _, _ =>
    (Code.Leads.refl c base (fun _ => False) start).weaken fun r hr => by
      simp only [List.length_nil] at hr
      omega
  | arg :: args, h, fed, top, start, unit, placed => by
    obtain ⟨first, second⟩ := placed.raised.append (Node.layout_sized h.cons.1)
    have ha := (node_leads below h.cons.1 fed.1.2 first).weaken fun r hr => ⟨hr, fed.1.1⟩
    have hs := arguments_lead below h.cons.2 fed.2 second
    refine (append_leads ha hs.anywhere).weaken fun r hr => ?_
    simp only [List.length_cons] at hr
    omega

end

/-! ## Trees that leave no value -/

mutual

/-- The code of a tree that leaves no value writes no temporary. -/
theorem node_passes (below : s.Below base) : ∀ {n : Node}, n.Ready s → n.Fed → ¬ n.LeavesValue →
    ∀ {top start unit : Nat}, (n.layout s).Placed c table top start unit →
      c.Passes base start (start + (n.layout s).size)
  | .comment _, _, _, _, _, start, _, _ => .refl c base start
  | .step _ _, h, _, _, _, _, _, placed => by
    obtain ⟨name, index, rfl, bound⟩ := h.step
    have lt := below name index (s.register?_of_binding bound).2
    exact .instruction placed.naming.1 List.mem_cons_self fun r hr => Option.some.inj hr ▸ lt
  | .block (item :: items), h, fed, silent, top, start, unit, placed => by
    obtain ⟨first, second⟩ := placed.append (Node.layout_sized h.block.cons.1)
    obtain ⟨noItem, noItems⟩ := not_or.mp silent
    rw [Node.layout, Piece.size_append, ← Nat.add_assoc]
    exact (node_passes below h.block.cons.1 fed.1 noItem first).trans
      (nodes_pass below h.block.cons.2 fed.2 noItems second)
  | .conditional _ _, _, fed, silent, _, _, _, _ => absurd fed.1.1 silent
  | .loop _ _, _, fed, silent, _, _, _, _ => absurd fed.1.1 silent
  | .assign _ _ _, _, fed, silent, _, _, _, _ => absurd fed.1 silent
  | .block [], _, _, silent, _, _, _, _ | .var .., _, _, silent, _, _, _, _
  | .lambda .., _, _, silent, _, _, _, _ | .operator .., _, _, silent, _, _, _, _
  | .call .., _, _, silent, _, _, _, _ | .invoke .., _, _, silent, _, _, _, _
  | .integer _, _, _, silent, _, _, _, _ | .boolean _, _, _, silent, _, _, _, _
  | .string _, _, _, silent, _, _, _, _ | .atom _, _, _, silent, _, _, _, _
  | .nil, _, _, silent, _, _, _, _ => absurd trivial silent
  | .instanceVar _, h, _, _, _, _, _, _ | .attr .., h, _, _, _, _, _, _
  | .attrAssign .., h, _, _, _, _, _, _ | .importPath _, h, _, _, _, _, _, _
  | .definition .., h, _, _, _, _, _, _ | .classDef .., h, _, _, _, _, _, _
  | .has .., h, _, _, _, _, _, _ => h.supported.elim

/-- If none of the trees of a list leaves a value, a path leads through them that writes no
temporary: all of them are comments, steps, or blocks of such trees. -/
theorem nodes_pass (below : s.Below base) : ∀ {ns : List Node}, Node.ReadyAll s ns →
    Node.FedAll ns → ¬ Node.AnyLeavesValue ns → ∀ {top start unit : Nat},
      (Node.layoutAll s ns).Placed c table top start unit →
        c.Passes base start (start + (Node.layoutAll s ns).size)
  | [], _, _, _, _, start, _, _ => .refl c base start
  | n :: ns, h, fed, silent, top, start, unit, placed => by
    obtain ⟨first, second⟩ := placed.append (Node.layout_sized h.cons.1)
    obtain ⟨noItem, noItems⟩ := not_or.mp silent
    rw [Node.layoutAll, Piece.size_append, ← Nat.add_assoc]
    exact (node_passes below h.cons.1 fed.1 noItem first).trans
      (nodes_pass below h.cons.2 fed.2 noItems second)

end

/-! ## Units -/

/-- The moves of boxed parameters read registers below the temporaries, and write none. -/
theorem moves_lead {rows : List (Nat × Nat)} (low : ∀ row ∈ rows, row.1 < base) {start : Nat}
    (holds : c.Holds start (rows.map fun (register, slot) => .storeCell slot register)) :
    c.Leads base (fun _ => False) (fun _ => False) start (start + rows.length) ∧
      c.Passes base start (start + rows.length) := by
  induction rows generalizing start with
  | nil => exact ⟨.refl c base _ start, .refl c base start⟩
  | cons row rows ih =>
    obtain ⟨here, rest⟩ := Code.Holds.cons holds
    obtain ⟨leads, passes⟩ := ih (fun r hr => low r (List.mem_cons_of_mem row hr)) rest
    have first := low row List.mem_cons_self
    have stop : start + (row :: rows).length = start + 1 + rows.length := by
      rw [List.length_cons]
      omega
    rw [stop]
    refine ⟨?_, (Code.Passes.instruction here List.mem_cons_self nofun).trans passes⟩
    refine (Code.Leads.seq (Code.Leads.instruction here rfl fun r hr le => ?_)
      leads.anywhere).weaken fun _ hr => .inr hr
    obtain rfl := List.mem_singleton.mp hr
    omega

end leads

namespace CompiledUnit

variable {u : CompiledUnit}

/-- In a unit with distinct parameters the homes of variables are below the temporaries. -/
theorem Consistent.below (h : u.Consistent) (distinct : u.params.Nodup) :
    u.scope.Below u.scope.numLocals :=
  fun _ _ found => (h.tidy distinct).register_lt found

/-- So are the registers from which boxed parameters are moved. -/
theorem Consistent.boxed_below (h : u.Consistent) (distinct : u.params.Nodup) :
    ∀ row ∈ u.scope.boxedParams, row.1 < u.scope.numLocals := by
  intro row mem
  obtain ⟨name, found, -⟩ := (h.tidy distinct).boxed.mp mem
  exact (h.tidy distinct).register_lt found

/-- If the body of a unit leaves a value, the unit writes its temporaries first. -/
theorem Consistent.writesFirst (h : u.Consistent) (distinct : u.params.Nodup) (fed : u.body.Fed)
    (leaves : u.body.LeavesValue) : u.code.WritesFirst u.scope.numLocals := by
  obtain ⟨table, prologue, placed, ret⟩ := h.placed
  obtain ⟨moves, -⟩ := moves_lead (h.boxed_below distinct) prologue
  have body := node_leads (h.below distinct) h.ready fed placed
  rw [Nat.zero_add] at moves
  rw [Lambda.prologue, List.length_map] at body ret
  refine Code.writesFirst_iff_safe.mpr fun n => moves.seq body.anywhere n []
    (fun _ none => none.elim) ?_
  intro m _ written _ gave
  cases m with
  | zero => trivial
  | succ m =>
    intro i here
    obtain rfl := Option.some.inj (ret.symm.trans here)
    refine ⟨fun r hr _ => ?_, List.forall_mem_nil _⟩
    exact gave r (.inr ⟨List.mem_singleton.mp hr, leaves⟩)

/-- If the body of a unit leaves no value, the unit returns a temporary that it has not written. -/
theorem Consistent.leavesValue (h : u.Consistent) (distinct : u.params.Nodup) (fed : u.body.Fed)
    (first : u.code.WritesFirst u.scope.numLocals) : u.body.LeavesValue := by
  refine Classical.not_not.mp fun silent => ?_
  obtain ⟨table, prologue, placed, ret⟩ := h.placed
  obtain ⟨-, moves⟩ := moves_lead (h.boxed_below distinct) prologue
  have body := node_passes (h.below distinct) h.ready fed silent placed
  rw [Nat.zero_add] at moves
  rw [Lambda.prologue, List.length_map] at body ret
  obtain ⟨written, reaches, low⟩ := moves.trans body [] .start (List.forall_mem_nil _)
  have wrote := first _ written _ reaches ret u.scope.numLocals List.mem_cons_self (Nat.le_refl _)
  exact Nat.lt_irrefl _ (low _ wrote)

end CompiledUnit

/-- **Temporaries.** In a program that was read from tokens, a unit whose parameters are distinct
writes its temporaries before it reads them exactly if its body leaves a value. -/
theorem writesFirst_iff_leavesValue {precedence : Precedence} {tokens : List Token}
    {program : Node} {u : CompiledUnit} {around : List CompiledUnit}
    (read : parse precedence tokens = .ok program) (h : Nesting program (u :: around))
    (distinct : u.params.Nodup) :
    u.code.WritesFirst u.scope.numLocals ↔ u.body.LeavesValue := by
  have consistent := h.consistent u List.mem_cons_self
  have fed := h.fed (fed_of_parse read) u List.mem_cons_self
  exact ⟨consistent.leavesValue distinct fed, consistent.writesFirst distinct fed⟩

/-- `n = 2; while n { n-- }; n`: the body of the loop leaves no value, but the program does. -/
theorem countdown_writesFirst :
    let word (text : String) : Token := ⟨.word, .text text, ⟨0, 0⟩⟩
    let mark (kind : TokenKind) : Token := ⟨kind, .none, ⟨0, 0⟩⟩
    let tokens : List Token := [word "n", mark .equal, ⟨.integer, .number 2, ⟨0, 0⟩⟩,
      mark .semicolon, mark .whileWord, word "n", mark .openBrace, word "n", mark .minusMinus,
      mark .closeBrace, mark .semicolon, word "n", mark .terminator]
    let program : Node := .block [.assign "n" (.integer 2) none,
      .loop (.var "n" none) (.block [.step .decrement (.var "n" none)]), .var "n" none]
    parse .default tokens = .ok program ∧ ∃ u, Nesting program [u] ∧ u.params.Nodup ∧
      u.code.WritesFirst u.scope.numLocals := by
  intro word mark tokens program
  have read : parse .default tokens = .ok program := Grammar.parse_ok_iff.mpr rfl
  have nesting : Nesting program [_] := .outermost rfl rfl
  exact ⟨read, _, nesting, List.nodup_nil,
    (writesFirst_iff_leavesValue read nesting List.nodup_nil).mpr (.inl trivial)⟩

/-- A comment alone is a program. Its unit returns a register that nothing has written. -/
theorem comment_returnsUnwritten :
    let tokens : List Token := [⟨.comment, .text "c", ⟨0, 0⟩⟩, ⟨.terminator, .none, ⟨0, 0⟩⟩]
    ∃ program u, parse .default tokens = .ok program ∧ Nesting program [u] ∧
      u.code.Reaches 0 [] ∧ u.code.instructions[0]? = some (.ret u.scope.numLocals) ∧
        ¬ u.code.WritesFirst u.scope.numLocals := by
  intro tokens
  have read : parse .default tokens = .ok (.comment "c") := Grammar.parse_ok_iff.mpr rfl
  have nesting : Nesting (.comment "c") [⟨[], ∅, .comment "c", ⟨1, 0, #[.ret 0], [], []⟩, 0⟩] :=
    .outermost rfl rfl
  refine ⟨_, _, read, nesting, .start, rfl, fun first => ?_⟩
  exact absurd (first 0 [] _ .start rfl 0 List.mem_cons_self (Nat.le_refl 0)) List.not_mem_nil

end ClosureLang
