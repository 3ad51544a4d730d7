import ClosureLang.Proofs.Compile.Nesting

/-!
# Lexical addressing

A name that is used in a unit belongs to the innermost unit around the use that declares it. If that
is the unit itself and no lambda in it needs the name, the name is used through the unit's register.
Otherwise it is used through a cell, and the cell is the right one: every closure is made at one
place, the operands there say which cell of the unit around it becomes which of its own, and
following them outward leads to the cell that belongs to the name in the unit that declares it.

There are two parts to it. The first one is about the code of a single unit: it makes the closures
of the lambdas in its body one after the other, each once, under consecutive numbers, and behind
each making stand the cells to hand over (`Makes`, and `Piece.Wired` for pieces). The second one
goes along a chain of nested units. In the unit that is given, the scope has a cell for the name; if
the name is received, the unit around it has a cell for it as well, and the operand that hands over
the one names the other (`Code.Hands`). `Outward` is this chain of cells, from the unit of the use
to the unit that declares the name.

A unit that only passes a name on to a lambda in it takes part in this like any other: it receives
the name and has a cell for it, although the name does not occur in it.
-/

set_option autoImplicit false

namespace ClosureLang

/-- The inner unit of which an instruction makes a closure. -/
def Instruction.madeUnit? : Instruction → Option Nat
  | .createLambda _ _ _ unit => some unit
  | _ => none

/-- The code makes the closure of its inner unit `unit` at one place only, and hands its own cell
`outside` over there as the closure's cell `slot`. -/
def Code.Hands (c : Code) (unit slot outside : Nat) : Prop :=
  ∃ pos dst arity refs,
    c.instructions[pos]? = some (.createLambda dst arity refs unit) ∧
      (∀ pos' i, c.instructions[pos']? = some i → i.madeUnit? = some unit → pos' = pos) ∧
        slot < refs ∧ c.instructions[pos + 1 + slot]? = some (.readCell 0 outside)

/-- From the cell `slot` of the first unit the handed cells of `name` lead to the cell `final` of
the last one. -/
inductive Outward (name : String) : List CompiledUnit → Nat → Nat → Prop where
  | arrived {u : CompiledUnit} {slot : Nat} : Outward name [u] slot slot
  | handed {inner outer : CompiledUnit} {around : List CompiledUnit} {slot outside final : Nat} :
      inner.scope.capturedNames[slot]? = some name → outer.scope.slot? name = some outside →
        outer.code.Hands inner.index slot outside → Outward name (outer :: around) outside final →
          Outward name (inner :: outer :: around) slot final

/-! ## The makings of closures in a unit -/

/-- A list of instructions makes the closures of the given lambdas, the first of which has the
number `unit`, in their order; each making is followed by the cells to hand over. -/
structure Makes (s : Scope) (ls : List Lambda) (unit : Nat) (code : List Instruction) : Prop where
  made : code.filterMap Instruction.madeUnit? = List.range' unit ls.length
  operands : ∀ i l, ls[i]? = some l → ∃ before dst after,
    code = before ++ .createLambda dst l.params.length (l.handed s).length (unit + i) ::
      ((l.handed s).map (.readCell 0) ++ after)

namespace Makes

variable {s : Scope} {ls ls' : List Lambda} {unit : Nat} {code code' : List Instruction}

/-- Code without a closure makes none. -/
theorem none (h : code.filterMap Instruction.madeUnit? = []) : Makes s [] unit code :=
  ⟨h, fun i l hl => by simp at hl⟩

/-- Code that makes some closures, followed by code that makes the next ones, makes them all in
their order. -/
theorem append (h : Makes s ls unit code) (h' : Makes s ls' (unit + ls.length) code') :
    Makes s (ls ++ ls') unit (code ++ code') where
  made := by
    rw [List.filterMap_append, h.made, h'.made, List.length_append, List.range'_append_1]
  operands i l hl := by
    rcases Nat.lt_or_ge i ls.length with hi | hi
    · rw [List.getElem?_append_left hi] at hl
      obtain ⟨before, dst, after, rfl⟩ := h.operands i l hl
      exact ⟨before, dst, after ++ code', by simp⟩
    · rw [List.getElem?_append_right hi] at hl
      obtain ⟨before, dst, after, rfl⟩ := h'.operands (i - ls.length) l hl
      have number : unit + ls.length + (i - ls.length) = unit + i := by omega
      exact ⟨code ++ before, dst, after, by simp [number]⟩

/-- An instruction that makes no closure does not matter. -/
theorem cons {i : Instruction} (other : i.madeUnit? = .none) (h : Makes s ls unit code) :
    Makes s ls unit (i :: code) := by
  have first : Makes s [] unit [i] := .none (List.filterMap_cons_none other)
  exact first.append h

/-- An instruction that makes no closure may follow. -/
theorem concat {i : Instruction} (h : Makes s ls unit code) (other : i.madeUnit? = .none) :
    Makes s ls unit (code ++ [i]) := by
  have last : Makes s [] (unit + ls.length) [i] := .none (List.filterMap_cons_none other)
  have whole := h.append last
  rwa [List.append_nil] at whole

end Makes

namespace Piece

/-- Wherever the piece stands, its code makes the closures of its lambdas. -/
def Wired (s : Scope) (p : Piece) : Prop :=
  ∀ table top start unit, Makes s p.lambdas unit (p.code table top start unit)

namespace Wired

variable {s : Scope} {p q : Piece}

/-- No code makes the closures of no lambdas. -/
theorem silent (s : Scope) : (silent []).Wired s := fun _ _ _ _ => .none rfl

/-- An instruction that is no making of a closure makes none. -/
theorem instruction {i : Nat → Instruction} (h : ∀ top, (i top).madeUnit? = none) :
    (instruction i).Wired s :=
  fun _ top _ _ => .none (List.filterMap_cons_none (h top))

/-- The same for an instruction that names a text. -/
theorem naming {text : String} {i : Nat → Nat → Instruction}
    (h : ∀ top number, (i top number).madeUnit? = none) : (naming text i).Wired s :=
  fun table top _ _ => .none (List.filterMap_cons_none (h top (table.number text)))

/-- Wired pieces may follow one another: the second one goes on with the numbers. -/
theorem append (h : p.Wired s) (h' : q.Wired s) : (p ++ q).Wired s :=
  fun table top start unit => (h table top start unit).append (h' table top _ _)

/-- Raising a piece changes registers, not closures. -/
theorem raised (h : p.Wired s) : p.raised.Wired s :=
  fun table top start unit => h table (top + 1) start unit

/-- A condition makes the closures of its parts; the branch between them makes none. -/
theorem conditional (h : p.Wired s) (h' : q.Wired s) : (conditional p q).Wired s :=
  fun table top start unit => (h table top start unit).append ((h' table top _ _).cons rfl)

/-- The same for a loop and its two jumps. -/
theorem loop (h : p.Wired s) (h' : q.Wired s) : (loop p q).Wired s :=
  fun table top start unit =>
    (h table top start unit).append (((h' table top _ _).concat rfl).cons rfl)

/-- The making of a closure makes that of its lambda, and the cells to hand over follow it. -/
theorem closure (s : Scope) (l : Lambda) : (closure s l).Wired s := by
  intro table top start unit
  constructor
  · have operands : ((l.handed s).map (Instruction.readCell 0)).filterMap
        Instruction.madeUnit? = [] := by
      simp [Instruction.madeUnit?]
    simp [Piece.closure, operands, Instruction.madeUnit?]
  · intro i l' hl
    obtain ⟨rfl, rfl⟩ : i = 0 ∧ l' = l := by
      cases i <;> simp_all [Piece.closure]
    exact ⟨[], top, [], by simp [Piece.closure]⟩

/-- Reading a name makes no closure. -/
theorem read (b : Option Binding) : (read b).Wired s := by
  rcases b with _ | _ | _
  · exact silent s
  · exact instruction fun _ => rfl
  · exact instruction fun _ => rfl

/-- Assigning a name makes no closure. -/
theorem assign (b : Option Binding) : (assign b).Wired s := by
  rcases b with _ | _ | _
  · exact silent s
  · exact instruction fun _ => rfl
  · exact instruction fun _ => rfl

end Wired

end Piece

namespace Node

mutual

/-- The code of a tree makes the closures of the lambdas in it. -/
theorem layout_wired (s : Scope) : ∀ n : Node, n.Supported → (n.layout s).Wired s
  | .integer _, _ | .boolean _, _ | .nil, _ => .instruction fun _ => rfl
  | .string _, _ | .atom _, _ => .naming fun _ _ => rfl
  | .comment _, _ => .silent s
  | .var _ binding, _ => .read binding
  | .lambda params body scope, _ => .closure s ⟨params, body, scope⟩
  | .operator _ left right, h =>
    ((layout_wired s left h.1).append (layout_wired s right h.2).raised).append
      (.naming fun _ _ => rfl)
  | .call _ receiver args, h =>
    ((layout_wired s receiver h.1).append (layoutArguments_wired s args h.2)).append
      (.naming fun _ _ => rfl)
  | .invoke _ args binding, h =>
    ((Piece.Wired.read binding).append (layoutArguments_wired s args h.2)).append
      (.instruction fun _ => rfl)
  | .block [], _ => .instruction fun _ => rfl
  | .block (item :: items), h =>
    (layout_wired s item h.1).append (layoutAll_wired s items h.2)
  | .conditional condition body, h =>
    (layout_wired s condition h.1).conditional (layout_wired s body h.2)
  | .loop condition body, h => (layout_wired s condition h.1).loop (layout_wired s body h.2)
  | .step _ _, h => by
    obtain ⟨name, index, rfl⟩ := h
    exact .naming fun _ _ => rfl
  | .assign _ value binding, h => (layout_wired s value h.2).append (.assign binding)

/-- The code of trees one after the other makes the closures of the lambdas in them. -/
theorem layoutAll_wired (s : Scope) :
    ∀ ns : List Node, SupportedAll ns → (layoutAll s ns).Wired s
  | [], _ => .silent s
  | n :: ns, h => (layout_wired s n h.1).append (layoutAll_wired s ns h.2)

/-- The code of arguments makes the closures of the lambdas in them. -/
theorem layoutArguments_wired (s : Scope) :
    ∀ args : List Node, SupportedAll args → (layoutArguments s args).Wired s
  | [], _ => .silent s
  | arg :: args, h => ((layout_wired s arg h.1).append (layoutArguments_wired s args h.2)).raised

end

end Node

/-! ## Handed cells -/

/-- Where values are found at most once, they are found at one position. -/
theorem position_unique {α β : Type} {f : α → Option β} {c : β} :
    ∀ {l : List α}, (l.filterMap f).Nodup → ∀ {i j : Nat} {a b : α},
      l[i]? = some a → l[j]? = some b → f a = some c → f b = some c → i = j
  | x :: xs, distinct, i, j, a, b, hi, hj, ha, hb => by
    have rest : (xs.filterMap f).Nodup :=
      distinct.sublist ((List.sublist_cons_self x xs).filterMap f)
    have apart {k : Nat} {d : α} (hx : f x = some c) (hk : xs[k]? = some d) (hd : f d = some c) :
        False := by
      rw [List.filterMap_cons_some hx, List.nodup_cons] at distinct
      exact distinct.1 (List.mem_filterMap.mpr ⟨d, List.mem_of_getElem? hk, hd⟩)
    cases i with
    | zero =>
      obtain rfl := Option.some.inj hi
      cases j with
      | zero => rfl
      | succ j => exact (apart ha hj hb).elim
    | succ i =>
      cases j with
      | zero =>
        obtain rfl := Option.some.inj hj
        exact (apart hb hi ha).elim
      | succ j => exact congrArg (· + 1) (position_unique rest hi hj ha hb)

namespace CompiledUnit

variable {u : CompiledUnit}

/-- The code of a unit makes the closures of the lambdas in it. -/
theorem Consistent.makes (h : u.Consistent) :
    Makes u.scope u.body.lambdas 0 u.code.instructions.toList := by
  obtain ⟨table, shape⟩ := h.shape
  have body := Node.layout_wired u.scope u.body h.supported table u.scope.numLocals
    (Lambda.prologue u.scope).length 0
  rw [Node.lambdas_layout] at body
  have prologue : Makes u.scope [] 0 (Lambda.prologue u.scope) :=
    .none (by simp [Lambda.prologue, Instruction.madeUnit?])
  rw [shape.instructions]
  exact (prologue.append body).concat rfl

/-- The operands after the making of a closure name the cells of this unit for the names that the
closure receives. -/
theorem Consistent.hands (h : u.Consistent) {l : Lambda} {scope : Scope} {index slot : Nat}
    {name : String} (lambda : u.body.lambdas[index]? = some l) (known : l.scope = some scope)
    (received : scope.capturedNames[slot]? = some name) :
    ∃ outside, u.scope.slot? name = some outside ∧ u.code.Hands index slot outside := by
  obtain ⟨table, shape⟩ := h.shape
  have makes := h.makes
  obtain ⟨before, dst, after, code⟩ := makes.operands index l lambda
  rw [Nat.zero_add] at code
  have names : l.received = scope.capturedNames := by simp [Lambda.received, known]
  have supplied := (shape.makeable l (List.mem_of_getElem? lambda)).supplied
  obtain ⟨outside, found⟩ := supplied name (names ▸ List.mem_of_getElem? received)
  have operand : (l.handed u.scope)[slot]? = some outside := by
    rw [Lambda.handed, getElem?_filterMap_of_forall supplied, names, received, Option.bind_some,
      found]
  have bound := (List.getElem?_eq_some_iff.mp operand).1
  have here : u.code.instructions[before.length]? =
      some (.createLambda dst l.params.length (l.handed u.scope).length index) := by
    rw [← Array.getElem?_toList, code, List.getElem?_append_right (Nat.le_refl _), Nat.sub_self]
    rfl
  refine ⟨outside, found, before.length, dst, _, _, here, ?_, bound, ?_⟩
  · intro pos' i hi made
    have distinct : (u.code.instructions.toList.filterMap Instruction.madeUnit?).Nodup :=
      makes.made ▸ List.nodup_range'
    rw [← Array.getElem?_toList] at hi here
    exact position_unique distinct hi here made rfl
  · have offset : before.length + 1 + slot - before.length = slot + 1 := by omega
    rw [← Array.getElem?_toList, code, List.getElem?_append_right (by omega), offset,
      List.getElem?_cons_succ, List.getElem?_append_left (by simpa using bound), List.getElem?_map,
      operand]
    rfl

end CompiledUnit

/-! ## Following a name outward -/

/-- A cell that a unit receives is the position of its name among the received names. -/
theorem Scope.capturedNames_slot {params : List String} {body : Node} {name : String} {slot : Nat}
    (received : name ∈ (Scope.ofUnit params body).capturedNames)
    (found : (Scope.ofUnit params body).slot? name = some slot) :
    (Scope.ofUnit params body).capturedNames[slot]? = some name := by
  have below := (slot_lt_captured_ofUnit found).mpr received
  rw [Scope.capturedNames, List.getElem?_take_of_lt below]
  exact NameTable.index?_eq_some_iff.mp found

/-- A name that the innermost unit of a chain declares or receives is declared by some unit of the
chain, and following the innermost unit's cell for it outward leads to that unit's cell for it. -/
theorem Nesting.outward {program : Node} {u : CompiledUnit} {around : List CompiledUnit}
    (h : Nesting program (u :: around)) {name : String}
    (known : u.Declares name ∨ name ∈ u.scope.capturedNames) :
    ∃ inner d outer, u :: around = inner ++ d :: outer ∧ d.Declares name ∧
      (∀ v ∈ inner, ¬ v.Declares name) ∧
        ∀ slot, u.scope.slot? name = some slot →
          ∃ final, d.scope.slot? name = some final ∧ Outward name (inner ++ [d]) slot final := by
  generalize units : u :: around = chain at h
  induction h generalizing u around with
  | outermost resolved compiled =>
    cases units
    obtain ⟨-, none, -⟩ := Node.resolveProgram_ok resolved
    have own := known.resolve_right (by simp [none])
    exact ⟨[], _, [], rfl, own, by simp, fun slot found => ⟨slot, found, .arrived⟩⟩
  | @inside outer around l scope code index nesting lambda l_scope compiled ih =>
    cases units
    have consistent := nesting.consistent outer (by simp)
    by_cases own : CompiledUnit.Declares ⟨l.params, scope, l.body, code, index⟩ name
    · exact ⟨[], _, _, rfl, own, by simp, fun slot found => ⟨slot, found, .arrived⟩⟩
    have received := known.resolve_left own
    have inner := consistent.inner lambda l_scope compiled
    obtain rfl : scope = l.ownScope := inner.scope
    have free : l.Free name := received_iff_free.mp received
    -- a name that is free in the lambda is declared or received by the unit around it
    have outside : outer.Declares name ∨ name ∈ outer.scope.capturedNames :=
      consistent.scope ▸ declares_or_received_of_free (List.mem_of_getElem? lambda) free
    obtain ⟨inner, d, rest, eq, declares, undeclared, follow⟩ := ih outside rfl
    refine ⟨_ :: inner, d, rest, by rw [eq, List.cons_append], declares, ?_, ?_⟩
    · intro v hv
      rcases List.mem_cons.mp hv with rfl | hv
      · exact own
      · exact undeclared v hv
    · intro slot found
      -- one step outward: the operand for this cell names the cell of the unit around
      have position := Scope.capturedNames_slot received found
      obtain ⟨slot', found', hands⟩ := consistent.hands lambda l_scope position
      obtain ⟨final, home, path⟩ := follow slot' found'
      obtain ⟨tail, first⟩ : ∃ tail, inner ++ [d] = outer :: tail := by
        cases inner with
        | nil => exact ⟨[], congrArg (· :: []) (List.cons.inj eq).1.symm⟩
        | cons v vs => exact ⟨vs ++ [d], congrArg (· :: (vs ++ [d])) (List.cons.inj eq).1.symm⟩
      rw [first] at path
      refine ⟨final, home, ?_⟩
      rw [List.cons_append, first]
      exact .handed position found' hands path

/-- **Lexical addressing.** A name that occurs in a unit is declared by that unit or one around it.
If the innermost such unit is the unit itself and no lambda in it needs the name, the name is used
through the unit's register. Otherwise it is used through a cell, and following the handed cells
outward leads to the cell that the declaring unit has for the name, one that is not received. -/
theorem occurrence_addressed {program : Node} {u : CompiledUnit} {around : List CompiledUnit}
    (h : Nesting program (u :: around)) {o : Occurrence} (ho : o ∈ u.body.occurrences) :
    ∃ inner d outer, u :: around = inner ++ d :: outer ∧ d.Declares o.name ∧
      (∀ v ∈ inner, ¬ v.Declares o.name) ∧
        (inner = [] ∧ ¬ u.body.Lends o.name →
          ∃ register, u.scope.register? o.name = some register ∧
            o.binding = some (.register register)) ∧
        (¬ (inner = [] ∧ ¬ u.body.Lends o.name) →
          ∃ slot final, o.binding = some (.cell slot) ∧ Outward o.name (inner ++ [d]) slot final ∧
            d.scope.slot? o.name = some final ∧ d.scope.captured ≤ final) := by
  have consistent := h.consistent u (by simp)
  have known : u.Declares o.name ∨ o.name ∈ u.scope.capturedNames :=
    consistent.scope ▸ declares_or_received ho
  obtain ⟨inner, d, outer, eq, declares, undeclared, follow⟩ := h.outward known
  have binding := consistent.resolved.bound o ho
  refine ⟨inner, d, outer, eq, declares, undeclared, ?_, ?_⟩
  · rintro ⟨rfl, unlent⟩
    obtain rfl : u = d := (List.cons.inj eq).1
    -- the name is declared here and no lambda needs it, so there is no reason for a cell
    have noSlot : u.scope.slot? o.name = none := by
      refine Option.eq_none_iff_forall_ne_some.mpr fun slot found => ?_
      rw [consistent.scope] at found
      rcases slot?_ofUnit.mp ⟨slot, found⟩ with received | ⟨-, lent⟩
      · exact not_declares_of_received received declares
      · exact unlent lent
    have register : ∃ register, u.scope.register? o.name = some register := by
      rw [consistent.scope]
      exact register?_ofUnit.mpr ⟨declares, .inr unlent⟩
    obtain ⟨register, found⟩ := register
    exact ⟨register, found, by rw [binding, Scope.binding?, noSlot, found]; rfl⟩
  · intro elsewhere
    -- the name is lent, or it is received from further out
    have cell : ∃ slot, u.scope.slot? o.name = some slot := by
      rw [consistent.scope, slot?_ofUnit]
      cases inner with
      | nil =>
        obtain rfl : u = d := (List.cons.inj eq).1
        exact .inr ⟨declares, Classical.not_not.mp fun unlent => elsewhere ⟨rfl, unlent⟩⟩
      | cons v vs =>
        obtain rfl : u = v := (List.cons.inj eq).1
        have received := known.resolve_left (undeclared u (by simp))
        exact .inl (consistent.scope ▸ received)
    obtain ⟨slot, found⟩ := cell
    obtain ⟨final, home, path⟩ := follow slot found
    have own : d.Consistent := h.consistent d (by simp [eq])
    refine ⟨slot, final, by rw [binding, Scope.binding?, found]; rfl, path, home, ?_⟩
    rw [own.scope] at home ⊢
    -- the cell belongs to the unit that declares the name, so it is none of the received ones
    refine Nat.le_of_not_lt fun below => ?_
    exact not_declares_of_received ((slot_lt_captured_ofUnit home).mp below) declares

/-- `x = 1; a => => x + a`: the lambda in the middle only passes `x` on. -/
def passingProgram : Node :=
  .block [.assign "x" (.integer 1) none,
    .lambda ["a"] (.lambda [] (.operator "+" (.var "x" none) (.var "a" none)) none) none]

/-- The innermost unit uses `x` through its cell 0, which leads to a unit that declares `x`. -/
theorem passingProgram_addressed : ∃ u v program,
    Nesting passingProgram [u, v, program] ∧
      ⟨"x", some (.cell 0), false⟩ ∈ u.body.occurrences ∧
        ∃ inner d outer final, [u, v, program] = inner ++ d :: outer ∧ d.Declares "x" ∧
          Outward "x" (inner ++ [d]) 0 final ∧ d.scope.slot? "x" = some final := by
  have program : Nesting passingProgram [_] := .outermost rfl rfl
  have middle : Nesting passingProgram [_, _] :=
    @Nesting.inside _ _ _ _ _ _ 0 program rfl rfl rfl
  have innermost : Nesting passingProgram [_, _, _] :=
    @Nesting.inside _ _ _ _ _ _ 0 middle rfl rfl rfl
  obtain ⟨inner, d, outer, eq, declares, -, register, cell⟩ :=
    occurrence_addressed innermost List.mem_cons_self
  refine ⟨_, _, _, innermost, List.mem_cons_self, inner, d, outer, ?_⟩
  obtain ⟨slot, final, bound, path, home, -⟩ := cell fun own => by
    obtain ⟨_, _, bound⟩ := register own
    cases bound
  cases bound
  exact ⟨final, eq, declares, path, home⟩

end ClosureLang
