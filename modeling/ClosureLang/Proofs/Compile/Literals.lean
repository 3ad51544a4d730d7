import ClosureLang.Proofs.Compile.Nesting
import ClosureLang.Proofs.Machine.Operands

/-!
# The literals of a unit

A unit keeps the texts that its instructions name in a table of its own, and an instruction names a
text by its number there. What the instructions of a unit mention is what its tree mentions, in the
order in which the tree is evaluated: a string and an atom where they stand, an operator and a
method after their operands. The body of a lambda is a unit of its own and mentions nothing here.

The numbers are handed out while the instructions are emitted. So the table holds the texts that are
mentioned and no others, each once, and the numbers come up for the first time in their order.

A mention is more than its text: the same text may be a string in one instruction and a method in
the next, and then both name the same entry. `Piece.Mentions` therefore says two things of a piece:
which numbers its instructions name, for any table, and what they mention, for a table that has the
texts. The first gives the order of the numbers, the second that each of them leads back to the text
that it was emitted for.
-/

set_option autoImplicit false

namespace ClosureLang

/-! ## Mentioned texts -/

/-- What is named by a text of the literal table, with the text. -/
inductive Mention where
  | string (text : String)
  | atom (name : String)
  | operator (name : String)
  | method (name : String) (argc : Nat)
  /-- The method that a step sends to its variable. -/
  | step (symbol : String)
  deriving DecidableEq, Repr

/-- The text that the literal table has for a mention. -/
def Mention.text : Mention → String
  | string text | atom text | operator text | method text _ | step text => text

/-- What an instruction mentions, if its literal is in the table. -/
def Instruction.mention? (literals : List String) : Instruction → Option Mention
  | .store _ (.string number) => literals[number]?.map .string
  | .store _ (.atom number) => literals[number]?.map .atom
  | .callOperator _ _ number => literals[number]?.map .operator
  | .callMethod _ _ argc number => literals[number]?.map (.method · argc)
  | .callPlain _ _ number => literals[number]?.map .step
  | _ => none

namespace Node

mutual

/-- What a unit with this body mentions, in the order of its evaluation. -/
def mentions : Node → List Mention
  | .string text => [.string text]
  | .atom name => [.atom name]
  | .operator name left right => left.mentions ++ right.mentions ++ [.operator name]
  | .call method receiver args =>
    receiver.mentions ++ mentionsAll args ++ [.method method args.length]
  | .invoke _ args _ => mentionsAll args
  | .block items => mentionsAll items
  | .conditional condition body => condition.mentions ++ body.mentions
  | .loop condition body => condition.mentions ++ body.mentions
  | .step direction _ => [.step direction.symbol]
  | .assign _ value _ => value.mentions
  | _ => []

/-- What the trees of a list mention, one after the other. -/
def mentionsAll : List Node → List Mention
  | [] => []
  | node :: nodes => node.mentions ++ mentionsAll nodes

end

end Node

/-- The literal table of a unit is exact for what its body mentions. -/
structure Code.LiteralsFor (c : Code) (body : Node) : Prop where
  nodup : c.literals.Nodup
  /-- The operands of the instructions lead to the texts that the body mentions. -/
  mentions : c.instructions.toList.filterMap (Instruction.mention? c.literals) = body.mentions
  /-- The operands meet the numbers of the table for the first time in their order. -/
  numbers : (c.instructions.toList.filterMap Instruction.literal?).eraseDups =
    List.range c.literals.length
  /-- Nothing else is in the table, in particular nothing that a lambda inside mentions. -/
  entries : c.literals = (body.mentions.map Mention.text).eraseDups

/-! ## Numbers in their order -/

namespace NameTable

/-- The number of a text that is in the table leads back to the text. -/
theorem getElem?_number {t : NameTable} {text : String} (h : text ∈ t) :
    t.entries[t.number text]? = some text := by
  obtain ⟨i, found⟩ := exists_index? h
  rw [number, found]
  exact index?_eq_some_iff.mp found

/-- Numbered in the order of the table, its texts have the numbers from zero on. -/
theorem map_number_entries (t : NameTable) : t.entries.map t.number = List.range t.size := by
  refine List.ext_getElem (by simp [size]) fun i bound _ => ?_
  rw [List.length_map] at bound
  have found : t.index? t.entries[i] = some i :=
    index?_eq_some_iff.mpr (List.getElem?_eq_getElem bound)
  simp [number, found]

/-- Texts that are added to a table for the first time get its next numbers. -/
theorem map_number_eraseDups (texts : List String) :
    (texts.map ((∅ : NameTable).insertAll texts).number).eraseDups =
      List.range ((∅ : NameTable).insertAll texts).size := by
  have distinct : ∀ text ∈ texts, ∀ other ∈ texts,
      ((∅ : NameTable).insertAll texts).number text =
        ((∅ : NameTable).insertAll texts).number other → text = other := by
    intro text inside other inside' same
    have first := getElem?_number (mem_insertAll (t := ∅).mpr (.inr inside))
    have second := getElem?_number (mem_insertAll (t := ∅).mpr (.inr inside'))
    rw [same] at first
    exact Option.some.inj (first.symm.trans second)
  rw [eraseDups_map distinct, ← entries_insertAll_empty, map_number_entries]

end NameTable

/-! ## What pieces mention -/

/-- An instruction without a literal mentions nothing. -/
theorem Instruction.mention?_of_literal? {i : Instruction} (h : i.literal? = none)
    (literals : List String) : i.mention? literals = none := by
  cases i with
  | store dst value =>
    cases value with
    | string | atom => cases h
    | int | bool | nil => rfl
  | callOperator | callMethod | callPlain => cases h
  | _ => rfl

/-- Instructions without literals mention nothing and have no numbers. -/
theorem filterMap_eq_nil_of_literal? {is : List Instruction} (h : ∀ i ∈ is, i.literal? = none)
    (literals : List String) : is.filterMap Instruction.literal? = [] ∧
      is.filterMap (Instruction.mention? literals) = [] :=
  ⟨List.filterMap_eq_nil_iff.mpr h,
    List.filterMap_eq_nil_iff.mpr fun i mem => i.mention?_of_literal? (h i mem) literals⟩

/-- Wherever the piece stands, its literals are those of the mentions, in their order. -/
structure Piece.Mentions (ms : List Mention) (p : Piece) : Prop where
  texts : p.texts = ms.map Mention.text
  numbers : ∀ (table : NameTable) (top start unit : Nat),
    (p.code table top start unit).filterMap Instruction.literal? = p.texts.map table.number
  mentions : ∀ (table : NameTable) (top start unit : Nat), (∀ text ∈ p.texts, text ∈ table) →
    (p.code table top start unit).filterMap (Instruction.mention? table.entries) = ms

namespace Piece.Mentions

variable {ms ms' : List Mention} {p q : Piece}

/-- A piece that names no literals. -/
theorem nothing (texts : p.texts = [])
    (mute : ∀ table top start unit, ∀ i ∈ p.code table top start unit, i.literal? = none) :
    p.Mentions [] where
  texts := texts
  numbers table top start unit := by
    rw [texts, (filterMap_eq_nil_of_literal? (mute table top start unit) []).1, List.map_nil]
  mentions table top start unit _ :=
    (filterMap_eq_nil_of_literal? (mute table top start unit) table.entries).2

/-- No code has no mentions. -/
theorem silent (lambdas : List Lambda) : (silent lambdas).Mentions [] := .nothing rfl nofun

/-- An instruction that never names a literal has no mentions. -/
theorem instruction {i : Nat → Instruction} (mute : ∀ top, (i top).literal? = none) :
    (instruction i).Mentions [] :=
  .nothing rfl fun _ top _ _ _ mem => List.mem_singleton.mp mem ▸ mute top

/-- An instruction that names a literal. -/
theorem naming {mention : String → Mention} {i : Nat → Nat → Instruction} (text : String)
    (named : (mention text).text = text)
    (operand : ∀ top number, (i top number).literal? = some number)
    (resolved : ∀ top number literals,
      (i top number).mention? literals = literals[number]?.map mention) :
    (naming text i).Mentions [mention text] where
  texts := congrArg (fun t => [t]) named.symm
  numbers table top start unit := by
    simp only [Piece.naming, List.filterMap_cons, operand, List.filterMap_nil, List.map_cons,
      List.map_nil]
  mentions table top start unit inside := by
    have found := NameTable.getElem?_number (inside text List.mem_cons_self)
    simp only [Piece.naming, List.filterMap_cons, resolved, found, Option.map_some,
      List.filterMap_nil]

/-- Two parts with instructions between them and after them that name no literals. -/
theorem of_parts {whole : Piece} (h : p.Mentions ms) (h' : q.Mentions ms')
    (texts : whole.texts = p.texts ++ q.texts)
    (code : ∀ table top start unit, ∃ between after start' unit',
      whole.code table top start unit = p.code table top start unit ++ between ++
        q.code table top start' unit' ++ after ∧
      (∀ i ∈ between, i.literal? = none) ∧ ∀ i ∈ after, i.literal? = none) :
    whole.Mentions (ms ++ ms') where
  texts := by rw [texts, h.texts, h'.texts, List.map_append]
  numbers table top start unit := by
    obtain ⟨between, after, start', unit', parts, mute, mute'⟩ := code table top start unit
    rw [parts, List.filterMap_append, List.filterMap_append, List.filterMap_append, h.numbers,
      h'.numbers, (filterMap_eq_nil_of_literal? mute []).1,
      (filterMap_eq_nil_of_literal? mute' []).1, List.append_nil, List.append_nil, texts,
      List.map_append]
  mentions table top start unit inside := by
    obtain ⟨between, after, start', unit', parts, mute, mute'⟩ := code table top start unit
    rw [texts, List.forall_mem_append] at inside
    rw [parts, List.filterMap_append, List.filterMap_append, List.filterMap_append,
      h.mentions table top start unit inside.1, h'.mentions table top start' unit' inside.2,
      (filterMap_eq_nil_of_literal? mute _).2, (filterMap_eq_nil_of_literal? mute' _).2,
      List.append_nil, List.append_nil]

/-- Two pieces mention what the first one mentions and then what the second one does. -/
theorem append (h : p.Mentions ms) (h' : q.Mentions ms') : (p ++ q).Mentions (ms ++ ms') :=
  h.of_parts h' rfl fun _ _ start unit =>
    ⟨[], [], start + p.size, unit + p.lambdas.length, by simp, nofun, nofun⟩

/-- Before a piece that names no literals. -/
theorem before (h : p.Mentions ms) (h' : q.Mentions []) : (p ++ q).Mentions ms := by
  have whole := h.append h'
  rwa [List.append_nil] at whole

/-- The stack position plays no part in what is mentioned. -/
theorem raised (h : p.Mentions ms) : p.raised.Mentions ms :=
  ⟨h.texts, fun table top => h.numbers table (top + 1), fun table top => h.mentions table (top + 1)⟩

/-- The branch of a condition mentions nothing, so a condition mentions what its parts do. -/
theorem conditional (h : p.Mentions ms) (h' : q.Mentions ms') :
    (conditional p q).Mentions (ms ++ ms') := by
  refine h.of_parts h' rfl fun _ top start unit =>
    ⟨[.branchUnless top (start + (p.size + 1 + q.size))], [], start + (p.size + 1),
      unit + p.lambdas.length, ?_, ?_, nofun⟩
  · simp [Piece.conditional]
  · exact List.forall_mem_singleton.mpr rfl

/-- Neither the branch nor the jump of a loop mentions anything. -/
theorem loop (h : p.Mentions ms) (h' : q.Mentions ms') : (loop p q).Mentions (ms ++ ms') := by
  refine h.of_parts h' rfl fun _ top start unit =>
    ⟨[.branchUnless top (start + (p.size + 1 + q.size + 1))], [.jump start],
      start + (p.size + 1), unit + p.lambdas.length, ?_, ?_, ?_⟩
  · simp [Piece.loop]
  · exact List.forall_mem_singleton.mpr rfl
  · exact List.forall_mem_singleton.mpr rfl

/-- A lambda mentions nothing in the unit around it: its texts are in the table of its own unit. -/
theorem closure (s : Scope) (l : Lambda) : (closure s l).Mentions [] := by
  refine .nothing rfl fun _ _ _ _ i mem => ?_
  rcases List.mem_cons.mp mem with rfl | mem
  · rfl
  · obtain ⟨slot, -, rfl⟩ := List.mem_map.mp mem
    rfl

/-- Reading a name is no mention. -/
theorem read (binding : Option Binding) : (read binding).Mentions [] := by
  rcases binding with _ | _ | _
  · exact silent []
  · exact instruction fun _ => rfl
  · exact instruction fun _ => rfl

/-- Assigning a name is no mention. -/
theorem assign (binding : Option Binding) : (assign binding).Mentions [] := by
  rcases binding with _ | _ | _
  · exact silent []
  · exact instruction fun _ => rfl
  · exact instruction fun _ => rfl

end Piece.Mentions

namespace Node

mutual

/-- The code of a tree mentions what the tree mentions. -/
theorem layout_mentions (s : Scope) : ∀ {n : Node}, n.Supported →
    (n.layout s).Mentions n.mentions
  | .integer _, _ | .boolean _, _ | .nil, _ => .instruction fun _ => rfl
  | .string text, _ => .naming text rfl (fun _ _ => rfl) fun _ _ _ => rfl
  | .atom name, _ => .naming name rfl (fun _ _ => rfl) fun _ _ _ => rfl
  | .var _ binding, _ => .read binding
  | .operator name _ _, h =>
    ((layout_mentions s h.1).append (layout_mentions s h.2).raised).append
      (.naming name rfl (fun _ _ => rfl) fun _ _ _ => rfl)
  | .call method _ args, h =>
    ((layout_mentions s h.1).append (layoutArguments_mentions s h.2)).append
      (@Piece.Mentions.naming (.method · args.length) _ method rfl (fun _ _ => rfl)
        fun _ _ _ => rfl)
  | .invoke _ _ binding, h =>
    ((Piece.Mentions.read binding).append (layoutArguments_mentions s h.2)).before
      (.instruction fun _ => rfl)
  | .block [], _ => .instruction fun _ => rfl
  | .block (_ :: _), h => (layout_mentions s h.1).append (layoutAll_mentions s h.2)
  | .conditional _ _, h => (layout_mentions s h.1).conditional (layout_mentions s h.2)
  | .loop _ _, h => (layout_mentions s h.1).loop (layout_mentions s h.2)
  | .step direction _, h => by
    obtain ⟨name, index, rfl⟩ := h
    exact .naming direction.symbol rfl (fun _ _ => rfl) fun _ _ _ => rfl
  | .assign _ _ binding, h => (layout_mentions s h.2).before (.assign binding)
  | .lambda params body scope, _ => .closure s ⟨params, body, scope⟩
  | .comment _, _ => .silent []

/-- The trees of a list mention their texts one tree after the other. -/
theorem layoutAll_mentions (s : Scope) : ∀ {ns : List Node}, SupportedAll ns →
    (layoutAll s ns).Mentions (mentionsAll ns)
  | [], _ => .silent []
  | _ :: _, h => (layout_mentions s h.1).append (layoutAll_mentions s h.2)

/-- The same for arguments. -/
theorem layoutArguments_mentions (s : Scope) : ∀ {args : List Node}, SupportedAll args →
    (layoutArguments s args).Mentions (mentionsAll args)
  | [], _ => .silent []
  | _ :: _, h => ((layout_mentions s h.1).append (layoutArguments_mentions s h.2)).raised

end

end Node

/-! ## Units -/

namespace CompiledUnit

variable {u : CompiledUnit}

/-- The literal table of a unit starts empty and takes in the texts of the unit's code. -/
theorem Consistent.literals (h : u.Consistent) :
    u.code.literals = ((∅ : NameTable).insertAll (u.body.layout u.scope).texts).entries := by
  obtain ⟨e, emits, code⟩ := h.emitted
  obtain ⟨e₁, ran, rfl⟩ := Emit.unitOf_run emits
  have added := (Emit.node_emitted u.body ran rfl).literals
  rw [← code]
  exact congrArg NameTable.entries added

/-- In a unit that was resolved and emitted, the literal table is exact for what the body
mentions. -/
theorem Consistent.literalsFor (h : u.Consistent) : u.code.LiteralsFor u.body := by
  obtain ⟨table, shape⟩ := h.shape
  have layout := Node.layout_mentions u.scope h.supported
  have same : table = (∅ : NameTable).insertAll (u.body.layout u.scope).texts :=
    NameTable.eq_of_entries (shape.literals.symm.trans h.literals)
  have moves : ∀ i ∈ Lambda.prologue u.scope, i.literal? = none := by
    intro i mem
    obtain ⟨row, -, rfl⟩ := List.mem_map.mp mem
    rfl
  have ends : ∀ i ∈ [Instruction.ret u.scope.numLocals], i.literal? = none :=
    List.forall_mem_singleton.mpr rfl
  constructor
  · exact shape.literals ▸ table.nodup
  · rw [shape.instructions, shape.literals, List.filterMap_append, List.filterMap_append,
      (filterMap_eq_nil_of_literal? moves _).2, (filterMap_eq_nil_of_literal? ends _).2,
      layout.mentions _ _ _ _ shape.texts, List.nil_append, List.append_nil]
  · rw [shape.instructions, shape.literals, List.filterMap_append, List.filterMap_append,
      (filterMap_eq_nil_of_literal? moves []).1, (filterMap_eq_nil_of_literal? ends []).1,
      layout.numbers, List.nil_append, List.append_nil, same, NameTable.map_number_eraseDups]
    rfl
  · rw [h.literals, NameTable.entries_insertAll_empty, layout.texts]

end CompiledUnit

/-- **Literal tables are exact.** Every unit in the code of a program is the unit of some lambda of
the program, or of the program itself, and for each of them the literal table is exact: it has no
repeats, operands lead to the texts for which they were emitted, and the numbers are met in their
order. -/
theorem literals_exact {program : Node} {code : Code} (compiled : program.compile.2 = .ok code) :
    (∀ c, code.Contains c → ∃ u around, Nesting program (u :: around) ∧ u.code = c) ∧
    ∀ u around, Nesting program (u :: around) → u.code.LiteralsFor u.body :=
  ⟨fun _ inside => Nesting.of_contains compiled inside,
    fun u _ nesting => (nesting.consistent u List.mem_cons_self).literalsFor⟩

/-- `"at".at(1 + 2, i => { i++; i + :at })`: the string and the method share a literal, and the `+`
of the lambda is another one than that of the program. -/
theorem sharedText_literals :
    let i : Node := .var "i" none
    let body : Node := .block [.step .increment i, .operator "+" i (.atom "at")]
    let program : Node := .call "at" (.string "at")
      [.operator "+" (.integer 1) (.integer 2), .lambda ["i"] body none]
    let inner : Code := ⟨3, 0, #[.callPlain 0 0 0, .readRegister 1 0, .store 2 (.atom 1),
      .callOperator 1 1 2, .ret 1], ["++", "at", "+"], []⟩
    let code : Code := ⟨3, 0, #[.store 0 (.string 0), .store 1 (.int 1), .store 2 (.int 2),
      .callOperator 1 1 1, .createLambda 2 1 0 0, .callMethod 0 0 2 0, .ret 0],
      ["at", "+"], [inner]⟩
    program.compile.2 = .ok code ∧ code.Contains inner ∧
      program.mentions = [.string "at", .operator "+", .method "at" 2] ∧
      body.mentions = [.step "++", .atom "at", .operator "+"] ∧
      ∃ u around, Nesting program (u :: around) ∧ u.code = inner ∧ u.body.mentions = body.mentions ∧
        inner.LiteralsFor u.body := by
  intro i body program inner code
  have compiled : program.compile.2 = .ok code := by decide +kernel
  have inside : code.Contains inner := .inside .self List.mem_cons_self
  have outermost : Nesting program [⟨[], _, program.compile.1, code, 0⟩] :=
    .outermost rfl (Prod.ext rfl compiled)
  have nesting := @Nesting.inside program _ _ _ _ _ 0 outermost rfl rfl rfl
  exact ⟨compiled, inside, rfl, rfl, _, _, nesting, rfl, rfl,
    (literals_exact compiled).2 _ _ nesting⟩

end ClosureLang
