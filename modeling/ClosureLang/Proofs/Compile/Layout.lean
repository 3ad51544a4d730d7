import ClosureLang.Compile.Unit
import ClosureLang.Proofs.Scope.Names

/-!
# The layout of a unit

What a tree adds to its unit can be said without emitting it. A piece of code knows the literals it
names, the lambdas it makes closures of, how far it reaches above the stack position and how many
instructions it has; given the literals of the whole unit and the place where it stands, it is a
list of instructions. Pieces are put together from the pieces of the parts of a tree, and every
branch knows its target because the sizes are known before any instruction is.

Everything that is known of the code of a unit is shown of pieces. The emitter is needed once, to
see that it follows the layout; from then on a property of code is a property of pieces that goes
through the few ways in which they are put together: nothing, one instruction, one piece after the
other, the same piece one register further up, a condition, a loop and the making of a closure. So
each of the modules about code has one short lemma for each of these, and then a recursion over
trees that only says which piece belongs to which node.

A layout exists for every tree. For a tree without code it is of no meaning; `Node.Supported` says
of which trees there is code, and an emission that succeeds shows it.
-/

set_option autoImplicit false

namespace ClosureLang

/-- The number of a literal in the table of its unit. -/
def NameTable.number (t : NameTable) (text : String) : Nat := (t.index? text).getD 0

namespace Lambda

/-- The names that the lambda receives from the unit around it. -/
def received (l : Lambda) : List String := (l.scope.map Scope.capturedNames).getD []

/-- The cells that a unit with scope `s` hands over to a closure of the lambda. -/
def handed (s : Scope) (l : Lambda) : List Nat := l.received.filterMap s.slot?

/-- The unit that the lambda is compiled to. -/
def unit (l : Lambda) : Code :=
  match l.emit with
  | .ok inner => inner.code
  | .error _ => default

end Lambda

/-- A piece of a unit's code. -/
structure Piece where
  /-- The literals that it names, in the order in which it names them. -/
  texts : List String
  /-- The lambdas that it makes closures of, in order. -/
  lambdas : List Lambda
  /-- How many registers above the stack position it uses. -/
  height : Nat
  /-- How many instructions it has. -/
  size : Nat
  /-- Its instructions, by the literals of the unit, the stack position, its own position and the
  number of units before its own. -/
  code : NameTable → Nat → Nat → Nat → List Instruction

namespace Piece

/-- No code, for something with lambdas in it. -/
def silent (lambdas : List Lambda) : Piece := ⟨[], lambdas, 0, 0, fun _ _ _ _ => []⟩

/-- One instruction, by the stack position. -/
def instruction (i : Nat → Instruction) : Piece := ⟨[], [], 0, 1, fun _ top _ _ => [i top]⟩

/-- One instruction, by the stack position and the number of a literal. -/
def naming (text : String) (i : Nat → Nat → Instruction) : Piece :=
  ⟨[text], [], 0, 1, fun table top _ _ => [i top (table.number text)]⟩

/-- One piece after the other. -/
def append (p q : Piece) : Piece where
  texts := p.texts ++ q.texts
  lambdas := p.lambdas ++ q.lambdas
  height := max p.height q.height
  size := p.size + q.size
  code table top start unit :=
    p.code table top start unit ++ q.code table top (start + p.size) (unit + p.lambdas.length)

instance : Append Piece := ⟨append⟩

/-- The piece with its stack position one register further up. -/
def raised (p : Piece) : Piece :=
  { p with height := p.height + 1, code := fun table top => p.code table (top + 1) }

/-- A condition, and a body that is skipped unless the condition holds. -/
def conditional (condition body : Piece) : Piece where
  texts := condition.texts ++ body.texts
  lambdas := condition.lambdas ++ body.lambdas
  height := max condition.height body.height
  size := condition.size + 1 + body.size
  code table top start unit :=
    condition.code table top start unit ++
      .branchUnless top (start + (condition.size + 1 + body.size)) ::
        body.code table top (start + (condition.size + 1)) (unit + condition.lambdas.length)

/-- A condition, a body that is skipped unless the condition holds, and the way back. -/
def loop (condition body : Piece) : Piece where
  texts := condition.texts ++ body.texts
  lambdas := condition.lambdas ++ body.lambdas
  height := max condition.height body.height
  size := condition.size + 1 + body.size + 1
  code table top start unit :=
    condition.code table top start unit ++
      .branchUnless top (start + (condition.size + 1 + body.size + 1)) ::
        (body.code table top (start + (condition.size + 1)) (unit + condition.lambdas.length) ++
          [.jump start])

/-- The making of a closure, with the cells to hand over as operands. -/
def closure (s : Scope) (l : Lambda) : Piece where
  texts := []
  lambdas := [l]
  height := 0
  size := 1 + l.received.length
  code _ top _ unit :=
    .createLambda top l.params.length (l.handed s).length unit ::
      (l.handed s).map (.readCell 0)

/-- The reading of a variable. -/
def read : Option Binding → Piece
  | some (.register index) => instruction fun top => .readRegister top index
  | some (.cell slot) => instruction fun top => .readCell top slot
  | none => silent []

/-- The assignment of the value at the stack position to a variable. -/
def assign : Option Binding → Piece
  | some (.register index) => instruction fun top => .storeRegister index top
  | some (.cell slot) => instruction fun top => .storeCell slot top
  | none => silent []

/-- The step of a variable in a register. -/
def step (direction : Step) : Node → Piece
  | .var _ (some (.register index)) =>
    naming direction.symbol fun _ number => .callPlain index index number
  | operand => silent operand.lambdas

end Piece

namespace Node

mutual

/-- What a tree adds to a unit with scope `s`. -/
def layout (s : Scope) : Node → Piece
  | .integer value => .instruction fun top => .store top (.int value)
  | .string text => .naming text fun top number => .store top (.string number)
  | .atom name => .naming name fun top number => .store top (.atom number)
  | .boolean value => .instruction fun top => .store top (.bool value)
  | .nil => .instruction fun top => .store top .nil
  | .var _ binding => .read binding
  | .operator name left right =>
    left.layout s ++ (right.layout s).raised ++
      .naming name fun top number => .callOperator top top number
  | .call method receiver args =>
    receiver.layout s ++ layoutArguments s args ++
      .naming method fun top number => .callMethod top top args.length number
  | .invoke _ args binding =>
    .read binding ++ layoutArguments s args ++ .instruction fun top => .invoke top top args.length
  | .block [] => .instruction fun top => .store top .nil
  | .block (item :: items) => item.layout s ++ layoutAll s items
  | .conditional condition body => .conditional (condition.layout s) (body.layout s)
  | .loop condition body => .loop (condition.layout s) (body.layout s)
  | .step direction operand => .step direction operand
  | .assign _ value binding => value.layout s ++ .assign binding
  | .lambda params body scope => .closure s ⟨params, body, scope⟩
  | node => .silent node.lambdas

/-- What the trees of a list add, one after the other. -/
def layoutAll (s : Scope) : List Node → Piece
  | [] => .silent []
  | node :: nodes => node.layout s ++ layoutAll s nodes

/-- What arguments add, each one register further up. -/
def layoutArguments (s : Scope) : List Node → Piece
  | [] => .silent []
  | arg :: args => (arg.layout s ++ layoutArguments s args).raised

end

end Node

/-! ## Trees that have code -/

namespace Node

mutual

/-- There are instructions for the tree: all its names are bound, and steps are applied to variables
in registers only. The bodies of lambdas are units of their own and do not count. -/
def Supported : Node → Prop
  | .integer _ | .string _ | .atom _ | .boolean _ | .nil | .lambda .. | .comment _ => True
  | .var _ binding => binding ≠ none
  | .operator _ left right => left.Supported ∧ right.Supported
  | .call _ receiver args => receiver.Supported ∧ SupportedAll args
  | .invoke _ args binding => binding ≠ none ∧ SupportedAll args
  | .block items => SupportedAll items
  | .conditional condition body => condition.Supported ∧ body.Supported
  | .loop condition body => condition.Supported ∧ body.Supported
  | .step _ operand => ∃ name index, operand = .var name (some (.register index))
  | .assign _ value binding => binding ≠ none ∧ value.Supported
  | .instanceVar _ | .attr .. | .attrAssign .. | .importPath _ | .definition .. | .classDef ..
  | .has .. => False

/-- There are instructions for all trees of a list. -/
def SupportedAll : List Node → Prop
  | [] => True
  | node :: nodes => node.Supported ∧ SupportedAll nodes

end

end Node

namespace Lambda

/-- The move of the boxed parameters to their cells. -/
def prologue (s : Scope) : List Instruction :=
  s.boxedParams.map fun (register, slot) => .storeCell slot register

end Lambda

/-! ## Handed cells -/

/-- If every item is kept, positions stay. -/
theorem getElem?_filterMap_of_forall {α β : Type} {f : α → Option β} {l : List α}
    (all : ∀ a ∈ l, ∃ b, f a = some b) (i : Nat) : (l.filterMap f)[i]? = l[i]?.bind f := by
  induction l generalizing i with
  | nil => simp
  | cons x xs ih =>
    obtain ⟨b, hb⟩ := all x (by simp)
    have rest := ih fun a ha => all a (List.mem_cons_of_mem x ha)
    rw [List.filterMap_cons_some hb]
    cases i with
    | zero => simp [hb]
    | succ i => simpa using rest i

/-- A unit hands over as many cells as the lambda receives, if it has one for each name. -/
theorem Lambda.length_handed {s : Scope} {l : Lambda}
    (h : ∀ name ∈ l.received, ∃ slot, s.slot? name = some slot) :
    (l.handed s).length = l.received.length := by
  rw [handed, List.length_filterMap_eq_countP]
  refine List.countP_eq_length.mpr fun name mem => ?_
  obtain ⟨slot, found⟩ := h name mem
  rw [found]
  rfl

/-! ## The parts of a piece -/

namespace Piece

variable (p q : Piece) (table : NameTable) (top start unit : Nat)

@[simp] theorem texts_append : (p ++ q).texts = p.texts ++ q.texts := rfl

@[simp] theorem lambdas_append : (p ++ q).lambdas = p.lambdas ++ q.lambdas := rfl

@[simp] theorem height_append : (p ++ q).height = max p.height q.height := rfl

@[simp] theorem size_append : (p ++ q).size = p.size + q.size := rfl

@[simp] theorem code_append :
    (p ++ q).code table top start unit =
      p.code table top start unit ++ q.code table top (start + p.size) (unit + p.lambdas.length) :=
  rfl

/-- Reading a variable makes no closure. -/
@[simp] theorem lambdas_read (b : Option Binding) : (read b).lambdas = [] := by
  rcases b with _ | _ | _ <;> rfl

/-- Assigning to a variable makes no closure. -/
@[simp] theorem lambdas_assign (b : Option Binding) : (assign b).lambdas = [] := by
  rcases b with _ | _ | _ <;> rfl

/-- The lambdas in the operand of a step are those of the step. -/
@[simp] theorem lambdas_step (direction : Step) (operand : Node) :
    (step direction operand).lambdas = operand.lambdas := by
  unfold step
  split <;> rfl

end Piece

namespace Node

mutual

/-- The layout of a tree makes closures of the lambdas in it. -/
@[simp] theorem lambdas_layout (s : Scope) : ∀ n : Node, (n.layout s).lambdas = n.lambdas
  | .operator _ left right => by
    simp [layout, lambdas, Piece.raised, Piece.naming, lambdas_layout s left,
      lambdas_layout s right]
  | .call _ receiver args => by
    simp [layout, lambdas, Piece.naming, lambdas_layout s receiver, lambdas_layoutArguments s args]
  | .invoke _ args binding => by
    simp [layout, lambdas, Piece.instruction, lambdas_layoutArguments s args]
  | .block [] => rfl
  | .block (item :: items) => by
    simp [layout, lambdas, lambdasAll, lambdas_layout s item, lambdas_layoutAll s items]
  | .conditional condition body => by
    simp [layout, lambdas, Piece.conditional, lambdas_layout s condition, lambdas_layout s body]
  | .loop condition body => by
    simp [layout, lambdas, Piece.loop, lambdas_layout s condition, lambdas_layout s body]
  | .assign _ value _ => by simp [layout, lambdas, lambdas_layout s value]
  | .step _ operand => by simp [layout, lambdas]
  | .var _ binding => by simp [layout, lambdas]
  | .integer _ | .string _ | .atom _ | .boolean _ | .nil | .lambda .. => rfl
  | .instanceVar _ | .attr .. | .attrAssign .. | .importPath _ | .definition .. | .classDef ..
  | .has .. | .comment _ => rfl

/-- The layout of trees has their lambdas, in their order. -/
theorem lambdas_layoutAll (s : Scope) :
    ∀ nodes : List Node, (layoutAll s nodes).lambdas = lambdasAll nodes
  | [] => rfl
  | node :: nodes => by
    simp [layoutAll, lambdasAll, lambdas_layout s node, lambdas_layoutAll s nodes]

/-- The layout of arguments has their lambdas, in their order. -/
theorem lambdas_layoutArguments (s : Scope) :
    ∀ args : List Node, (layoutArguments s args).lambdas = lambdasAll args
  | [] => rfl
  | arg :: args => by
    simp [layoutArguments, lambdasAll, Piece.raised, lambdas_layout s arg,
      lambdas_layoutArguments s args]

end

end Node

end ClosureLang
