import ClosureLang.Bytecode.Basic

/-!
# A machine for register code

What the instructions of a unit do to one frame. Values are the host's own, and so is whatever
happens behind a send or a call: it may depend on the contents of the frame's cells and on the
world, it may assign cells, which closures share with the frame, and change the world; it never
touches the registers. The operands after the making of a closure are read by that instruction and
are not executed.

The host is a parameter, so nothing is said of what a method does or of what the code of a closure
does when it is called. What is said is which values are handed over and where the answer goes. A
host may also have no answer, and then the machine has no next step.

The machine is defined on code as it is, and code that is not in order gets it stuck: a literal that
is not there, a making of a closure without its operands, a position past the end. In the code of a
compiled unit none of this happens. Runs are counted in steps, and end before the count is reached
if the unit returns or gets stuck.
-/

set_option autoImplicit false

namespace ClosureLang

/-- What a send or a call gives back. -/
structure Answer (V W : Type) where
  value : V
  /-- The cells of the frame that were assigned meanwhile, with what they hold now. -/
  written : Nat → Option V
  world : W

/-- The values that code works on, and what happens outside the frame. -/
structure Host (V W : Type) where
  integer : Int → V
  boolean : Bool → V
  nil : V
  string : String → V
  atom : String → V
  /-- Whether a value counts as true. -/
  holds : V → Bool
  /-- Sends a receiver a method with arguments, at the given contents of the cells. -/
  send : V → String → List V → List V → W → Option (Answer V W)
  /-- Calls a value with arguments, at the given contents of the cells. -/
  call : V → List V → List V → W → Option (Answer V W)
  /-- Makes a closure of a unit with so many parameters over the cells in the given slots. -/
  closure : Code → Nat → List Nat → W → V × W

/-- A frame: the state of one unit while it runs. -/
structure Frame (V W : Type) where
  pc : Nat
  registers : Nat → V
  cells : Nat → V
  world : W

/-- Where a run is after some steps. -/
inductive Outcome (V W : Type) where
  | running (f : Frame V W)
  | returned (value : V) (f : Frame V W)
  /-- There is no next step: a send or a call has no answer, or the code is not in order. -/
  | stuck

variable {V W : Type}

namespace Frame

/-- The frame at the next instruction. -/
def next (f : Frame V W) : Frame V W := { f with pc := f.pc + 1 }

/-- The frame with a value in a register. -/
def put (f : Frame V W) (register : Nat) (v : V) : Frame V W :=
  { f with registers := fun r => if r = register then v else f.registers r }

/-- The frame with a value in a cell. -/
def putCell (f : Frame V W) (slot : Nat) (v : V) : Frame V W :=
  { f with cells := fun k => if k = slot then v else f.cells k }

/-- The `argc` registers from `first` on. -/
def arguments (f : Frame V W) (first argc : Nat) : List V :=
  (List.range argc).map fun i => f.registers (first + i)

/-- What the first `refs` cells hold. -/
def contents (f : Frame V W) (refs : Nat) : List V := (List.range refs).map f.cells

/-- The frame after an answer, whose value goes to `dst`. -/
def receive (f : Frame V W) (dst : Nat) (a : Answer V W) : Frame V W :=
  { f.put dst a.value with
    cells := fun k => (a.written k).getD (f.cells k)
    world := a.world }

/-- Where a run is when the instruction that it waits at has its answer, or has none. -/
def resume (f : Frame V W) (dst : Nat) : Option (Answer V W) → Outcome V W
  | none => .stuck
  | some a => .running (f.receive dst a).next

end Frame

namespace Code

/-- The slots that the `refs` operands from `pos` on name. -/
def operands? (c : Code) : Nat → Nat → Option (List Nat)
  | _, 0 => some []
  | pos, refs + 1 =>
    match c.instructions[pos]? with
    | some (.readCell 0 slot) => (c.operands? (pos + 1) refs).map (slot :: ·)
    | _ => none

/-- The value that an immediate stands for. -/
def immediate? (c : Code) (host : Host V W) : Immediate → Option V
  | .int value => some (host.integer value)
  | .bool value => some (host.boolean value)
  | .nil => some host.nil
  | .string literal => (c.literals[literal]?).map host.string
  | .atom literal => (c.literals[literal]?).map host.atom

/-- Sends the method `literal` to the register `recv` with the `argc` registers after it. -/
def send (c : Code) (host : Host V W) (f : Frame V W) (dst recv argc literal : Nat) :
    Outcome V W :=
  match c.literals[literal]? with
  | none => .stuck
  | some method =>
    f.resume dst (host.send (f.registers recv) method (f.arguments (recv + 1) argc)
      (f.contents c.numRefs) f.world)

/-- What an instruction does. -/
def execute (c : Code) (host : Host V W) (f : Frame V W) : Instruction → Outcome V W
  | .store dst value =>
    match c.immediate? host value with
    | none => .stuck
    | some v => .running (f.put dst v).next
  | .callOperator dst recv literal => c.send host f dst recv 1 literal
  | .callMethod dst recv argc literal => c.send host f dst recv argc literal
  | .callPlain dst recv literal => c.send host f dst recv 0 literal
  | .branchUnless cond target =>
    .running (if host.holds (f.registers cond) then f.next else { f with pc := target })
  | .jump target => .running { f with pc := target }
  | .storeRegister register src => .running (f.put register (f.registers src)).next
  | .storeCell slot src => .running (f.putCell slot (f.registers src)).next
  | .readRegister dst register => .running (f.put dst (f.registers register)).next
  | .readCell dst slot => .running (f.put dst (f.cells slot)).next
  | .invoke dst target argc =>
    f.resume dst (host.call (f.registers target) (f.arguments (target + 1) argc)
      (f.contents c.numRefs) f.world)
  | .createLambda dst arity refs unit =>
    match c.units[unit]?, c.operands? (f.pc + 1) refs with
    | some inner, some slots =>
      let (v, world) := host.closure inner arity slots f.world
      .running { f.put dst v with pc := f.pc + 1 + refs, world }
    | _, _ => .stuck
  | .ret src => .returned (f.registers src) f

/-- One step. -/
def step (c : Code) (host : Host V W) (f : Frame V W) : Outcome V W :=
  match c.instructions[f.pc]? with
  | none => .stuck
  | some i => c.execute host f i

/-- So many steps, or fewer if the run ends before. -/
def run (c : Code) (host : Host V W) : Nat → Frame V W → Outcome V W
  | 0, f => .running f
  | n + 1, f =>
    match c.step host f with
    | .running f' => c.run host n f'
    | .returned v f' => .returned v f'
    | .stuck => .stuck

/-! ## Runs -/

variable {c : Code} {host : Host V W} {f f' : Frame V W} {m n : Nat}

/-- A step executes the instruction at the program counter. -/
theorem step_of_getElem? {i : Instruction} (h : c.instructions[f.pc]? = some i) :
    c.step host f = c.execute host f i := by
  rw [step, h]

/-- A run whose first step goes on is a run from there with one step less. -/
theorem run_succ_of_running (h : c.step host f = .running f') :
    c.run host (n + 1) f = c.run host n f' := by
  rw [run, h]

/-- Runs can be put together where the first one has not ended. -/
theorem run_add (h : c.run host m f = .running f') :
    c.run host (m + n) f = c.run host n f' := by
  induction m generalizing f with
  | zero =>
    cases h
    rw [Nat.zero_add]
  | succ m ih =>
    rw [run] at h
    rw [Nat.succ_add, run]
    cases hs : c.step host f with
    | running f₁ =>
      rw [hs] at h
      exact ih h
    | returned v f₁ =>
      rw [hs] at h
      cases h
    | stuck =>
      rw [hs] at h
      cases h

/-- A run that has ended does not go on. -/
theorem run_ended {o : Outcome V W} (h : c.run host m f = o) (ended : ∀ f', o ≠ .running f')
    (le : m ≤ n) : c.run host n f = o := by
  induction m generalizing n f with
  | zero => exact absurd h.symm (ended f)
  | succ m ih =>
    obtain ⟨n, rfl⟩ : ∃ n', n = n' + 1 := ⟨n - 1, by omega⟩
    rw [run] at h ⊢
    cases hs : c.step host f with
    | running f₁ =>
      rw [hs] at h
      exact ih h (by omega)
    | returned v f₁ =>
      rw [hs] at h
      exact h
    | stuck =>
      rw [hs] at h
      exact h

/-- Two ends of one run are one end. -/
theorem run_end_unique {o o' : Outcome V W} (h : c.run host m f = o) (h' : c.run host n f = o')
    (ended : ∀ f', o ≠ .running f') (ended' : ∀ f', o' ≠ .running f') : o = o' := by
  rcases Nat.le_total m n with le | le
  · rw [← h', run_ended h ended le]
  · rw [← h, run_ended h' ended' le]

end Code

end ClosureLang
