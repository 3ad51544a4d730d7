import ClosureLang.Proofs.Compile.Layout
import ClosureLang.Proofs.Machine.Basic

/-!
# Evaluating trees

What a tree of a unit means without code: it is evaluated from left to right over one variable for
each name. A variable that has a cell is seen by sends and calls, and may be assigned by them. The
meaning does not depend on registers, slots or instructions, except that the cells are listed in the
order of their slots.

Comments and steps have no value of their own. In their place stands what was last yielded in the
same position: position 0 is the result of the unit, and each operand stands one position further
than what it is an operand of.

A loop may go on forever, so an evaluation is given fuel, which bounds the rounds of every loop.
-/

set_option autoImplicit false

namespace ClosureLang

variable {V W : Type}

/-- What a tree is evaluated over. -/
structure Store (V W : Type) where
  /-- The value of each variable. -/
  vars : String → V
  /-- The value that was last yielded in each position. -/
  last : Nat → V
  world : W

/-- Why an evaluation has no value. -/
inductive Stop where
  /-- A send or a call has no answer. -/
  | stuck
  | outOfFuel
  deriving DecidableEq, Repr

namespace Store

/-- The store after an assignment. -/
def assign (st : Store V W) (name : String) (v : V) : Store V W :=
  { st with vars := fun x => if x = name then v else st.vars x }

/-- The values of the variables that have cells. -/
def contents (st : Store V W) (s : Scope) : List V := s.refs.entries.map st.vars

/-- The store after cells were assigned from outside. -/
def receive (st : Store V W) (s : Scope) (a : Answer V W) : Store V W where
  vars x := ((s.slot? x).bind a.written).getD (st.vars x)
  last := st.last
  world := a.world

/-- A value is yielded in a position. -/
def yield (st : Store V W) (position : Nat) (v : V) : Except Stop (V × Store V W) :=
  .ok (v, { st with last := fun d => if d = position then v else st.last d })

/-- The store in which a unit begins. A variable is what its home holds: its cell if it has one and
its register otherwise; but the argument of a parameter with a cell is still in its register. -/
def enter (host : Host V W) (s : Scope) (f : Frame V W) : Store V W where
  vars x :=
    match s.register? x, s.slot? x with
    | some register, _ => f.registers register
    | none, some slot => f.cells slot
    | none, none => host.nil
  last d := f.registers (s.numLocals + d)
  world := f.world

end Store

/-- The value of an answer, and the store after it. There may be no answer. -/
def answered (s : Scope) (st : Store V W) : Option (Answer V W) → Except Stop (V × Store V W)
  | none => .error .stuck
  | some a => .ok (a.value, st.receive s a)

/-- Evaluates a condition and, while it holds, a body. The value is that of the condition that ended
the loop. -/
def repeatWhile (holds : V → Bool) (condition body : Store V W → Except Stop (V × Store V W)) :
    Nat → Store V W → Except Stop (V × Store V W)
  | 0, _ => .error .outOfFuel
  | fuel + 1, st => do
    let (v, st) ← condition st
    if holds v then
      let (_, st) ← body st
      repeatWhile holds condition body fuel st
    else return (v, st)

mutual

/-- The value of a tree in a position. -/
def evaluate (host : Host V W) (s : Scope) (fuel : Nat) :
    Node → Nat → Store V W → Except Stop (V × Store V W)
  | .integer value, d, st => st.yield d (host.integer value)
  | .string text, d, st => st.yield d (host.string text)
  | .atom name, d, st => st.yield d (host.atom name)
  | .boolean value, d, st => st.yield d (host.boolean value)
  | .nil, d, st => st.yield d host.nil
  | .var name _, d, st => st.yield d (st.vars name)
  | .operator name left right, d, st => do
    let (a, st) ← evaluate host s fuel left d st
    let (b, st) ← evaluate host s fuel right (d + 1) st
    let (v, st) ← answered s st (host.send a name [b] (st.contents s) st.world)
    st.yield d v
  | .call method receiver args, d, st => do
    let (a, st) ← evaluate host s fuel receiver d st
    let (bs, st) ← evaluateArguments host s fuel args d st
    let (v, st) ← answered s st (host.send a method bs (st.contents s) st.world)
    st.yield d v
  | .invoke name args _, d, st => do
    let (a, st) ← st.yield d (st.vars name)
    let (bs, st) ← evaluateArguments host s fuel args d st
    let (v, st) ← answered s st (host.call a bs (st.contents s) st.world)
    st.yield d v
  | .block [], d, st => st.yield d host.nil
  | .block (item :: items), d, st => do
    let (v, st) ← evaluate host s fuel item d st
    evaluateAll host s fuel items d v st
  | .conditional condition body, d, st => do
    let (v, st) ← evaluate host s fuel condition d st
    if host.holds v then evaluate host s fuel body d st else return (v, st)
  | .loop condition body, d, st =>
    repeatWhile host.holds (evaluate host s fuel condition d) (evaluate host s fuel body d) fuel st
  | .step direction (.var name _), d, st => do
    let (v, st) ←
      answered s st (host.send (st.vars name) direction.symbol [] (st.contents s) st.world)
    return (st.last d, st.assign name v)
  | .assign name value _, d, st => do
    let (v, st) ← evaluate host s fuel value d st
    return (v, st.assign name v)
  | .lambda params body scope, d, st =>
    let l : Lambda := ⟨params, body, scope⟩
    let (v, world) := host.closure l.unit params.length (l.handed s) st.world
    { st with world }.yield d v
  | .comment _, d, st => return (st.last d, st)
  | _, _, _ => .error .stuck

/-- The value of the last of some trees, or `v` if there are none. -/
def evaluateAll (host : Host V W) (s : Scope) (fuel : Nat) :
    List Node → Nat → V → Store V W → Except Stop (V × Store V W)
  | [], _, v, st => return (v, st)
  | item :: items, d, _, st => do
    let (v, st) ← evaluate host s fuel item d st
    evaluateAll host s fuel items d v st

/-- The values of arguments, the first of which stands in the position after `d`. -/
def evaluateArguments (host : Host V W) (s : Scope) (fuel : Nat) :
    List Node → Nat → Store V W → Except Stop (List V × Store V W)
  | [], _, st => return ([], st)
  | arg :: args, d, st => do
    let (v, st) ← evaluate host s fuel arg (d + 1) st
    let (vs, st) ← evaluateArguments host s fuel args (d + 1) st
    return (v :: vs, st)

end

end ClosureLang
