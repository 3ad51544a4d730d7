import ClosureLang.Rule.Builder

/-!
# Workshops

A workshop is where several builders, the forwards they hand out and the rule sets they become live
side by side. A forward stands for something as long as somebody holds it: the handle that came with
it, the builder that handed it out, or the rule set that the builder became. Rules do not hold the
forwards they name, so a rule may outlive what it refers to.

Builders, handles and rule sets are numbered in the order in which they come up. An operation on a
number that did not come up has no result. One that was used up or dropped can be dropped again,
which changes nothing; every other operation on it has no result.
-/

set_option autoImplicit false

namespace ClosureLang

/-- Who holds all forwards of a builder. -/
inductive Holder where
  /-- The builder, which is still in use. -/
  | builder
  /-- The rule set with the given number, which the builder became. -/
  | ruleSet (number : Nat)
  /-- The builder was dropped, or could not be finished. -/
  | nobody
  deriving DecidableEq, Repr, Inhabited

/-- A builder in a workshop. What its forwards stand for is kept after the builder is used up,
because a handle may still hold one of them. -/
structure OwnedBuilder where
  builder : Builder
  holder : Holder
  deriving Inhabited

/-- A handle: the forward it came with, and whether it still holds it. -/
structure Handle where
  target : Forward
  held : Bool
  deriving DecidableEq, Repr, Inhabited

/-- A rule set in a workshop, and whether it still exists. -/
structure OwnedSet where
  builder : Nat
  root : Rule
  held : Bool
  deriving Inhabited

/-- Builders, handles and rule sets, each list in the order of their numbers. -/
structure Workshop where
  builders : List OwnedBuilder
  handles : List Handle
  sets : List OwnedSet
  deriving Inhabited

namespace Workshop

/-- The workshop in which nothing was made. -/
def empty : Workshop := ⟨[], [], []⟩

/-- Whether a builder or the rule set it became holds the builder's forwards. -/
def holds (w : Workshop) : Holder → Bool
  | .builder => true
  | .ruleSet number => ((w.sets[number]?).map (·.held)).getD false
  | .nobody => false

/-- Whether somebody holds the forward. -/
def isHeld (w : Workshop) (target : Forward) : Bool :=
  ((w.builders[target.builder]?).map fun owned => w.holds owned.holder).getD false ||
    w.handles.any fun handle => handle.held && handle.target == target

/-- What a forward stands for: nothing, unless it is defined and somebody holds it. -/
def definition? (w : Workshop) : Definitions := fun target =>
  if w.isHeld target then
    (w.builders[target.builder]?).bind fun owned => owned.builder.definition? target.id
  else none

/-- The builder with the given number, if it is still in use. -/
def openBuilder? (w : Workshop) (number : Nat) : Option OwnedBuilder :=
  (w.builders[number]?).filter (·.holder == .builder)

/-- Puts up a new builder. -/
def newBuilder (w : Workshop) : Nat × Workshop :=
  (w.builders.length,
    { w with builders := w.builders ++ [⟨Builder.new w.builders.length, .builder⟩] })

/-- Hands out a forward of a builder, together with a handle that holds it. -/
def addForward (w : Workshop) (number : Nat) : Option (Forward × Workshop) := do
  let owned ← w.openBuilder? number
  let (target, builder) := owned.builder.addForward
  return (target,
    { w with
      builders := w.builders.set number { owned with builder }
      handles := w.handles ++ [⟨target, true⟩] })

/-- The forward of a handle. -/
def target? (w : Workshop) (handle : Nat) : Option Forward :=
  ((w.handles[handle]?).filter (·.held)).map (·.target)

/-- Says what the forward of a handle stands for. A forward that already stands for something keeps
what it stands for. -/
def define (w : Workshop) (handle : Nat) (rule : Rule) :
    Option (Except GrammarError Unit × Workshop) := do
  let target ← w.target? handle
  let owned ← w.builders[target.builder]?
  match owned.builder.define target.id rule with
  | .error e => return (.error e, w)
  | .ok builder =>
    return (.ok (), { w with builders := w.builders.set target.builder { owned with builder } })

/-- Finishes a builder, which is used up whether that succeeds or not. The result is the number of
the new rule set. -/
def finish (w : Workshop) (number : Nat) (root : Rule) :
    Option (Except GrammarError Nat × Workshop) := do
  let owned ← w.openBuilder? number
  let heldBy (holder : Holder) := w.builders.set number { owned with holder }
  match owned.builder.finish root with
  | .error e => return (.error e, { w with builders := heldBy .nobody })
  | .ok set =>
    return (.ok w.sets.length,
      { w with
        builders := heldBy (.ruleSet w.sets.length)
        sets := w.sets ++ [⟨number, set.root, true⟩] })

/-- Drops a builder. One that is used up, or dropped already, is not changed by that. -/
def dropBuilder (w : Workshop) (number : Nat) : Option Workshop := do
  let owned ← w.builders[number]?
  match owned.holder with
  | .builder => return { w with builders := w.builders.set number { owned with holder := .nobody } }
  | _ => return w

/-- Drops a handle, if it was not dropped already. -/
def dropHandle (w : Workshop) (number : Nat) : Option Workshop := do
  let handle ← w.handles[number]?
  return { w with handles := w.handles.set number { handle with held := false } }

/-- The rule set with the given number, if it still exists. -/
def set? (w : Workshop) (number : Nat) : Option OwnedSet := (w.sets[number]?).filter (·.held)

/-- Drops a rule set, if it was not dropped already. -/
def dropSet (w : Workshop) (number : Nat) : Option Workshop := do
  let set ← w.sets[number]?
  return { w with sets := w.sets.set number { set with held := false } }

/-- Fuel for matching the given rules on a list of the given length. -/
def fuel (w : Workshop) (rules : List Rule) (length : Nat) : Nat :=
  matchingFuel (rules ++ w.builders.flatMap (·.builder.definitions)) length

/-- Reads a whole token list by a rule set. -/
def read (w : Workshop) (number : Nat) (tokens : List Token) : Option (Except Halt Value) := do
  let set ← w.set? number
  return readAll w.definition? (w.fuel [set.root] tokens.length) set.root tokens

/-- Tries rules, each at its position, one after the other. They share their progress: what one of
them leaves behind, even if it fails, is there for the next one. -/
def matchEach (w : Workshop) (tokens : List Token) (trials : List (Rule × Nat)) :
    List (Except Halt (Option Match)) :=
  go .start trials
where
  /-- The outcomes of the trials from the given progress on. -/
  go (progress : Progress) : List (Rule × Nat) → List (Except Halt (Option Match))
    | [] => []
    | (rule, pos) :: rest =>
      let fuel := w.fuel (trials.map Prod.fst) tokens.length
      match rule.match? w.definition? tokens.toArray fuel pos progress with
      | .ok found progress => .ok found :: go progress rest
      | .error halt progress => .error halt :: go progress rest

end Workshop

end ClosureLang
