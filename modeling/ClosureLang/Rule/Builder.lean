import ClosureLang.Rule.Match

/-!
# Building sets of rules

A builder hands out forwards and collects what they stand for. When every forward stands for
something the builder can be finished: together with a root rule it gives a rule set, which reads
whole token lists and does not change any more.
-/

set_option autoImplicit false

namespace ClosureLang

/-- A builder: its number, and for each forward that it handed out the rule it stands for, if
any. -/
structure Builder where
  number : Nat
  cells : List (Option Rule)
  deriving Inhabited

/-- A finished set of rules. -/
structure RuleSet where
  builder : Builder
  root : Rule
  deriving Inhabited

namespace Builder

/-- The builder that has handed out nothing. -/
def new (number : Nat) : Builder := ⟨number, []⟩

/-- Hands out a forward that stands for nothing yet. -/
def addForward (b : Builder) : Forward × Builder :=
  (⟨b.number, b.cells.length⟩, { b with cells := b.cells ++ [none] })

/-- The rule that the forward with number `id` stands for. -/
def definition? (b : Builder) (id : Nat) : Option Rule := (b.cells[id]?).join

/-- Says what a forward stands for. That is said once. -/
def define (b : Builder) (id : Nat) (rule : Rule) : Except GrammarError Builder :=
  match b.definition? id with
  | none => .ok { b with cells := b.cells.set id (some rule) }
  | some _ => .error (.redefined id)

/-- The lowest number of a forward that stands for nothing. -/
def firstUndefined? (b : Builder) : Option Nat := b.cells.findIdx? (·.isNone)

/-- The rule set with the given root, if every forward stands for something. -/
def finish (b : Builder) (root : Rule) : Except GrammarError RuleSet :=
  match b.firstUndefined? with
  | some id => .error (.unresolved id)
  | none => .ok ⟨b, root⟩

/-- The rules that the forwards stand for. -/
def definitions (b : Builder) : List Rule := b.cells.filterMap id

end Builder

/-- Fuel for matching the given rules on a token list: enough for every rule to be tried inside
every other one at every position, and that for every rule and position again. -/
def matchingFuel (rules : List Rule) (length : Nat) : Nat :=
  let trials := (Rule.sizes rules + 1) * (length + 2)
  trials * trials

/-- The error for a token list that no rule matches: what was found where reading got furthest. -/
def unexpectedAt (tokens : Array Token) (furthest : Nat) : ParseError :=
  .unexpected furthest ((tokens[furthest]?).map (·.kind)) (spanAt? tokens furthest)

/-- Reads a whole token list by a root rule. A match that leaves tokens over is no match, and
reading got at least to the first token left over. -/
def readAll (definitions : Definitions) (fuel : Nat) (root : Rule) (tokens : List Token) :
    Except Halt Value :=
  match root.match? definitions tokens.toArray fuel 0 .start with
  | .error halt _ => .error halt
  | .ok none progress => .error (.failed (unexpectedAt tokens.toArray progress.furthest))
  | .ok (some m) progress =>
    if m.stop = tokens.length then .ok m.value
    else .error (.failed (unexpectedAt tokens.toArray (max progress.furthest m.stop)))

namespace RuleSet

/-- What the forwards of the set stand for. Forwards of other builders stand for nothing. -/
def definition? (s : RuleSet) : Definitions := fun target =>
  if target.builder = s.builder.number then s.builder.definition? target.id else none

/-- Fuel for reading a list of the given length. -/
def fuel (s : RuleSet) (length : Nat) : Nat :=
  matchingFuel (s.root :: s.builder.definitions) length

/-- Reads a whole token list. -/
def read (s : RuleSet) (tokens : List Token) : Except Halt Value :=
  readAll s.definition? (s.fuel tokens.length) s.root tokens

end RuleSet

end ClosureLang
