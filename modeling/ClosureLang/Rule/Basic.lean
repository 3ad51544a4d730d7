import ClosureLang.Rule.Value

/-!
# Rules

A rule says which stretches of the token list it matches and what value a match has. Rules are
finite trees. A grammar that refers to itself does so through forwards: a rule only names a forward,
and what the forward stands for is looked up when the rule is used.
-/

set_option autoImplicit false

namespace ClosureLang

/-- The name of a rule that is defined elsewhere: the builder that handed it out and its number
there. -/
structure Forward where
  builder : Nat
  id : Nat
  deriving DecidableEq, Repr, Inhabited

/-- A rule. -/
inductive Rule where
  /-- One token of the given kind. -/
  | terminal (kind : TokenKind)
  /-- All rules, one after the other. -/
  | sequence (rules : List Rule)
  /-- The first of the rules that matches. -/
  | alternation (rules : List Rule)
  /-- As many matches of the rule as there are, at least `least` and at most `most`. -/
  | repetition (rule : Rule) (least : Nat) (most : Option Nat)
  /-- The rule, with its value handed to an action. -/
  | map (rule : Rule) (action : Action)
  /-- Whatever the forward stands for. -/
  | forward (target : Forward)
  deriving Inhabited

/-- What is looked up for a forward. There is nothing if it is not defined, or no longer held. -/
abbrev Definitions := Forward → Option Rule

namespace Rule

/-- Zero or more matches. -/
def star (rule : Rule) : Rule := .repetition rule 0 none

/-- One or more matches. -/
def plus (rule : Rule) : Rule := .repetition rule 1 none

/-- At most one match; the value is nothing when there is none. -/
def maybe (rule : Rule) : Rule := .repetition rule 0 (some 1)

/-- A sequence of rules whose values are handed to an action. -/
def mapSequence (rules : List Rule) (action : List Value → Except ActionError Value) : Rule :=
  .map (.sequence rules) fun v => do action (← v.toSequence)

/-- A sequence of rules that keeps the value of the `n`th only. -/
def nth (rules : List Rule) (n : Nat) : Rule :=
  mapSequence rules fun values =>
    match values[n]? with
    | some v => .ok v
    | none => .error (.shape .sequenceItem .nothing)

/-! ## The size of a rule -/

mutual

/-- How many rules a rule is made of, itself included. -/
def size : Rule → Nat
  | .terminal _ => 1
  | .sequence rules => sizes rules + 1
  | .alternation rules => sizes rules + 1
  | .repetition rule _ _ => rule.size + 1
  | .map rule _ => rule.size + 1
  | .forward _ => 1

/-- How many rules the rules of a list are made of. -/
def sizes : List Rule → Nat
  | [] => 0
  | rule :: rules => rule.size + sizes rules

end

end Rule

end ClosureLang
