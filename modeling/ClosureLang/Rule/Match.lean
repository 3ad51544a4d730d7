import ClosureLang.Rule.Error
import ClosureLang.Rule.Memo

/-!
# Matching

`match?` tries a rule at a position of a token list. Alternatives are tried in order, repetitions
take as many matches as they can, and neither is ever taken back. The result of every forward is
remembered for its position.

A forward that is met again while its own body is being tried at the same position does not match
there. If its body matches nevertheless, that match is a seed: it is planted as the forward's result
and the body is tried again, as long as the match gets longer. This is how a rule may start with
itself.

Matching does not end for every set of rules. The depth to which rules are tried inside one another,
and the rounds of one repetition or of one seed, are bounded by an explicit amount of fuel, and
running out of it is an outcome of its own that no rule can observe. An outcome that is reached with
some fuel is the outcome with any greater amount.

A failure ends the matching but not the state: marks of forwards that were being tried stay behind
in the remembered results.
-/

set_option autoImplicit false

namespace ClosureLang

/-- What changes while a token list is read. -/
structure Progress where
  /-- The remembered results. -/
  memo : MemoTable
  /-- The furthest position at which a token was looked at. -/
  furthest : Nat
  deriving Inhabited

/-- Nothing is remembered and nothing was looked at. -/
def Progress.start : Progress := ⟨∅, 0⟩

/-- Why matching ended without an answer. -/
inductive Halt where
  | failed (error : ParseError)
  | outOfFuel
  deriving DecidableEq, Repr, Inhabited

/-- A computation that goes on with the progress made so far, and may end early. -/
abbrev Matching := EStateM Halt Progress

/-- The span of the token at a position. -/
def spanAt? (tokens : Array Token) (pos : Nat) : Option Span := (tokens[pos]?).map (·.span)

namespace Matching

/-- Takes note that a token was looked at. -/
def reach (pos : Nat) : Matching Unit :=
  modify fun s => { s with furthest := max s.furthest pos }

/-- What is remembered for a place. -/
def remembered? (place : Place) : Matching (Option Memo) :=
  return (← get).memo.find? place

/-- Remembers `memo` for a place. -/
def remember (place : Place) (memo : Memo) : Matching Unit :=
  modify fun s => { s with memo := s.memo.insert place memo }

/-- Plants a seed: it becomes the result for its place, and results that may have been built on the
seed before it are dropped. -/
def plant (place : Place) (seed : Match) : Matching Unit :=
  modify fun s => { s with memo := (s.memo.insert place (.resolved (some seed))).forget place }

/-- One token of the given kind. -/
def terminal (tokens : Array Token) (kind : TokenKind) (pos : Nat) : Matching (Option Match) := do
  reach pos
  return (tokens[pos]?.filter (·.kind == kind)).map fun t => ⟨.token t, pos + 1⟩

/-- The rules one after the other. `before` holds the values of the rules before them, last
first. -/
def sequence (attempt : Rule → Nat → Matching (Option Match)) :
    List Rule → List Value → Nat → Matching (Option Match)
  | [], before, pos => return some ⟨.sequence before.reverse, pos⟩
  | rule :: rules, before, pos => do
    match ← attempt rule pos with
    | none => return none
    | some m => sequence attempt rules (m.value :: before) m.stop

/-- The first of the rules that matches. -/
def alternation (attempt : Rule → Nat → Matching (Option Match)) :
    List Rule → Nat → Matching (Option Match)
  | [], _ => return none
  | rule :: rules, pos => do
    match ← attempt rule pos with
    | none => alternation attempt rules pos
    | some m => return some m

/-- As many matches as there are and as `most` allows, with their values and the position after
them. A match that does not move on is kept, and is the last one. -/
def rounds (attempt : Nat → Matching (Option Match)) :
    Nat → Option Nat → List Value → Nat → Matching (List Value × Nat)
  | 0, _, _, _ => throw .outOfFuel
  | fuel + 1, most, before, pos =>
    if most = some before.length then return (before.reverse, pos)
    else do
      match ← attempt pos with
      | none => return (before.reverse, pos)
      | some m =>
        if pos < m.stop then rounds attempt fuel most (m.value :: before) m.stop
        else return ((m.value :: before).reverse, m.stop)

/-- The value of a repetition: of at most one match, that match's value; otherwise the sequence. -/
def repetitionValue (most : Option Nat) (values : List Value) : Value :=
  if most = some 1 then values.getLast?.getD .nothing else .sequence values

/-- At least `least` and at most `most` matches. -/
def repetition (attempt : Nat → Matching (Option Match)) (fuel least : Nat) (most : Option Nat)
    (pos : Nat) : Matching (Option Match) := do
  let (values, stop) ← rounds attempt fuel most [] pos
  if values.length < least then return none
  else return some ⟨repetitionValue most values, stop⟩

/-- A match whose value is handed to an action. -/
def map (tokens : Array Token) (found : Option Match) (action : Action) (pos : Nat) :
    Matching (Option Match) :=
  match found with
  | none => return none
  | some m =>
    match action m.value with
    | .ok value => return some ⟨value, m.stop⟩
    | .error cause => throw (.failed (.action pos (spanAt? tokens pos) cause))

/-- The longest match that grows from a seed: the body is tried again with the seed planted, as long
as its match gets longer. -/
def grow (body : Matching (Option Match)) (place : Place) : Nat → Match → Matching Match
  | 0, _ => throw .outOfFuel
  | fuel + 1, seed => do
    plant place seed
    match ← body with
    | none => return seed
    | some grown => if seed.stop < grown.stop then grow body place fuel grown else return seed

/-- The result of a forward at a place where nothing is remembered: what its body gives there, grown
if the body met the forward again at that place. -/
def enter (body : Matching (Option Match)) (fuel : Nat) (place : Place) :
    Matching (Option Match) := do
  remember place (.pending false)
  let first ← body
  let result ←
    match first, ← remembered? place with
    | some seed, some (.pending true) => some <$> grow body place fuel seed
    | first, _ => pure first
  remember place (.resolved result)
  return result

/-- The result of a forward, from what is remembered if there is something. -/
def forward (definitions : Definitions) (attempt : Rule → Nat → Matching (Option Match))
    (fuel : Nat) (target : Forward) (pos : Nat) : Matching (Option Match) := do
  let place := ⟨target.id, pos⟩
  match ← remembered? place with
  | some (.pending _) =>
    remember place (.pending true)
    return none
  | some (.resolved result) => return result
  | none =>
    match definitions target with
    | none => throw (.failed (.grammar (.unresolved target.id)))
    | some body => enter (attempt body pos) fuel place

end Matching

/-- Tries a rule at a position. There may be no match, which is an answer, or the matching may
end. -/
def Rule.match? (definitions : Definitions) (tokens : Array Token) :
    Nat → Rule → Nat → Matching (Option Match)
  | 0, _, _ => throw .outOfFuel
  | _ + 1, .terminal kind, pos => Matching.terminal tokens kind pos
  | fuel + 1, .sequence rules, pos =>
    Matching.sequence (match? definitions tokens fuel) rules [] pos
  | fuel + 1, .alternation rules, pos =>
    Matching.alternation (match? definitions tokens fuel) rules pos
  | fuel + 1, .repetition rule least most, pos =>
    Matching.repetition (match? definitions tokens fuel rule) fuel least most pos
  | fuel + 1, .map rule action, pos => do
    Matching.map tokens (← match? definitions tokens fuel rule pos) action pos
  | fuel + 1, .forward target, pos =>
    Matching.forward definitions (match? definitions tokens fuel) fuel target pos

end ClosureLang
