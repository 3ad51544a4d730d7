import ClosureLang.Rule.Memo

/-!
# Where rules start

A rule that is tried at a position tries forwards at the same position before any token is used up:
the first of a sequence, all alternatives, and what follows something that may match no tokens. The
list of these forwards, in the order in which they can be tried, is computed from the rule alone
(`Rule.starts`). Following it through the definitions says which forwards a forward can lead to at
one position, and so which forwards are left-recursive.

## When a seed stays

A left-recursive forward is grown from a seed that is remembered as its result. Whenever the seed is
planted anew, everything else that is resolved at the position is dropped, since it may have been
built on the seed before. Among what is dropped may be the seed of another forward that is being
grown at the same position. That one has then lost its result, and if its body gets to it once more,
it is tried from the beginning, inside its own growth.

So a grown match is safe as long as its seed is found again. The seed of a forward `a` is dropped
when another forward is grown at the same position, which only happens to a forward that leads to
itself without going through `a`: otherwise it would meet `a`, which is remembered, before it could
meet itself.

- `Leads` is one forward getting to another without going through `a`.
- `Spoils` says that trying a forward may grow one that drops the seed of `a`.
- `KeepsSeed` says of a list of forwards that nothing in it which spoils the seed is tried before
  something that gets to `a`.
- `SeedStays` says that of the body of `a` itself.

Not every forward needs that. A grammar is `Anchored` if all left recursion goes through forwards
whose seeds stay: a forward whose own seed may be lost can only get back to itself through one that
is still there. This is a condition on the definitions, about what may be tried where, and says
nothing about tokens.
-/

set_option autoImplicit false

namespace ClosureLang

namespace Rule

mutual

/-- Whether the rule may match no tokens, if exactly the forwards of `empty` may. -/
def nullable (empty : Nat → Bool) : Rule → Bool
  | .terminal _ => false
  | .sequence rules => nullableAll empty rules
  | .alternation rules => nullableAny empty rules
  | .repetition rule least _ => least == 0 || rule.nullable empty
  | .map rule _ => rule.nullable empty
  | .forward target => empty target.id

/-- Whether all rules of a list may match no tokens. -/
def nullableAll (empty : Nat → Bool) : List Rule → Bool
  | [] => true
  | rule :: rules => rule.nullable empty && nullableAll empty rules

/-- Whether some rule of a list may match no tokens. -/
def nullableAny (empty : Nat → Bool) : List Rule → Bool
  | [] => false
  | rule :: rules => rule.nullable empty || nullableAny empty rules

end

mutual

/-- The forwards that the rule may try where it starts, in their order. -/
def starts (empty : Nat → Bool) : Rule → List Nat
  | .terminal _ => []
  | .sequence rules => startsOfSequence empty rules
  | .alternation rules => startsOfAlternation empty rules
  | .repetition rule _ _ => rule.starts empty
  | .map rule _ => rule.starts empty
  | .forward target => [target.id]

/-- The forwards that rules one after the other may try where the first one starts. -/
def startsOfSequence (empty : Nat → Bool) : List Rule → List Nat
  | [] => []
  | rule :: rules =>
    rule.starts empty ++ if rule.nullable empty then startsOfSequence empty rules else []

/-- The forwards that alternatives may try where they start. -/
def startsOfAlternation (empty : Nat → Bool) : List Rule → List Nat
  | [] => []
  | rule :: rules => rule.starts empty ++ startsOfAlternation empty rules

end

end Rule

namespace Definitions

variable (definitions : Definitions) (empty : Nat → Bool)

/-- Every forward that may match no tokens is one of `empty`. -/
def EmptyWithin : Prop :=
  ∀ target body, definitions target = some body → body.nullable empty = true →
    empty target.id = true

/-- Trying the forward `b` can lead to trying `c` at the same position, without going through `a`:
`a` may only be the last one. -/
inductive Leads (a : Nat) : Nat → Nat → Prop where
  | here {b : Nat} : Leads a b b
  | inside {target : Forward} {body : Rule} {b c : Nat} : definitions target = some body →
      target.id ≠ a → b ∈ body.starts empty → Leads a b c → Leads a target.id c

/-- The forward `b` leads to itself without going through `a`. -/
def RecursiveWithout (a b : Nat) : Prop :=
  ∃ target body c, target.id = b ∧ definitions target = some body ∧ c ∈ body.starts empty ∧
    Leads definitions empty a c b

/-- Trying the forward `b` may drop the seed of `a` at that position. -/
def Spoils (a b : Nat) : Prop :=
  ∃ c, Leads definitions empty a b c ∧ c ≠ a ∧ RecursiveWithout definitions empty a c

/-- When the forwards of a list are tried in their order, `a` is not tried after its seed may have
been dropped. -/
def Ordered (a : Nat) (forwards : List Nat) : Prop :=
  forwards.Pairwise fun b c =>
    Spoils definitions empty a b → ¬ Leads definitions empty a c a

/-- Trying the forwards of a list in their order finds the seed of `a` whenever it gets to `a`:
nothing that spoils the seed is tried before, and a forward that is grown itself does not get to
`a` at all. -/
structure KeepsSeed (a : Nat) (forwards : List Nat) : Prop where
  ordered : Ordered definitions empty a forwards
  inside : ∀ b ∈ forwards, ∀ target body, definitions target = some body → target.id ≠ a →
    Leads definitions empty a b target.id →
      Ordered definitions empty a (body.starts empty) ∧
        (RecursiveWithout definitions empty a target.id →
          ∀ c ∈ body.starts empty, ¬ Leads definitions empty a c a)

/-- While the forward `a` is grown, its seed is there whenever `a` is tried again. -/
def SeedStays (a : Nat) : Prop :=
  ∀ target body, target.id = a → definitions target = some body →
    KeepsSeed definitions empty a (body.starts empty)

/-- The seed of every forward stays, or there is a forward whose seed stays that all its left
recursion goes through. -/
def Anchored : Prop :=
  ∀ target body, definitions target = some body → SeedStays definitions empty target.id ∨
    ∃ a, SeedStays definitions empty a ∧ ¬ RecursiveWithout definitions empty a target.id

section

variable {definitions empty} {a b c : Nat} {forwards more : List Nat}

/-- The first forwards of a list find the seed if all of them do. -/
theorem KeepsSeed.left (h : KeepsSeed definitions empty a (forwards ++ more)) :
    KeepsSeed definitions empty a forwards :=
  ⟨(List.pairwise_append.mp h.ordered).1, fun b hb => h.inside b (List.mem_append_left _ hb)⟩

/-- The last forwards of a list find the seed if all of them do. -/
theorem KeepsSeed.right (h : KeepsSeed definitions empty a (forwards ++ more)) :
    KeepsSeed definitions empty a more :=
  ⟨(List.pairwise_append.mp h.ordered).2.1, fun b hb => h.inside b (List.mem_append_right _ hb)⟩

/-- A forward does not lead any further without going through itself. -/
theorem Leads.self (leads : Leads definitions empty a a c) : c = a := by
  cases leads with
  | here => rfl
  | inside _ other => exact absurd rfl other

/-- Forwards that only start with each other only lead to each other. -/
theorem Leads.mem_of_closed (leads : Leads definitions empty a b c) (among : Nat → Prop)
    (closed : ∀ target body, definitions target = some body → target.id ≠ a → among target.id →
      ∀ d ∈ body.starts empty, among d) (hb : among b) : among c := by
  induction leads with
  | here => exact hb
  | inside defined other hd _ ih => exact ih (closed _ _ defined other hb _ hd)

/-- Once the seed may be gone, `a` is not tried any more. -/
theorem KeepsSeed.spoiled (h : KeepsSeed definitions empty a (forwards ++ more))
    (hb : b ∈ forwards) (spoils : Spoils definitions empty a b) (hc : c ∈ more) :
    ¬ Leads definitions empty a c a :=
  (List.pairwise_append.mp h.ordered).2.2 b hb c hc spoils

/-- The same holds inside every other forward that is tried. -/
theorem KeepsSeed.enter {target : Forward} {body : Rule}
    (h : KeepsSeed definitions empty a [target.id]) (defined : definitions target = some body)
    (other : target.id ≠ a) : KeepsSeed definitions empty a (body.starts empty) := by
  have here := h.inside target.id List.mem_cons_self target body defined other .here
  refine ⟨here.1, fun b hb inner innerBody innerDefined innerOther leads => ?_⟩
  have through : Leads definitions empty a target.id inner.id := .inside defined other hb leads
  exact h.inside target.id List.mem_cons_self inner innerBody innerDefined innerOther through

/-- Going into another forward spoils the seed if what is inside does. -/
theorem Spoils.enter {target : Forward} {body : Rule} (defined : definitions target = some body)
    (other : target.id ≠ a) (hb : b ∈ body.starts empty) (spoils : Spoils definitions empty a b) :
    Spoils definitions empty a target.id := by
  obtain ⟨c, leads, apart, recursive⟩ := spoils
  exact ⟨c, .inside defined other hb leads, apart, recursive⟩

end

end Definitions

end ClosureLang
