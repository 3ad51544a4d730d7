import ClosureLang.Proofs.Grammar.Forwards
import ClosureLang.Proofs.Rule.Reading

/-!
# Reading by the grammar is recursive descent

Reading a token list by the rules of the grammar gives what recursive descent gives, be it a tree or
an error. The two have little in common. The rules are matched with a memory, grow left-recursive
expressions from seeds and are tried until they have no fuel left; the readers are plain functions
that call each other and read suffixes in a loop. The rotation of operators, the form of assignments
and the form of errors are the same on both sides, as these belong to the language.

There are two parts to it. One is that the rule set does not run out of fuel. Only expressions are
left-recursive in the grammar, so every seed stays (`definitions_anchored`), and the fuel of the
rule set is enough. The other is that a program follows its reader from the state in which nothing
is remembered, where everything that is remembered is justified for want of anything
(`clean_start`).

Where the reader reports an unexpected token, it is at the furthest position at which a token was
looked at, and so it is for the rules. That the two look equally far is part of agreement from the
first step on; it could not be added at the end, since what is found in memory is not looked at
again.
-/

set_option autoImplicit false

namespace ClosureLang

open Matching Rule

namespace Grammar

/-! ## The fuel is enough -/

section

variable {precedence : Precedence} {target : Forward} {body : Rule}

/-- The forwards of the grammar are the one for expressions and the one for statements. -/
theorem definitions_eq_some (found : definitions precedence target = some body) :
    target.id = 0 ∧ body = expressionBody precedence ∨
      target.id = 1 ∧ body = statementRule expression statement := by
  obtain ⟨builder, id⟩ := target
  unfold definitions RuleSet.definition? at found
  split at found
  · match id, found with
    | 0, found => exact .inl ⟨rfl, (Option.some.inj found).symm⟩
    | 1, found => exact .inr ⟨rfl, (Option.some.inj found).symm⟩
  · cases found

/-- Neither expressions nor statements match no tokens, and both start with expressions only. -/
theorem definitions_start (found : definitions precedence target = some body) :
    body.nullable (fun _ => false) = false ∧ ∀ b ∈ body.starts fun _ => false, b = 0 := by
  rcases definitions_eq_some found with ⟨-, rfl⟩ | ⟨-, rfl⟩
  · refine ⟨rfl, fun b hb => ?_⟩
    change b ∈ [0, 0, 0, 0] at hb
    simpa using hb
  · refine ⟨rfl, fun b hb => ?_⟩
    change b ∈ [0, 0, 0, 0] at hb
    simpa using hb

/-- What the forwards stand for has the forwards 0 and 1 only, and is no larger than the fuel of the
rule set allows for. -/
theorem definitions_bounded (precedence : Precedence) :
    (definitions precedence).Bounded {0, 1}
      (sizes (programRule statement :: (builder precedence).definitions)) := by
  refine ⟨fun target body found => ?_, fun target body found => size_le_sizes ?_⟩
  · rcases definitions_eq_some found with ⟨same, -⟩ | ⟨same, -⟩ <;> simp [same]
  · change body ∈ [programRule statement, expressionBody precedence,
      statementRule expression statement]
    rcases definitions_eq_some found with ⟨-, rfl⟩ | ⟨-, rfl⟩ <;> simp

/-- Nothing in the grammar matches the empty stretch of tokens but what plainly may be empty; no
forward does. -/
theorem definitions_emptyWithin : (definitions precedence).EmptyWithin fun _ => false := by
  intro target body found nullable
  rw [(definitions_start found).1] at nullable
  cases nullable

/-- An expression leads to expressions only. -/
theorem expression_leads {a c : Nat}
    (leads : (definitions precedence).Leads (fun _ => false) a 0 c) : c = 0 :=
  leads.mem_of_closed (· = 0) (fun _ _ found _ _ => (definitions_start found).2) rfl

/-- Forwards that are expressions only are met in order. -/
theorem expressions_ordered {a : Nat} {forwards : List Nat} (all : ∀ b ∈ forwards, b = 0) :
    (definitions precedence).Ordered (fun _ => false) a forwards := by
  refine List.pairwise_iff_forall_sublist.mpr fun {b c} pair ⟨d, leads, apart, _⟩ back => ?_
  have hb : b ∈ forwards := pair.subset List.mem_cons_self
  have hc : c ∈ forwards := pair.subset (List.mem_cons_of_mem b List.mem_cons_self)
  rw [all b hb] at leads
  rw [all c hc] at back
  exact apart ((expression_leads leads).trans (expression_leads back).symm)

/-- All left recursion of the grammar goes through expressions, whose seeds stay. -/
theorem definitions_anchored : (definitions precedence).Anchored fun _ => false := by
  refine fun target body found => .inl fun same body' _ found' => ?_
  have all := (definitions_start found').2
  refine ⟨expressions_ordered all, fun b hb inner innerBody innerFound apart leads => ?_⟩
  have within := (definitions_start innerFound).2
  refine ⟨expressions_ordered within, fun _ c hc back => ?_⟩
  rw [all b hb] at leads
  rw [within c hc] at back
  exact apart ((expression_leads leads).trans (expression_leads back).symm)

end

/-- The rule set of the language has enough fuel for every token list. -/
theorem read_ne_outOfFuel (precedence : Precedence) (tokens : List Token) :
    RuleSet.read ⟨builder precedence, programRule statement⟩ tokens ≠ .error .outOfFuel := by
  have few : 2 ≤ sizes (programRule statement :: (builder precedence).definitions) :=
    Nat.le_trans (Nat.le_succ 2)
      (length_le_sizes (programRule statement :: (builder precedence).definitions))
  exact readAll_ends (definitions_bounded precedence) definitions_emptyWithin definitions_anchored
    (lt_matchingFuel tokens.length few (Nat.le_refl _) (size_le_sizes List.mem_cons_self))

/-! ## The whole token list -/

/-- In the state in which nothing is remembered, nothing is remembered wrongly. -/
theorem clean_start {precedence : Precedence} {tokens : Array Token} {k : Nat} :
    Progress.start.Clean precedence tokens k :=
  fun _ _ _ _ found => by cases found

/-- The root of the grammar, unless it runs out of fuel, gives what is read. -/
theorem readAll_program {precedence : Precedence} {tokens : List Token} {depth : Nat}
    (enough : 2 * tokens.length + 2 ≤ depth) (fuel : Nat) :
    readAll (definitions precedence) fuel (programRule statement) tokens = .error .outOfFuel ∨
      (readAll (definitions precedence) fuel (programRule statement) tokens >>= treeOf) =
        (descend precedence depth tokens).mapError .failed := by
  have deep : 2 * (tokens.toArray.size + 1 - 0) ≤ depth := by
    rw [List.size_toArray]
    omega
  have reads := reads_programRule (Nat.zero_le _)
    ((Grammar.follows precedence tokens.toArray (fuel + 1)).statements (Nat.le_refl 0) deep)
  have agrees := reads fuel (Nat.lt_succ_self fuel) .start clean_start
  unfold readAll descend
  cases run : (programRule statement).match? (definitions precedence) tokens.toArray fuel 0
    .start with
  | error halt s =>
    cases halt with
    | outOfFuel => exact .inl rfl
    | failed e =>
      right
      simp only [agrees.failed run]
      rfl
  | ok m s =>
    obtain ⟨r, result, furthest, shown, -⟩ := agrees.ok run
    have reached : s.furthest = (Descent.program precedence depth tokens.toArray 0).reach :=
      furthest.trans (Nat.zero_max _)
    right
    simp only [result, ← reached]
    cases shown with
    | nothing => rfl
    | found node stop above below =>
      by_cases whole : stop = tokens.length
      · simp only [whole, if_true]
        rfl
      · simp only [whole, if_false]
        rfl

end Grammar

/-- Every token list is read to an answer, and that is the answer of recursive descent: the same
tree or the same error, whenever the readers are deep enough for the list. -/
theorem parse_eq_descend (precedence : Precedence) (tokens : List Token) {depth : Nat}
    (enough : 2 * tokens.length + 2 ≤ depth) :
    parse precedence tokens = (descend precedence depth tokens).mapError Halt.failed := by
  have read := Grammar.read_ne_outOfFuel precedence tokens
  unfold parse Grammar.new
  rw [Grammar.ruleSet_eq]
  exact (Grammar.readAll_program enough _).resolve_left read

/-- Four runs. In `a.b(c)+d` the expression grows twice. In `a.b=x*y+z` the operators are rotated,
since `*` binds tighter, and the left side becomes what is assigned. `a+}` is refused at the brace,
the furthest token looked at, and `1=a` by the action of the assignment. -/
theorem parse_grown_rotated_refused :
    let word (text : String) (start : Nat) : Token := ⟨.word, .text text, ⟨start, start + 1⟩⟩
    let mark (kind : TokenKind) (start : Nat) : Token := ⟨kind, .none, ⟨start, start + 1⟩⟩
    let grown : List Token := [word "a" 0, mark .dot 1, word "b" 2, mark .openParen 3, word "c" 4,
      mark .closeParen 5, word "+" 6, word "d" 7, ⟨.terminator, .none, ⟨8, 8⟩⟩]
    let rotated : List Token := [word "a" 0, mark .dot 1, word "b" 2, mark .equal 3, word "x" 4,
      word "*" 5, word "y" 6, word "+" 7, word "z" 8, mark .terminator 9]
    let broken : List Token := [word "a" 0, word "+" 1, mark .closeBrace 2, mark .terminator 3]
    let misplaced : List Token := [⟨.integer, .number 1, ⟨0, 1⟩⟩, mark .equal 1, word "a" 2,
      mark .terminator 3]
    (2 * grown.length + 2 ≤ 20 ∧ parse .default grown =
      .ok (.operator "+" (.call "b" (.var "a" none) [.var "c" none]) (.var "d" none))) ∧
    (2 * rotated.length + 2 ≤ 22 ∧ parse .default rotated =
      .ok (.attrAssign "b" (.var "a" none)
        (.operator "+" (.operator "*" (.var "x" none) (.var "y" none)) (.var "z" none)))) ∧
    (2 * broken.length + 2 ≤ 10 ∧ parse .default broken =
      .error (.failed (.unexpected 2 (some .closeBrace) (some ⟨2, 3⟩)))) ∧
    (2 * misplaced.length + 2 ≤ 10 ∧ parse .default misplaced =
      .error (.failed (.action 0 (some ⟨0, 1⟩) (.unassignable "integer")))) :=
  ⟨⟨by decide, (parse_eq_descend .default _ (Nat.le_refl 20)).trans rfl⟩,
    ⟨by decide, (parse_eq_descend .default _ (Nat.le_refl 22)).trans rfl⟩,
    ⟨by decide, (parse_eq_descend .default _ (Nat.le_refl 10)).trans rfl⟩,
    ⟨by decide, (parse_eq_descend .default _ (Nat.le_refl 10)).trans rfl⟩⟩

end ClosureLang
