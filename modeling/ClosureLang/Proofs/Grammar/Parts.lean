import ClosureLang.Proofs.Grammar.Combining

/-!
# Parts of the grammar follow their readers

What holds of separators, bodies in braces and parameters, whatever statements are. Values are
untyped, so the conversions in an action have to be seen to find what the rules below it produce.
-/

set_option autoImplicit false

namespace ClosureLang

/-! ## Conversions of values -/

namespace Value

@[simp] theorem toText_token (t : Token) : (token t).toText = Descent.textOf t := rfl

/-- Trees that were wrapped as values come out again unchanged. -/
@[simp] theorem toNodes_map (nodes : List Node) :
    (sequence (nodes.map node)).toNodes = .ok nodes := by
  show (nodes.map node).mapM toNode = .ok nodes
  induction nodes with
  | nil => rfl
  | cons first nodes ih =>
    rw [List.map_cons, List.mapM_cons, ih]
    rfl

/-- The texts of wrapped tokens are those that the reader takes, and they fail on the same token. -/
@[simp] theorem toTexts_map (tokens : List Token) :
    (sequence (tokens.map token)).toTexts = tokens.mapM Descent.textOf := by
  show (tokens.map token).mapM toText = tokens.mapM Descent.textOf
  induction tokens with
  | nil => rfl
  | cons t tokens ih => rw [List.map_cons, List.mapM_cons, List.mapM_cons, ih, toText_token]

end Value

open Matching Rule

section

variable {precedence : Precedence} {definitions : Definitions} {tokens : Array Token}
  {bound k pos : Nat} {statement : Rule} {s : Descent Node}

/-- A token with a text is read as the reader reads it, and fails with the same error if it has
none. -/
theorem reads_textNode {kind : TokenKind} {build : String → Node} :
    Reads precedence definitions tokens bound k pos (Grammar.textNode kind build)
      (Descent.textNode kind build) .node (pos + 1) := by
  refine .here (.map (reads_terminal kind) fun t stop above below => ?_)
  refine .accept_map ?_ above below
  rw [Value.toText_token]
  rfl

/-- A run of semicolons and line ends follows its reader. -/
theorem reads_separator (inside : pos ≤ tokens.size) :
    Reads precedence definitions tokens bound k pos Grammar.separator Descent.separator
      (fun marks => .sequence (marks.map .token)) (pos + 1) :=
  reads_plus inside fun _ _ _ =>
    ((reads_terminal .semicolon).orElse (reads_terminal .newline).only).alternation

/-- A list of statements follows its reader, if each statement does from here on. -/
theorem reads_statementList (inside : pos ≤ tokens.size)
    (each : ReadsFrom precedence definitions tokens bound k pos statement s .node) :
    Reads precedence definitions tokens bound k pos (Grammar.statementList statement)
      (Descent.statementList s) (fun nodes => .sequence (nodes.map .node)) (pos + 1) :=
  reads_listOf (each pos (Nat.le_refl pos) inside) fun next above below =>
    reads_nth (reads_separator below) (each.later (by omega))

/-- The trees of an optional list. -/
theorem optionalNodes_map (found : Option (List Node)) :
    Grammar.optionalNodes
      ((found.map fun nodes => Value.sequence (nodes.map .node)).getD .nothing) =
        .ok (found.getD []) := by
  cases found with
  | none => rfl
  | some nodes => exact Value.toNodes_map nodes

/-- A body in braces follows its reader, if the statements after the brace do. -/
theorem reads_bracedBody
    (each : ReadsFrom precedence definitions tokens bound k (pos + 1) statement s .node) :
    Reads precedence definitions tokens bound k pos (Grammar.bracedBody statement)
      (Descent.bracedBody s) .node (pos + 1) := by
  apply reads_mapSequence
  intro fuel lt
  apply rest_cons lt (reads_terminal .openBrace)
  intro _ p₁ above₁ below₁
  apply rest_cons lt (reads_maybe below₁ (reads_separator below₁))
  intro _ p₂ above₂ below₂
  apply rest_cons lt (reads_maybe below₂ (reads_statementList below₂ (each.later (by omega))))
  intro found p₃ above₃ below₃
  apply rest_cons lt (reads_maybe below₃ (reads_separator below₃))
  intro _ p₄ above₄ below₄
  apply rest_cons lt (reads_terminal .closeBrace)
  intro _ p₅ above₅ below₅
  refine rest_pure ?_ (by omega) below₅
  simp [Grammar.item, optionalNodes_map, Functor.map, Except.map]

/-- A list of parameters follows its reader, names included. -/
theorem reads_parameterList :
    Reads precedence definitions tokens bound k pos Grammar.parameterList Descent.parameterList
      .names (pos + 1) := by
  apply Reads.here
  apply reads_mapSequence
  intro fuel lt
  apply rest_cons lt (reads_terminal .openParen)
  intro _ p₁ above₁ below₁
  apply rest_cons lt (reads_listWith below₁ fun _ _ _ => reads_terminal .word)
  intro params p₂ above₂ below₂
  apply rest_cons lt (reads_terminal .closeParen)
  intro _ p₃ above₃ below₃
  refine rest_accept ?_ (by omega) below₃
  simp [Grammar.item]

end

end ClosureLang
