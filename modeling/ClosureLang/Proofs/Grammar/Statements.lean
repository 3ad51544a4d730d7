import ClosureLang.Grammar.Statement
import ClosureLang.Proofs.Grammar.Parts

/-!
# Statements and programs follow their readers

Assignments and steps start with an expression at the position of the statement; everything else
starts with a token.
-/

set_option autoImplicit false

namespace ClosureLang

open Matching Rule

section

variable {precedence : Precedence} {definitions : Definitions} {tokens : Array Token}
  {bound k pos : Nat} {expression statement : Rule} {e s : Descent Node}

/-- An import follows its reader. -/
theorem reads_importStatement :
    Reads precedence definitions tokens bound k pos Grammar.importStatement
      Descent.importStatement .node (pos + 1) := by
  apply Reads.here
  apply reads_mapSequence
  intro fuel lt
  apply rest_cons lt (reads_terminal .importWord)
  intro _ p₁ above₁ below₁
  apply rest_cons lt (reads_listWith below₁ fun _ _ _ => reads_terminal .word)
  intro path p₂ above₂ below₂
  refine rest_accept_map ?_ (by omega) below₂
  simp [Grammar.item]

/-- The names of an optional list. -/
theorem optionalNames_map (found : Option (List String)) :
    Grammar.optionalNames ((found.map Value.names).getD .nothing) = .ok (found.getD []) := by
  cases found <;> rfl

section

variable
  (eachStatement : ReadsFrom precedence definitions tokens bound k (pos + 1) statement s .node)

include eachStatement

/-- A definition follows its reader, with or without parameters. -/
theorem reads_definitionStatement :
    Reads precedence definitions tokens bound k pos (Grammar.definitionStatement statement)
      (Descent.definitionStatement s) .node (pos + 1) := by
  apply Reads.here
  apply reads_mapSequence
  intro fuel lt
  apply rest_cons lt (reads_terminal .defWord)
  intro _ p₁ above₁ below₁
  apply rest_cons lt (reads_terminal .word)
  intro name p₂ above₂ below₂
  apply rest_cons lt (reads_maybe below₂ reads_parameterList)
  intro params p₃ above₃ below₃
  apply rest_cons lt (reads_bracedBody (eachStatement.later (by omega)))
  intro body p₄ above₄ below₄
  refine rest_accept_map ?_ (by omega) below₄
  simp [Grammar.item, optionalNames_map]
  rfl

/-- A class follows its reader. -/
theorem reads_classStatement :
    Reads precedence definitions tokens bound k pos (Grammar.classStatement statement)
      (Descent.classStatement s) .node (pos + 1) := by
  apply Reads.here
  apply reads_mapSequence
  intro fuel lt
  apply rest_cons lt (reads_terminal .classWord)
  intro _ p₁ above₁ below₁
  apply rest_cons lt (reads_terminal .word)
  intro name p₂ above₂ below₂
  apply rest_cons lt (reads_bracedBody (eachStatement.later (by omega)))
  intro body p₃ above₃ below₃
  refine rest_accept_map ?_ (by omega) below₃
  simp [Grammar.item]
  rfl

/-- A keyword with a condition and a body follows its reader. -/
theorem reads_guarded {kind : TokenKind} {build : Node → Node → Node}
    (each : ReadsFrom precedence definitions tokens bound k (pos + 1) expression e .node) :
    Reads precedence definitions tokens bound k pos
      (Grammar.guarded kind build expression statement) (Descent.guarded kind build e s) .node
      (pos + 1) := by
  apply reads_mapSequence
  intro fuel lt
  apply rest_cons lt (reads_terminal kind)
  intro _ p₁ above₁ below₁
  apply rest_cons lt (each p₁ above₁ below₁)
  intro condition p₂ above₂ below₂
  apply rest_cons lt (reads_bracedBody (eachStatement.later (by omega)))
  intro body p₃ above₃ below₃
  exact rest_pure rfl (by omega) below₃

end

/-- A declaration of traits follows its reader, with or without traits. -/
theorem reads_hasStatement :
    Reads precedence definitions tokens bound k pos Grammar.hasStatement Descent.hasStatement
      .node (pos + 1) := by
  have traits : ∀ {next : Nat}, next ≤ tokens.size →
      Reads precedence definitions tokens bound k next Grammar.traitList Descent.traitList .names
        (next + 1) := by
    intro next inside
    refine .here (.map (reads_plus inside fun _ _ _ =>
      reads_nth (reads_terminal .isWord) fun _ _ _ => reads_terminal .word) ?_)
    intro found stop above below
    refine .accept ?_ above below
    simp
  apply Reads.here
  apply reads_mapSequence
  intro fuel lt
  apply rest_cons lt (reads_terminal .hasWord)
  intro _ p₁ above₁ below₁
  apply rest_cons lt (reads_terminal .instanceVar)
  intro target p₂ above₂ below₂
  apply rest_cons lt (reads_maybe below₂ (traits below₂))
  intro found p₃ above₃ below₃
  refine rest_accept_map ?_ (by omega) below₃
  simp [Grammar.item, optionalNames_map]
  rfl

/-- An assignment to a word follows its reader, if the expressions after the word do. -/
theorem reads_wordAssignment
    (each : ReadsFrom precedence definitions tokens bound k (pos + 1) expression e .node) :
    Reads precedence definitions tokens bound k pos (Grammar.wordAssignment expression)
      (Descent.wordAssignment e) .node (pos + 1) := by
  apply Reads.here
  apply reads_mapSequence
  intro fuel lt
  apply rest_cons lt (reads_terminal .word)
  intro name p₁ above₁ below₁
  apply rest_cons lt (reads_terminal .equal)
  intro _ p₂ above₂ below₂
  apply rest_cons lt (each p₂ (by omega) below₂)
  intro value p₃ above₃ below₃
  refine rest_accept_map ?_ (by omega) below₃
  simp [Grammar.item]
  rfl

/-- An assignment follows its reader, if the expressions from its own position on do: its target is
an expression that starts where the statement does. -/
theorem reads_assignment
    (each : ReadsFrom precedence definitions tokens bound k pos expression e .node)
    (inside : pos ≤ tokens.size) :
    Reads precedence definitions tokens bound k pos (Grammar.assignment expression)
      (Descent.assignment e) .node (pos + 1) := by
  apply Reads.here
  apply reads_mapSequence
  intro fuel lt
  apply rest_cons lt (each pos (Nat.le_refl pos) inside)
  intro target p₁ above₁ below₁
  apply rest_cons lt (reads_terminal .equal)
  intro _ p₂ above₂ below₂
  apply rest_cons lt (each p₂ (by omega) below₂)
  intro value p₃ above₃ below₃
  refine rest_accept ?_ (by omega) below₃
  rfl

/-- A step follows its reader, if the expressions from its own position on do. -/
theorem reads_stepStatement {kind : TokenKind} {step : Step}
    (each : ReadsFrom precedence definitions tokens bound k pos expression e .node)
    (inside : pos ≤ tokens.size) :
    Reads precedence definitions tokens bound k pos (Grammar.stepStatement kind step expression)
      (Descent.stepStatement kind step e) .node (pos + 1) := by
  apply reads_mapSequence
  intro fuel lt
  apply rest_cons lt (each pos (Nat.le_refl pos) inside)
  intro operand p₁ above₁ below₁
  apply rest_cons lt (reads_terminal kind)
  intro _ p₂ above₂ below₂
  exact rest_pure rfl (by omega) below₂

/-- A statement, if expressions can be read from its position on and statements after it. -/
theorem reads_statementRule (inside : pos ≤ tokens.size)
    (each : ReadsFrom precedence definitions tokens bound k pos expression e .node)
    (eachStatement : ReadsFrom precedence definitions tokens bound k (pos + 1) statement s .node) :
    Reads precedence definitions tokens bound k pos (Grammar.statementRule expression statement)
      (Descent.statementWith e s) .node (pos + 1) := by
  have further := each.later (Nat.le_succ pos)
  refine (reads_textNode.orElse (reads_importStatement.orElse ?_)).alternation
  refine (reads_classStatement eachStatement).orElse ?_
  refine (reads_definitionStatement eachStatement).orElse (reads_hasStatement.orElse ?_)
  refine (reads_guarded eachStatement further).orElse ?_
  refine (reads_guarded eachStatement further).orElse ?_
  refine (reads_assignment each inside).orElse ((reads_wordAssignment further).orElse ?_)
  refine (reads_stepStatement each inside).orElse ((reads_stepStatement each inside).orElse ?_)
  exact (each pos (Nat.le_refl pos) inside).only

/-- A program, if statements can be read. -/
theorem reads_programRule {depth : Nat} (inside : pos ≤ tokens.size)
    (eachStatement : ReadsFrom precedence definitions tokens bound k pos statement
      (Descent.statement precedence depth) .node) :
    Reads precedence definitions tokens bound k pos (Grammar.programRule statement)
      (Descent.program precedence depth) .node (pos + 1) := by
  apply reads_mapSequence
  intro fuel lt
  apply rest_cons lt (reads_maybe inside (reads_separator inside))
  intro _ p₁ above₁ below₁
  apply rest_cons lt (reads_statementList below₁ (eachStatement.later above₁))
  intro statements p₂ above₂ below₂
  apply rest_cons lt (reads_maybe below₂ (reads_separator below₂))
  intro _ p₃ above₃ below₃
  apply rest_cons lt (reads_terminal .terminator)
  intro _ p₄ above₄ below₄
  refine rest_pure ?_ (by omega) below₄
  simp [Grammar.item, Functor.map, Except.map]

end

end ClosureLang
