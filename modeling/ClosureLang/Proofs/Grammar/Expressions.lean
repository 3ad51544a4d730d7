import ClosureLang.Grammar.Expression
import ClosureLang.Proofs.Grammar.Parts

/-!
# The alternatives of an expression follow their readers

Lambdas and operands start with a token, so they follow their readers as soon as expressions and
statements do further on. Calls, attributes and operations start with an expression: where that has
been read, the rest of them follows the reader of a suffix.
-/

set_option autoImplicit false

namespace ClosureLang

open Matching Rule

variable {precedence : Precedence} {definitions : Definitions} {tokens : Array Token}
  {bound k pos stop : Nat} {expression statement : Rule} {e s : Descent Node} {receiver : Node}

/-! ## Lambdas and operands -/

/-- A keyword that stands for a value is read as the reader of constants reads it. -/
theorem reads_constant {α : Type} {val : α → Value} {kind : TokenKind} {a : α} :
    Reads precedence definitions tokens bound k pos (.map (.terminal kind) fun _ => .ok (val a))
      (Descent.constant kind a) val (pos + 1) :=
  .map (reads_terminal kind) fun _ _ above below => .accept_pure rfl above below

/-- Literals and names are read by the reader of primaries. -/
theorem reads_primary :
    Reads precedence definitions tokens bound k pos Grammar.primary Descent.primary .node
      (pos + 1) := by
  have integer : Reads precedence definitions tokens bound k pos
      (.map (.terminal .integer) fun v => do return .node (.integer (← v.toNumber)))
      Descent.integer .node (pos + 1) :=
    .here (.map (reads_terminal .integer) fun t _ above below => .accept_map rfl above below)
  refine (integer.orElse (reads_textNode.orElse (reads_textNode.orElse ?_))).alternation
  refine reads_textNode.orElse (reads_textNode.orElse (reads_constant.orElse ?_))
  exact reads_constant.orElse reads_constant.only

/-- After a dot, names and the keywords that may stand for one are read as the reader reads them. -/
theorem reads_attributeName :
    Reads precedence definitions tokens bound k pos Grammar.attributeName Descent.attributeName
      .name (pos + 1) := by
  have word : Reads precedence definitions tokens bound k pos
      (.map (.terminal .word) Action.textName)
      (do Descent.text (← Descent.here) (← Descent.token .word)) .name (pos + 1) :=
    .here (.map (reads_terminal .word) fun t _ above below => .accept rfl above below)
  refine (word.orElse (reads_constant.orElse (reads_constant.orElse ?_))).alternation
  refine reads_constant.orElse (reads_constant.orElse (reads_constant.orElse ?_))
  exact reads_constant.orElse reads_constant.only

/-- A name with arguments follows its reader, if the expressions after the name do. -/
theorem reads_invocation
    (each : ReadsFrom precedence definitions tokens bound k (pos + 1) expression e .node) :
    Reads precedence definitions tokens bound k pos (Grammar.invocation expression)
      (Descent.invocation e) .node (pos + 1) := by
  apply Reads.here
  apply reads_mapSequence
  intro fuel lt
  apply rest_cons lt (reads_terminal .word)
  intro name p₁ above₁ below₁
  apply rest_cons lt (reads_terminal .openParen)
  intro _ p₂ above₂ below₂
  apply rest_cons lt (reads_maybe below₂ (reads_listWith below₂ (each.later (by omega))))
  intro args p₃ above₃ below₃
  apply rest_cons lt (reads_terminal .closeParen)
  intro _ p₄ above₄ below₄
  refine rest_accept_map ?_ (by omega) below₄
  simp [Grammar.item, optionalNodes_map]
  rfl

/-- The body of a lambda follows its reader, be it in braces or an expression. -/
theorem reads_lambdaBody (inside : pos ≤ tokens.size)
    (each : ReadsFrom precedence definitions tokens bound k pos expression e .node)
    (eachStatement : ReadsFrom precedence definitions tokens bound k pos statement s .node) :
    Reads precedence definitions tokens bound k pos (Grammar.lambdaBody expression statement)
      (Descent.lambdaBody e s) .node (pos + 1) :=
  ((reads_bracedBody (eachStatement.later (Nat.le_succ pos))).orElse
    (each pos (Nat.le_refl pos) inside).only).alternation

section

variable (each : ReadsFrom precedence definitions tokens bound k (pos + 1) expression e .node)
  (eachStatement : ReadsFrom precedence definitions tokens bound k (pos + 1) statement s .node)

include each eachStatement

/-- A lambda with its parameters in parentheses follows its reader. -/
theorem reads_lambdaWithParameters :
    Reads precedence definitions tokens bound k pos
      (Grammar.lambdaWithParameters expression statement) (Descent.lambdaWithParameters e s) .node
      (pos + 1) := by
  apply reads_mapSequence
  intro fuel lt
  apply rest_cons lt reads_parameterList
  intro params p₁ above₁ below₁
  apply rest_cons lt (reads_terminal .arrow)
  intro _ p₂ above₂ below₂
  refine rest_cons lt (reads_lambdaBody below₂ (each.later (by omega))
    (eachStatement.later (by omega))) fun body p₃ above₃ below₃ => ?_
  exact rest_pure rfl (by omega) below₃

/-- A lambda with one bare parameter follows its reader. -/
theorem reads_lambdaWithParameter :
    Reads precedence definitions tokens bound k pos
      (Grammar.lambdaWithParameter expression statement) (Descent.lambdaWithParameter e s) .node
      (pos + 1) := by
  apply Reads.here
  apply reads_mapSequence
  intro fuel lt
  apply rest_cons lt (reads_terminal .word)
  intro param p₁ above₁ below₁
  apply rest_cons lt (reads_terminal .arrow)
  intro _ p₂ above₂ below₂
  refine rest_cons lt (reads_lambdaBody below₂ (each.later (by omega))
    (eachStatement.later (by omega))) fun body p₃ above₃ below₃ => ?_
  refine rest_accept_map ?_ (by omega) below₃
  simp [Grammar.item]
  rfl

/-- A lambda that begins at its arrow follows its reader. -/
theorem reads_lambdaWithoutParameters :
    Reads precedence definitions tokens bound k pos
      (Grammar.lambdaWithoutParameters expression statement) (Descent.lambdaWithoutParameters e s)
      .node (pos + 1) := by
  apply reads_mapSequence
  intro fuel lt
  apply rest_cons lt (reads_terminal .arrow)
  intro _ p₁ above₁ below₁
  refine rest_cons lt (reads_lambdaBody below₁ (each.later (by omega))
    (eachStatement.later (by omega))) fun body p₂ above₂ below₂ => ?_
  exact rest_pure rfl (by omega) below₂

end

/-! ## Suffixes -/

/-- Where an expression was found already, the rule follows the reader of what comes after it. -/
def Rule.Resumes (precedence : Precedence) (definitions : Definitions) (tokens : Array Token)
    (bound k pos stop : Nat) (receiver : Node) (rule : Rule) (q : Descent Node) : Prop :=
  ∀ fuel < bound, ∀ s : Progress, s.Clean precedence tokens k →
    s.memo.find? ⟨0, pos⟩ = some (.resolved (some ⟨.node receiver, stop⟩)) →
    (rule.match? definitions tokens fuel pos).Agrees s (q tokens stop) fun m r s' =>
      Match.Shows .node (stop + 1) tokens.size m r ∧ s'.Clean precedence tokens k ∧
        Progress.Keeps k s s'

/-- A sequence that begins with an expression goes on from the expression that was found: it resumes
as its remaining rules follow the reader. -/
theorem resumes_mapSequence {rules : List Rule}
    {action : List Value → Except ActionError Value} {q : Descent Node}
    (h : ∀ fuel < bound, FollowsFrom precedence tokens k
      (rest definitions tokens fuel action pos rules [.node receiver] stop) (q tokens stop)
      (Match.Shows .node (stop + 1) tokens.size)) :
    Resumes precedence definitions tokens bound k pos stop receiver
      (mapSequence (Grammar.expression :: rules) action) q
  | 0, _, _, _, _ => agrees_outOfFuel
  | 1, _, _, _, _ => agrees_outOfFuel
  | 2, _, _, _, _ => agrees_outOfFuel
  | fuel + 3, lt, state, clean, found => by
    change (rest definitions tokens (fuel + 1) action pos (Grammar.expression :: rules) []
      pos).Agrees state _ _
    unfold rest Matching.sequence
    rw [bind_assoc]
    exact .bind_left (forward_of_resolved found) rfl (h (fuel + 1) (by omega) state clean)

/-- A call with arguments resumes after its receiver, if the expressions further on follow their
reader. -/
theorem callWithArguments_resumes
    (each : ReadsFrom precedence definitions tokens bound k (stop + 1) Grammar.expression e
      .node) :
    Resumes precedence definitions tokens bound k pos stop receiver
      (Grammar.callWithArguments Grammar.expression)
      (Descent.callWithArguments e pos receiver) := by
  apply resumes_mapSequence
  intro fuel lt
  apply rest_cons lt (reads_terminal .dot)
  intro _ p₁ above₁ below₁
  apply rest_cons lt (reads_terminal .word)
  intro method p₂ above₂ below₂
  apply rest_cons lt (reads_terminal .openParen)
  intro _ p₃ above₃ below₃
  apply rest_cons lt (reads_listWith below₃ (each.later (by omega)))
  intro args p₄ above₄ below₄
  apply rest_cons lt (reads_terminal .closeParen)
  intro _ p₅ above₅ below₅
  refine rest_accept_map ?_ (by omega) below₅
  simp [Grammar.item]
  rfl

/-- A call with empty parentheses resumes after its receiver. -/
theorem callWithoutArguments_resumes :
    Resumes precedence definitions tokens bound k pos stop receiver
      (Grammar.callWithoutArguments Grammar.expression)
      (Descent.callWithoutArguments pos receiver) := by
  apply resumes_mapSequence
  intro fuel lt
  apply rest_cons lt (reads_terminal .dot)
  intro _ p₁ above₁ below₁
  apply rest_cons lt (reads_terminal .word)
  intro method p₂ above₂ below₂
  apply rest_cons lt (reads_terminal .openParen)
  intro _ p₃ above₃ below₃
  apply rest_cons lt (reads_terminal .closeParen)
  intro _ p₄ above₄ below₄
  refine rest_accept_map ?_ (by omega) below₄
  simp [Grammar.item]
  rfl

/-- The access to an attribute resumes after its receiver. -/
theorem attributeAccess_resumes :
    Resumes precedence definitions tokens bound k pos stop receiver
      (Grammar.attributeAccess Grammar.expression) (Descent.attributeAccess receiver) := by
  apply resumes_mapSequence
  intro fuel lt
  apply rest_cons lt (reads_terminal .dot)
  intro _ p₁ above₁ below₁
  apply rest_cons lt reads_attributeName
  intro name p₂ above₂ below₂
  exact rest_pure rfl (by omega) below₂

/-- An operation resumes after its left operand, if the expression on the right follows its reader;
what is made of the two is the same rotation on both sides. -/
theorem operation_resumes
    (each : ReadsFrom precedence definitions tokens bound k (stop + 1) Grammar.expression e
      .node) :
    Resumes precedence definitions tokens bound k pos stop receiver
      (Grammar.operation precedence Grammar.expression)
      (Descent.operation precedence e pos receiver) := by
  apply resumes_mapSequence
  intro fuel lt
  apply rest_cons lt (reads_terminal .word)
  intro name p₁ above₁ below₁
  apply rest_cons lt (each p₁ above₁ below₁)
  intro right p₂ above₂ below₂
  refine rest_accept_map ?_ (by omega) below₂
  simp [Grammar.item]
  rfl

end ClosureLang
