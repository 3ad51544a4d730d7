import ClosureLang.Proofs.Grammar.Failing
import ClosureLang.Proofs.Grammar.Operands

/-!
# What the actions of the language refuse

Reading a program ends with a tree, or where no part of the language is found, or because an action
refuses what was read. Actions are given what their parts were read to, so there are three things
that can be wrong with it. A token may lack its text, or its number, or an expression before an
equality sign is neither a variable nor an attribute. If no payload is missing, only the last one is
left, and the failure names the kind of that expression.

`Refuses` lists the three for a position from which the part begins. A missing payload is told from
the tokens; that a target is wrong is told from what the expression before the equality sign was
read to (`WrongTarget`). The readers are gone through one by one, each of which is only refused
where one of its parts is, or by an action of its own.

Parts start at the position of what they are parts of or further on. So what the failures of
expressions and statements are like is shown from the last position to the first (`PartsFrom`): an
expression inside another one stands further on, and one with which a statement begins is dealt with
before the statement.
-/

set_option autoImplicit false

namespace ClosureLang

/-! ## Complete tokens -/

/-- The kinds of tokens that need a text. -/
def TokenKind.needsText : TokenKind → Bool
  | .word | .string | .atom | .instanceVar | .comment => true
  | _ => false

/-- The token carries what its kind needs: a number, a text or nothing. -/
def Token.isComplete (t : Token) : Bool :=
  (t.kind != .integer || t.number?.isSome) && (!t.kind.needsText || t.text?.isSome)

namespace Token

variable {t : Token}

/-- A token is complete if it carries the number or the text that its kind needs. -/
theorem isComplete_eq_true_iff : t.isComplete = true ↔
    (t.kind = .integer → t.number?.isSome = true) ∧
      (t.kind.needsText = true → t.text?.isSome = true) := by
  simp only [isComplete, Bool.and_eq_true, Bool.or_eq_true, bne_iff_ne, Bool.not_eq_true',
    Bool.eq_false_iff, imp_iff_not_or, ne_eq]

end Token

namespace Descent

variable {α β : Type} {tokens : Array Token} {k : Nat}

/-! ## Refusals -/

/-- From `start` on stands an assignment to an expression that is neither a variable nor an
attribute. -/
structure WrongTarget (e : Descent Node) (tokens : Array Token) (start : Nat) (target : Node) :
    Prop where
  assigned : ∃ mid sign value stop, e.Finds tokens start target mid ∧
    tokens[mid]? = some sign ∧ sign.kind = .equal ∧ e.Finds tokens (mid + 1) value stop
  noVariable : ∀ name binding, target ≠ .var name binding
  noAttribute : ∀ name receiver, target ≠ .attr name receiver

/-- Why an action refuses what was read from `start` on. -/
inductive Refuses (e : Descent Node) (tokens : Array Token) (start : Nat) : ActionError → Prop where
  | text {t : Token} (written : t ∈ tokens) (needs : t.kind.needsText = true)
      (without : t.text? = none) : Refuses e tokens start (.shape .textToken .token)
  | number {t : Token} (written : t ∈ tokens) (needs : t.kind = .integer)
      (without : t.number? = none) : Refuses e tokens start (.shape .integerValue .token)
  | target {target : Node} (wrong : WrongTarget e tokens start target) :
      Refuses e tokens start (.unassignable target.kind)

/-- If all tokens are complete, only an assignment is refused. -/
theorem Refuses.target_of_complete {e : Descent Node} {start : Nat} {cause : ActionError}
    (refused : Refuses e tokens start cause) (complete : ∀ t ∈ tokens, t.isComplete = true) :
    ∃ target, WrongTarget e tokens start target ∧ cause = .unassignable target.kind := by
  cases refused with
  | text written needs without =>
    have carried := (Token.isComplete_eq_true_iff.mp (complete _ written)).2 needs
    simp [without] at carried
  | number written needs without =>
    have carried := (Token.isComplete_eq_true_iff.mp (complete _ written)).1 needs
    simp [without] at carried
  | target wrong => exact ⟨_, wrong, rfl⟩

/-- The error is that an action refused something. -/
def Refusal (e : Descent Node) (tokens : Array Token) (error : ParseError) : Prop :=
  ∃ start cause, error = .action start (spanAt? tokens start) cause ∧ Refuses e tokens start cause

/-! ## Payloads -/

variable {e s : Descent Node} {I : Nat → Prop} {start : Nat} {t : Token}

/-- No text can be taken from a token exactly if it carries none; the error says so. -/
theorem textOf_eq_error_iff {cause : ActionError} :
    textOf t = .error cause ↔ t.text? = none ∧ cause = .shape .textToken .token := by
  unfold textOf
  cases t.text? <;> simp [eq_comm]

/-- No number can be taken from a token exactly if it carries none; the error says so. -/
theorem numberOf_eq_error_iff {cause : ActionError} :
    numberOf t = .error cause ↔ t.number? = none ∧ cause = .shape .integerValue .token := by
  unfold numberOf
  cases t.number? <;> simp [eq_comm]

/-- A list of tokens has no texts because one of them has none. -/
theorem textOf_of_mapM_error {ts : List Token} {cause : ActionError}
    (failed : ts.mapM textOf = .error cause) : ∃ t ∈ ts, textOf t = .error cause := by
  induction ts with
  | nil => cases failed
  | cons t ts ih =>
    rw [List.mapM_cons] at failed
    cases first : textOf t with
    | error cause' =>
      rw [first] at failed
      cases failed
      exact ⟨t, List.mem_cons_self, first⟩
    | ok text =>
      cases rest : ts.mapM textOf with
      | error cause' =>
        rw [first, rest] at failed
        cases failed
        obtain ⟨t', inside, same⟩ := ih rest
        exact ⟨t', List.mem_cons_of_mem t inside, same⟩
      | ok texts =>
        rw [first, rest] at failed
        cases failed

/-- Taking the text of a token that needs one is only refused because it carries none. -/
theorem text_refuses (written : t ∈ tokens) (needs : t.kind.needsText = true) :
    FailsOnly tokens I (text start t) (Refusal e tokens) := by
  refine .accept fun cause failed => ⟨start, cause, rfl, ?_⟩
  obtain ⟨without, rfl⟩ := textOf_eq_error_iff.mp failed
  exact .text written needs without

/-- Taking the texts of such tokens is only refused because one of them carries none. -/
theorem texts_refuses {ts : List Token} (all : ∀ t ∈ ts, t ∈ tokens ∧ t.kind.needsText = true) :
    FailsOnly tokens I (texts start ts) (Refusal e tokens) := by
  refine .accept fun cause failed => ⟨start, cause, rfl, ?_⟩
  obtain ⟨t, inside, same⟩ := textOf_of_mapM_error failed
  obtain ⟨without, rfl⟩ := textOf_eq_error_iff.mp same
  exact .text (all t inside).1 (all t inside).2 without

/-- A token with a text is only refused because the text is missing. -/
theorem textNode_refuses {kind : TokenKind} {build : String → Node}
    (needs : kind.needsText = true) :
    FailsOnly tokens (From tokens k) (textNode kind build) (Refusal e tokens) :=
  .here fun _ => .pass fun _ written isKind =>
    (text_refuses written (isKind ▸ needs)).andThen fun _ => .pure

/-- A keyword is not refused. -/
theorem constant_refuses {kind : TokenKind} {a : α} :
    FailsOnly tokens I (constant kind a) (Refusal e tokens) :=
  FailsOnly.token.andThen fun _ => .pure

/-- An integer is only refused because the number is missing. -/
theorem integer_refuses : FailsOnly tokens (From tokens k) integer (Refusal e tokens) := by
  refine .here fun start => .pass fun t written isInteger => .andThen ?_ fun _ => .pure
  refine .accept fun cause failed => ⟨start, cause, rfl, ?_⟩
  obtain ⟨without, rfl⟩ := numberOf_eq_error_iff.mp failed
  exact .number written isInteger without

/-- A primary is only refused for a missing payload. -/
theorem primary_refuses : FailsOnly tokens (From tokens k) primary (Refusal e tokens) :=
  .orElse integer_refuses <| .orElse (textNode_refuses rfl) <| .orElse (textNode_refuses rfl) <|
    .orElse (textNode_refuses rfl) <| .orElse (textNode_refuses rfl) <|
    .orElse constant_refuses <| .orElse constant_refuses constant_refuses

/-- The name of an attribute is only refused for a missing text. -/
theorem attributeName_refuses :
    FailsOnly tokens (From tokens k) attributeName (Refusal e tokens) := by
  refine .orElse ?word <| .orElse constant_refuses <| .orElse constant_refuses <|
    .orElse constant_refuses <| .orElse constant_refuses <| .orElse constant_refuses <|
    .orElse constant_refuses constant_refuses
  exact .here fun _ => .pass fun _ written isWord => text_refuses written (isWord ▸ rfl)

/-- Separators are not refused. -/
theorem separator_refuses : FailsOnly tokens I separator (Refusal e tokens) := by
  have mark : FailsOnly tokens (fun _ => True) mark (Refusal e tokens) := .orElse .token .token
  exact (mark.listOf (fun _ _ _ _ _ => trivial) mark fun _ _ _ _ _ => trivial).weaken
    fun _ _ => trivial

/-- The tokens of a list are tokens of the program, and they have the kind that is listed. -/
theorem listWith_token_moves {between kind : TokenKind} :
    Moves tokens k k (listWith between (token kind)) fun ts =>
      ∀ t ∈ ts, t ∈ tokens ∧ t.kind = kind :=
  .listWith <| token_steps.mono fun _ _ ⟨further, _, _, there, isKind⟩ =>
    ⟨further.sooner (Nat.le_succ k), Array.mem_of_getElem? there, isKind⟩

/-- A list of parameters is only refused for a missing text. -/
theorem parameterList_refuses :
    FailsOnly tokens (From tokens k) parameterList (Refusal e tokens) := by
  refine .here fun start => .pass fun _ _ _ => ?_
  refine .go (.listWith .token (Moves.token.mono (Nat.le_succ k) fun _ _ => trivial))
    listWith_token_moves fun params all => .pass fun _ _ _ => texts_refuses fun t inside => ?_
  exact ⟨(all t inside).1, (all t inside).2 ▸ rfl⟩

/-! ## Parts that are made of expressions and statements -/

/-- From `k` on, expressions and statements only fail because something is refused. They are never
read backwards. -/
structure PartsFrom (e s : Descent Node) (tokens : Array Token) (k : Nat) : Prop where
  expression : FailsOnly tokens (From tokens k) e (Refusal e tokens)
  statement : FailsOnly tokens (From tokens k) s (Refusal e tokens)
  expression_moves : Moves tokens k k e fun _ => True
  statement_moves : Moves tokens k k s fun _ => True

namespace PartsFrom

/-- A list of expressions is refused where one of them is. -/
theorem expressions (parts : PartsFrom e s tokens k) {between : TokenKind} :
    FailsOnly tokens (From tokens k) (listWith between e) (Refusal e tokens) :=
  .listWith parts.expression parts.expression_moves

/-- A list of statements is refused where one of them is. -/
theorem statementList (parts : PartsFrom e s tokens k) :
    FailsOnly tokens (From tokens k) (statementList s) (Refusal e tokens) := by
  have keeps : Brings tokens (From tokens k) s fun _ => From tokens k :=
    Brings.mono parts.statement_moves fun _ _ reached => reached.1
  refine .listOf parts.statement keeps ?_ ?_
  · exact .go separator_refuses separator_moves fun _ _ => parts.statement
  · exact separator_moves.bind fun _ _ => keeps

/-- A body in braces is refused where one of its statements is. -/
theorem bracedBody (parts : PartsFrom e s tokens k) :
    FailsOnly tokens (From tokens k) (bracedBody s) (Refusal e tokens) :=
  .pass fun _ _ _ => .go (.optional separator_refuses) separator_moves.optional fun _ _ =>
    .andThen (.optional parts.statementList) fun _ =>
    .andThen (.optional separator_refuses) fun _ => .andThen .token fun _ => .pure

/-- A lambda is refused where a parameter or a part of its body is; its parts start further on. -/
theorem lambda (parts : PartsFrom e s tokens (k + 1)) :
    FailsOnly tokens (From tokens k) (lambda e s) (Refusal e tokens) := by
  have body : FailsOnly tokens (From tokens (k + 1)) (lambdaBody e s) (Refusal e tokens) :=
    .orElse parts.bracedBody parts.expression
  refine .orElse ?parameters (.orElse ?parameter ?noParameter)
  case parameters =>
    exact .go parameterList_refuses parameterList_moves fun _ _ => .pass fun _ _ _ =>
      body.andThen fun _ => .pure
  case parameter =>
    exact .here fun _ => .take fun _ written isWord => .pass fun _ _ _ => body.andThen fun _ =>
      (text_refuses written (isWord ▸ rfl)).andThen fun _ => .pure
  case noParameter =>
    exact .take fun _ _ _ => body.andThen fun _ => .pure

/-- An invocation or a primary is refused where a payload is missing or an argument is refused. -/
theorem operand (parts : PartsFrom e s tokens (k + 1)) :
    FailsOnly tokens (From tokens k) (operand e) (Refusal e tokens) := by
  refine .orElse ?_ primary_refuses
  exact .here fun _ => .take fun _ written isWord => .pass fun _ _ _ =>
    .andThen (.optional parts.expressions) fun _ => .andThen .token fun _ =>
    (text_refuses written (isWord ▸ rfl)).andThen fun _ => .pure

/-- A suffix is refused where a name lacks its text or an expression in it is refused. -/
theorem suffix (parts : PartsFrom e s tokens k) {precedence : Precedence} {receiver : Node} :
    FailsOnly tokens (From tokens k) (suffix precedence e start receiver) (Refusal e tokens) := by
  refine .orElse ?arguments (.orElse ?noArguments (.orElse ?access ?operation))
  case arguments =>
    exact .pass fun _ _ _ => .pass fun _ written isWord => .pass fun _ _ _ =>
      parts.expressions.andThen fun _ => .andThen .token fun _ =>
      (text_refuses written (isWord ▸ rfl)).andThen fun _ => .pure
  case noArguments =>
    exact .pass fun _ _ _ => .pass fun _ written isWord => .andThen .token fun _ =>
      .andThen .token fun _ => (text_refuses written (isWord ▸ rfl)).andThen fun _ => .pure
  case access =>
    exact .pass fun _ _ _ => attributeName_refuses.andThen fun _ => .pure
  case operation =>
    exact .pass fun _ written isWord => parts.expression.andThen fun _ =>
      (text_refuses written (isWord ▸ rfl)).andThen fun _ => .pure

/-- A suffix takes tokens and never goes back. -/
theorem suffix_moves (parts : PartsFrom e s tokens k) {precedence : Precedence} {receiver : Node} :
    Moves tokens k k (Descent.suffix precedence e start receiver) fun _ => True := by
  refine .orElse ?arguments (.orElse ?noArguments (.orElse ?access ?operation))
  case arguments =>
    exact Moves.pass fun _ => Moves.pass fun _ => Moves.pass fun _ =>
      parts.expression_moves.listWith.bind fun _ _ => Moves.pass fun _ =>
      Moves.accept_bind fun _ => Moves.pure trivial
  case noArguments =>
    exact Moves.pass fun _ => Moves.pass fun _ => Moves.pass fun _ => Moves.pass fun _ =>
      Moves.accept_bind fun _ => Moves.pure trivial
  case access =>
    exact Moves.pass fun _ => attributeName_moves.bind fun _ _ => Moves.pure trivial
  case operation =>
    exact Moves.pass fun _ => parts.expression_moves.bind fun _ _ =>
      Moves.accept_bind fun _ => Moves.pure trivial

/-- An expression is refused where a lambda, its first operand or a suffix is. -/
theorem expressionWith (parts : PartsFrom e s tokens (k + 1)) {precedence : Precedence}
    {P : Node → Prop} (moves : Moves tokens k (k + 1) (Descent.operand e) P) :
    FailsOnly tokens (From tokens k) (expressionWith precedence e s) (Refusal e tokens) :=
  .orElse parts.lambda <| .here fun _ => .go parts.operand moves fun first _ =>
    .asLongAs (fun _ => parts.suffix)
      (fun _ => Brings.mono parts.suffix_moves fun _ _ reached => reached.1) first

/-! ## Statements -/

/-- A keyword with a condition and a body is refused where one of the two is. -/
theorem guarded (parts : PartsFrom e s tokens (k + 1)) {kind : TokenKind}
    {build : Node → Node → Node} :
    FailsOnly tokens (From tokens k) (guarded kind build e s) (Refusal e tokens) :=
  .take fun _ _ _ => .go parts.expression parts.expression_moves fun _ _ =>
    parts.bracedBody.andThen fun _ => .pure

/-- A class is refused for a missing name or where its body is. -/
theorem classStatement (parts : PartsFrom e s tokens (k + 1)) :
    FailsOnly tokens (From tokens k) (classStatement s) (Refusal e tokens) :=
  .here fun _ => .take fun _ _ _ => .pass fun _ written isWord => parts.bracedBody.andThen fun _ =>
    (text_refuses written (isWord ▸ rfl)).andThen fun _ => .pure

/-- A definition is refused for a missing name or where its parameters or its body are. -/
theorem definitionStatement (parts : PartsFrom e s tokens (k + 1)) :
    FailsOnly tokens (From tokens k) (definitionStatement s) (Refusal e tokens) :=
  .here fun _ => .take fun _ _ _ => .pass fun _ written isWord =>
    .go (.optional parameterList_refuses)
      (parameterList_moves.mono (Nat.le_succ (k + 1)) fun _ => id).optional fun _ _ =>
    parts.bracedBody.andThen fun _ => (text_refuses written (isWord ▸ rfl)).andThen fun _ => .pure

/-- An assignment to a word is refused for a missing text or where its value is. -/
theorem wordAssignment (parts : PartsFrom e s tokens (k + 1)) :
    FailsOnly tokens (From tokens k) (wordAssignment e) (Refusal e tokens) :=
  .here fun _ => .take fun _ written isWord => .pass fun _ _ _ => parts.expression.andThen fun _ =>
    (text_refuses written (isWord ▸ rfl)).andThen fun _ => .pure

end PartsFrom

/-- An import is only refused for a missing text. -/
theorem importStatement_refuses :
    FailsOnly tokens (From tokens k) importStatement (Refusal e tokens) := by
  refine .here fun _ => .pass fun _ _ _ =>
    .go (.listWith .token (Moves.token.mono (Nat.le_succ k) fun _ _ => trivial))
      listWith_token_moves fun path all =>
      .andThen (texts_refuses fun t inside => ?_) fun _ => .pure
  exact ⟨(all t inside).1, (all t inside).2 ▸ rfl⟩

/-- Traits are only refused for a missing text. -/
theorem traitList_refuses : FailsOnly tokens (From tokens k) traitList (Refusal e tokens) := by
  have trait : FailsOnly tokens (From tokens k) trait (Refusal e tokens) :=
    .pass fun _ _ _ => .token
  have moves : Moves tokens k k Descent.trait fun t => t ∈ tokens ∧ t.kind = .word :=
    Moves.pass fun _ => token_steps.mono fun _ _ ⟨further, _, _, there, isKind⟩ =>
      ⟨further.sooner (Nat.le_succ k), Array.mem_of_getElem? there, isKind⟩
  have keeps : Brings tokens (From tokens k) Descent.trait fun _ => From tokens k :=
    Brings.mono moves fun _ _ reached => reached.1
  refine .here fun _ => .go (trait.listOf keeps trait keeps) (moves.listOf moves) fun traits all =>
    texts_refuses fun t inside => ?_
  exact ⟨(all t inside).1, (all t inside).2 ▸ rfl⟩

/-- A declaration of traits is only refused for a missing text. -/
theorem hasStatement_refuses :
    FailsOnly tokens (From tokens k) hasStatement (Refusal e tokens) :=
  .here fun _ => .pass fun _ _ _ => .pass fun _ written isTarget =>
    .andThen (.optional traitList_refuses) fun _ =>
    (text_refuses written (isTarget ▸ rfl)).andThen fun _ => .pure

/-- Only variables and attributes are assigned to. -/
theorem assignTo_eq_error_iff {target value : Node} {cause : ActionError} :
    Grammar.assignTo target value = .error cause ↔ cause = .unassignable target.kind ∧
      (∀ name binding, target ≠ .var name binding) ∧
      ∀ name receiver, target ≠ .attr name receiver := by
  unfold Grammar.assignTo
  split <;> simp_all [eq_comm]

/-- An assignment is refused where its sides are, or because its target is neither a variable nor an
attribute: this is the one refusal that does not come from a payload. -/
theorem assignment_refuses (first : FailsOnly tokens (From tokens k) e (Refusal e tokens))
    (moves : Moves tokens k (k + 1) e fun _ => True) (parts : PartsFrom e s tokens (k + 1)) :
    FailsOnly tokens (From tokens k) (assignment e) (Refusal e tokens) := by
  refine .hereAt fun start pos error begins failed => ?_
  obtain ⟨reached, rfl⟩ := begins
  rcases fails_bind_iff.mp failed with inTarget | ⟨target, mid, readTarget, failed⟩
  · exact first pos error reached inTarget
  rcases fails_bind_iff.mp failed with inSign | ⟨sign, mid', readSign, failed⟩
  · exact absurd inSign not_fails_token
  obtain ⟨there, isEqual, rfl⟩ := finds_token_iff.mp readSign
  have further : From tokens (k + 1) (mid + 1) :=
    (Moves.token mid sign (mid + 1) (moves pos target mid reached readTarget).1 readSign).1.sooner
      (Nat.le_succ (k + 1))
  rcases fails_bind_iff.mp failed with inValue | ⟨value, stop, readValue, failed⟩
  · exact parts.expression (mid + 1) error further inValue
  obtain ⟨cause, refused, rfl⟩ := fails_accept_iff.mp failed
  obtain ⟨rfl, noVariable, noAttribute⟩ := assignTo_eq_error_iff.mp refused
  exact ⟨pos, _, rfl, .target ⟨⟨mid, sign, value, stop, readTarget, there, isEqual, readValue⟩,
    noVariable, noAttribute⟩⟩

/-- A statement is refused where its parts are, or for a wrong target. -/
theorem statementWith_refuses (first : FailsOnly tokens (From tokens k) e (Refusal e tokens))
    (moves : Moves tokens k (k + 1) e fun _ => True) (parts : PartsFrom e s tokens (k + 1)) :
    FailsOnly tokens (From tokens k) (statementWith e s) (Refusal e tokens) := by
  have step {kind : TokenKind} {step : Step} :
      FailsOnly tokens (From tokens k) (stepStatement kind step e) (Refusal e tokens) :=
    first.andThen fun _ => .andThen .token fun _ => .pure
  exact .orElse (textNode_refuses rfl) <| .orElse importStatement_refuses <|
    .orElse parts.classStatement <| .orElse parts.definitionStatement <|
    .orElse hasStatement_refuses <| .orElse parts.guarded <| .orElse parts.guarded <|
    .orElse (assignment_refuses first moves parts) <| .orElse parts.wordAssignment <|
    .orElse step <| .orElse step first

/-! ## Whole programs -/

section

variable {precedence : Precedence} {depth : Nat}

/-- What is read deep enough only fails because something is refused, at whatever position. -/
theorem partsFrom (deep : 2 * tokens.size + 2 ≤ depth) (k : Nat) :
    PartsFrom (expression precedence depth) (statement precedence depth) tokens k := by
  have expressions (k : Nat) : Moves tokens k (k + 1) (expression precedence depth)
      (precedence.Tidy (GoesOnAfterBrace tokens.toList)) :=
    .of_expressions (expressionAndStatement_brings deep k).1
  have statements (k : Nat) : Moves tokens k (k + 1) (statement precedence depth)
      (precedence.Tidy (GoesOnAfterBrace tokens.toList)) := (expressionAndStatement_brings deep k).2
  -- By induction from the last position on: parts start further on than what they are parts of.
  induction remaining : tokens.size + 1 - k using Nat.strong_induction_on generalizing k with
  | _ m ih =>
    subst remaining
    have stay {p : Descent Node} {P : Node → Prop} (h : Moves tokens k (k + 1) p P) :
        Moves tokens k k p fun _ => True := h.mono (Nat.le_succ k) fun _ _ => trivial
    by_cases inside : k ≤ tokens.size
    · have later := ih _ (by omega) (k + 1) rfl
      have next : Moves tokens (k + 1) (k + 1) (expression precedence depth)
          (precedence.Tidy (GoesOnAfterBrace tokens.toList)) :=
        (expressions (k + 1)).mono (Nat.le_succ _) fun _ => id
      have read : FailsOnly tokens (From tokens k) (expression precedence depth)
          (Refusal (expression precedence depth) tokens) := fun pos e start failed =>
        later.expressionWith (operand_moves next) pos e start
          ((expression_result deep start.2).symm.trans failed)
      refine ⟨read, fun pos e start failed => ?_, stay (expressions k), stay (statements k)⟩
      exact statementWith_refuses read ((expressions k).mono (Nat.le_refl _) fun _ _ => trivial)
        later pos e start ((statement_result deep start.2).symm.trans failed)
    · have nowhere {pos : Nat} (start : From tokens k pos) : False :=
        inside (Nat.le_trans start.1 start.2)
      exact ⟨fun _ _ start => (nowhere start).elim, fun _ _ start => (nowhere start).elim,
        stay (expressions k), stay (statements k)⟩

/-- A program is only refused for one of the three reasons, at a depth that covers the tokens. -/
theorem program_refuses (deep : 2 * tokens.size + 2 ≤ depth) :
    FailsOnly tokens (From tokens 0) (program precedence depth)
      (Refusal (expression precedence depth) tokens) :=
  .go (.optional separator_refuses) separator_moves.optional fun _ _ =>
    (partsFrom deep 0).statementList.andThen fun _ =>
    .andThen (.optional separator_refuses) fun _ => .andThen .token fun _ => .pure

end

end Descent

/-- Reading fails at a token that is not expected, or because an action refuses something. -/
theorem error_of_descend {precedence : Precedence} {tokens : List Token} {depth : Nat}
    {error : ParseError} (deep : 2 * tokens.length + 2 ≤ depth)
    (failed : descend precedence depth tokens = .error error) :
    (∃ p found span, error = .unexpected p found span) ∨
      Descent.Refusal (Descent.expression precedence depth) tokens.toArray error := by
  unfold descend at failed
  simp only at failed
  split at failed
  · next error' inside =>
    cases failed
    exact .inr (Descent.program_refuses deep 0 error ⟨Nat.le_refl 0, Nat.zero_le _⟩ inside)
  · cases failed
    exact .inl ⟨_, _, _, rfl⟩
  · split at failed
    · cases failed
    · cases failed
      exact .inl ⟨_, _, _, rfl⟩

/-- A grammar is made of every precedence table. It reads a token list to a tree, or it reports an
unexpected token, or what an action refused. If no token lacks its number or its text, the last is
an assignment to an expression that is neither a variable nor an attribute, and the error names the
kind of that expression. -/
theorem Grammar.read_outcome (precedence : Precedence) :
    ∃ g, Grammar.new precedence = .ok g ∧ ∀ tokens : List Token,
      (∃ program, g.read tokens = .ok program) ∨
      (∃ p found span, g.read tokens = .error (.failed (.unexpected p found span))) ∨
      ∃ p cause,
        g.read tokens = .error (.failed (.action p (spanAt? tokens.toArray p) cause)) ∧
        let expression := Descent.expression precedence (2 * tokens.length + 2)
        Descent.Refuses expression tokens.toArray p cause ∧
          ((∀ t ∈ tokens, t.isComplete = true) →
            ∃ target, Descent.WrongTarget expression tokens.toArray p target ∧
              cause = .unassignable target.kind) := by
  obtain ⟨g, made⟩ : ∃ g, Grammar.new precedence = .ok g := ⟨_, rfl⟩
  refine ⟨g, made, fun tokens => ?_⟩
  have reads : g.read tokens =
      (descend precedence (2 * tokens.length + 2) tokens).mapError .failed := by
    rw [← Grammar.parse_eq_of_deep (Nat.le_refl _), parse, made]
  rw [reads]
  cases descends : descend precedence (2 * tokens.length + 2) tokens with
  | ok program => exact .inl ⟨program, rfl⟩
  | error error =>
    right
    rcases error_of_descend (Nat.le_refl _) descends with ⟨p, found, span, rfl⟩ | refusal
    · exact .inl ⟨p, found, span, rfl⟩
    · obtain ⟨p, cause, rfl, refused⟩ := refusal
      refine .inr ⟨p, cause, rfl, refused, fun complete => refused.target_of_complete ?_⟩
      simpa using complete

/-- What has no place to assign to may be anything that is read as an expression. -/
theorem Grammar.read_assignmentToInteger :
    let mark (kind : TokenKind) : Token := ⟨kind, .none, ⟨0, 0⟩⟩
    let tokens : List Token := [⟨.integer, .number 3, ⟨0, 1⟩⟩, mark .equal,
      ⟨.word, .text "y", ⟨4, 5⟩⟩, mark .terminator]
    (∀ t ∈ tokens, t.isComplete = true) ∧ ∃ g, Grammar.new .default = .ok g ∧
      g.read tokens = .error (.failed (.action 0 (some ⟨0, 1⟩) (.unassignable "integer"))) ∧
      ∃ target, Descent.WrongTarget (Descent.expression .default 10) tokens.toArray 0 target ∧
        target.kind = "integer" := by
  intro mark tokens
  have complete : ∀ t ∈ tokens, t.isComplete = true := by decide
  obtain ⟨g, made, outcome⟩ := Grammar.read_outcome .default
  have fails : g.read tokens =
      .error (.failed (.action 0 (some ⟨0, 1⟩) (.unassignable "integer"))) := by
    have reads : parse .default tokens = g.read tokens := by rw [parse, made]
    rw [← reads, Grammar.parse_eq_of_deep (Nat.le_refl _)]
    rfl
  refine ⟨complete, g, made, fails, ?_⟩
  rcases outcome tokens with ⟨_, read⟩ | ⟨_, _, _, read⟩ | ⟨p, cause, read, refused⟩
  · cases fails.symm.trans read
  · cases fails.symm.trans read
  · cases fails.symm.trans read
    obtain ⟨target, wrong, same⟩ := refused.2 complete
    exact ⟨target, wrong, (ActionError.unassignable.inj same).symm⟩

end ClosureLang
