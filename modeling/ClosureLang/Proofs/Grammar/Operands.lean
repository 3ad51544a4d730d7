import ClosureLang.Proofs.Grammar.Depth
import ClosureLang.Proofs.Grammar.Moving
import ClosureLang.Proofs.Operators.Binding

/-!
# Operands of parsed trees

An expression is read up to where nothing makes it longer, except a lambda: it ends with its body,
and nothing is tried after it. If the body is an expression, that was read to its end itself; if it
is in braces, there can be more. Then what follows the brace is read with the expression in which
the lambda is the last operand. Everywhere else, operators, calls and attributes bind to operands as
they should.

So there is one way in which a tree can fail to bind as its levels ask, and it can be told from the
tree: a node goes on after braces (`ResumesAfterBraces`). A tree is `Tidy` if at each of its nodes
the operands are bound as they should be, or the node goes on after braces and the tokens have a dot
or a word directly after a closing brace. Here that is shown of every tree that is read.

What has to be carried along is how an expression ended. `ExpressionUpTo` says that nothing makes it
longer, or that it ends in braces; `ReceiverUpTo` says the same of what suffixes are tried after,
where only the application of an operator matters, because an operand by itself may take any suffix.
Where a suffix is found after all, the expression before it cannot have ended, so it stops at braces
(`ReceiverUpTo.extendable`). Since nothing but a dot or a word begins a suffix, a token list in
which neither stands directly after a closing brace has no such place.
-/

set_option autoImplicit false

namespace ClosureLang

/-- A dot or a word stands directly after a closing brace. -/
def GoesOnAfterBrace (tokens : List Token) : Prop :=
  ∃ pair ∈ tokens.zip tokens.tail,
    pair.1.kind = .closeBrace ∧ (pair.2.kind = .dot ∨ pair.2.kind = .word)

instance (tokens : List Token) : Decidable (GoesOnAfterBrace tokens) :=
  inferInstanceAs (Decidable (∃ pair ∈ tokens.zip tokens.tail, _))

namespace Descent

variable {tokens : Array Token} {k k' : Nat}

/-! ## Where expressions end -/

/-- The token before the position is a closing brace. -/
def AfterBrace (tokens : Array Token) (pos : Nat) : Prop :=
  ∃ i t, pos = i + 1 ∧ tokens[i]? = some t ∧ t.kind = .closeBrace

section

variable (precedence : Precedence) (e : Descent Node) (tokens : Array Token)

/-- Nothing makes what was read up to the position longer. -/
def Ended (pos : Nat) : Prop :=
  ∀ start receiver, (suffix precedence e start receiver).Misses tokens pos

variable (resumed : Prop)

/-- An expression was read up to a position from `k` on: operands are bound as they should be, and
it ended there or ends in braces there. -/
structure ExpressionUpTo (k : Nat) (n : Node) (pos : Nat) : Prop where
  reached : From tokens k pos
  tidy : precedence.Tidy resumed n
  ended : Ended precedence e tokens pos ∨ n.endsInBraces = true ∧ AfterBrace tokens pos

/-- What suffixes are tried after was read up to a position from `k` on. If an operator is applied
in it, it ended there or stops at braces there. -/
structure ReceiverUpTo (k : Nat) (n : Node) (pos : Nat) : Prop where
  reached : From tokens k pos
  tidy : precedence.Tidy resumed n
  ended : n.isOperator = false ∨ Ended precedence e tokens pos ∨
    n.stopsAtBraces = true ∧ AfterBrace tokens pos

end

variable {precedence : Precedence} {e e' s : Descent Node} {pos stop start : Nat}
  {receiver n : Node}

/-- Whether there is a suffix does not depend on what is before it. -/
theorem ended_of_misses (h : (suffix precedence e start receiver).Misses tokens pos) :
    Ended precedence e tokens pos := by
  intro start' receiver'
  simpa [suffix, callWithArguments, callWithoutArguments, attributeAccess, operation, text,
    misses_orElse_iff, misses_bind_iff] using h

/-- A suffix begins with a dot or a word. -/
theorem suffix_begins (h : (suffix precedence e start receiver).Finds tokens pos n stop) :
    ∃ t, tokens[pos]? = some t ∧ (t.kind = .dot ∨ t.kind = .word) := by
  have dotted {f : Token → Descent Node} (found : (token .dot >>= f).Finds tokens pos n stop) :
      ∃ t, tokens[pos]? = some t ∧ (t.kind = .dot ∨ t.kind = .word) := by
    obtain ⟨t, there, isDot, -⟩ := finds_token_bind_iff.mp found
    exact ⟨t, there, .inl isDot⟩
  simp only [suffix, finds_orElse_iff] at h
  rcases h with found | ⟨-, found | ⟨-, found | ⟨-, found⟩⟩⟩
  · exact dotted found
  · exact dotted found
  · exact dotted found
  · obtain ⟨t, there, isWord, -⟩ := finds_token_bind_iff.mp found
    exact ⟨t, there, .inr isWord⟩

/-! ## Parts of both expressions and statements -/

variable {resumed : Prop}

/-- An expression from some position on is one from an earlier position on. -/
theorem ExpressionUpTo.sooner (h : ExpressionUpTo precedence e tokens resumed k n pos)
    (le : k' ≤ k) : ExpressionUpTo precedence e tokens resumed k' n pos :=
  ⟨h.reached.sooner le, h.tidy, h.ended⟩

/-- For what is not extended, it makes no difference how an expression ended. -/
theorem Moves.of_expressions
    (h : Brings tokens (From tokens k) e (ExpressionUpTo precedence e' tokens resumed k')) :
    Moves tokens k k' e (precedence.Tidy resumed) :=
  h.mono fun _ _ read => ⟨read.reached, read.tidy⟩

/-- A body in braces is a tidy block, and ends right after a closing brace. -/
theorem bracedBody_brings (hs : Moves tokens (k + 1) (k + 1) s (precedence.Tidy resumed)) :
    Brings tokens (From tokens k) (bracedBody s) fun n stop => From tokens (k + 1) stop ∧
      precedence.Tidy resumed n ∧ n.isBlock = true ∧ AfterBrace tokens stop := by
  have statements := (hs.listOf (separator_moves.bind fun _ _ => hs)).optional
  refine Moves.take fun _ => separator_moves.optional.bind fun _ _ => ?_
  refine statements.bind fun found all => separator_moves.optional.bind fun _ _ => ?_
  refine token_steps.bind fun t => .pure fun pos ⟨reached, i, same, there, isBrace⟩ => ?_
  refine ⟨reached.sooner (Nat.le_succ _), Precedence.tidy_of_children trivial ?_, rfl, i, t, same,
    there, isBrace⟩
  cases found with
  | none => simp [Node.children]
  | some found => exact all found rfl

/-! ## Expressions -/

/-- A lambda ends with its body. -/
theorem lambda_brings
    (he : Brings tokens (From tokens (k + 1)) e
      (ExpressionUpTo precedence e' tokens resumed (k + 1)))
    (hs : Moves tokens (k + 2) (k + 2) s (precedence.Tidy resumed)) :
    Brings tokens (From tokens k) (lambda e s)
      (ExpressionUpTo precedence e' tokens resumed (k + 1)) := by
  have body : Brings tokens (From tokens (k + 1)) (lambdaBody e s) fun n stop => ∀ params,
      ExpressionUpTo precedence e' tokens resumed (k + 1) (.lambda params n none) stop := by
    have tidyLambda {n : Node} (tidy : precedence.Tidy resumed n) (params : List String) :
        precedence.Tidy resumed (.lambda params n none) :=
      Precedence.tidy_of_children trivial (by simpa [Node.children] using tidy)
    refine .orElse ((bracedBody_brings hs).mono ?_) (he.mono ?_)
    · rintro n stop ⟨reached, tidy, isBlock, brace⟩ params
      exact ⟨reached.sooner (Nat.le_succ _), tidyLambda tidy params,
        .inr ⟨by simp [Node.endsInBraces, isBlock], brace⟩⟩
    · rintro n stop ⟨reached, tidy, ended⟩ params
      refine ⟨reached, tidyLambda tidy params, ended.imp_right ?_⟩
      rintro ⟨braces, brace⟩
      exact ⟨by simp [Node.endsInBraces, braces], brace⟩
  refine .orElse ?parameters (.orElse ?parameter ?noParameter)
  case parameters =>
    exact parameterList_moves.bind fun params _ => Moves.pass fun _ => body.bind fun n =>
      .pure fun _ read => read params
  case parameter =>
    exact Moves.here fun _ => Moves.take fun _ => Moves.pass fun _ => body.bind fun n =>
      .accept_bind fun param _ => .pure fun _ read => read [param]
  case noParameter =>
    exact Moves.take fun _ => body.bind fun n => .pure fun _ read => read []

/-- An invocation or a primary is tidy and applies no operator. -/
theorem operand_moves (he : Moves tokens (k + 1) (k + 1) e (precedence.Tidy resumed)) :
    Moves tokens k (k + 1) (operand e) fun n =>
      precedence.Tidy resumed n ∧ n.isOperator = false := by
  have leaf {n : Node} (free : precedence.BindsOperands n) (none : n.children = [])
      (plain : n.isOperator = false) : precedence.Tidy resumed n ∧ n.isOperator = false :=
    ⟨Precedence.tidy_of_children free (by simp [none]), plain⟩
  refine .orElse ?invocation <| .orElse ?integer <|
    .orElse (textNode_moves fun _ => leaf trivial rfl rfl) <|
    .orElse (textNode_moves fun _ => leaf trivial rfl rfl) <|
    .orElse (textNode_moves fun _ => leaf trivial rfl rfl) <|
    .orElse (textNode_moves fun _ => leaf trivial rfl rfl) <|
    .orElse (Moves.take fun _ => Moves.pure (leaf trivial rfl rfl)) <|
    .orElse (Moves.take fun _ => Moves.pure (leaf trivial rfl rfl))
      (Moves.take fun _ => Moves.pure (leaf trivial rfl rfl))
  case invocation =>
    refine Moves.here fun _ => Moves.take fun _ => Moves.pass fun _ =>
      he.listWith.optional.bind fun args all => Moves.pass fun _ => Moves.accept_bind fun name =>
      Moves.pure ⟨Precedence.tidy_of_children trivial ?_, rfl⟩
    cases args with
    | none => simp [Node.children]
    | some args => exact all args rfl
  case integer =>
    exact Moves.here fun _ => Moves.take fun _ => Moves.accept_bind fun _ =>
      Moves.pure (leaf trivial rfl rfl)

/-- A suffix makes a tree in which operands are bound as they should be out of such a tree, if that
can be extended. -/
theorem suffix_brings (tidy : precedence.Tidy resumed receiver)
    (extendable : receiver.Extendable resumed)
    (he : Brings tokens (From tokens (k + 1)) e
      (ExpressionUpTo precedence e tokens resumed (k + 1))) :
    Brings tokens (From tokens k) (suffix precedence e start receiver)
      (ReceiverUpTo precedence e tokens resumed (k + 1)) := by
  have called {method : String} {args : List Node}
      (all : ∀ n ∈ args, precedence.Tidy resumed n) :
      precedence.Tidy resumed (.call method receiver args) :=
    Precedence.tidy_iff.mpr ⟨Precedence.bindsUnless_of_receiver extendable Iff.rfl Iff.rfl,
      by simpa [Node.children, tidy] using all⟩
  refine .orElse ?arguments (.orElse ?noArguments (.orElse ?access ?operation))
  case arguments =>
    exact Moves.take fun _ => Moves.pass fun _ => Moves.pass fun _ =>
      (Moves.of_expressions he).listWith.bind fun _ all => Moves.pass fun _ =>
      Moves.accept_bind fun _ => .pure fun _ reached => ⟨reached, called all, .inl rfl⟩
  case noArguments =>
    exact Moves.take fun _ => Moves.pass fun _ => Moves.pass fun _ => Moves.pass fun _ =>
      Moves.accept_bind fun _ => .pure fun _ reached => ⟨reached, called (by simp), .inl rfl⟩
  case access =>
    refine Moves.take fun _ => attributeName_moves.bind fun _ _ => .pure fun _ reached =>
      ⟨reached, Precedence.tidy_iff.mpr ⟨?_, by simp [Node.children, tidy]⟩, .inl rfl⟩
    exact Precedence.bindsUnless_of_receiver extendable Iff.rfl Iff.rfl
  case operation =>
    refine Moves.take fun _ => he.bind fun right => .accept_bind fun name _ => .pure ?_
    rintro pos ⟨reached, tidyRight, ended⟩
    refine ⟨reached, Precedence.tidy_reassociate tidy extendable tidyRight, .inr ?_⟩
    exact ended.imp_right fun ending =>
      ⟨Precedence.stopsAtBraces_reassociate ending.1, ending.2⟩

/-- Where a suffix is found, what is before it can be extended. -/
theorem ReceiverUpTo.extendable
    (h : ReceiverUpTo precedence e tokens (GoesOnAfterBrace tokens.toList) k receiver pos)
    (found : (suffix precedence e start receiver).Finds tokens pos n stop) :
    receiver.Extendable (GoesOnAfterBrace tokens.toList) := by
  rcases h.ended with plain | missed | ⟨stops, i, brace, rfl, there, isBrace⟩
  · exact .inl plain
  · exact absurd (missed start receiver) found.not_misses
  · obtain ⟨next, there', follows⟩ := suffix_begins found
    have pair : (tokens.toList.zip tokens.toList.tail)[i]? = some (brace, next) := by
      simpa [List.getElem?_zip_eq_some] using ⟨there, there'⟩
    exact .inr ⟨stops, (brace, next), List.mem_of_getElem? pair, isBrace, follows⟩

/-- Suffixes are read until there are no more. -/
theorem expressionWith_brings
    (he : ∀ k' > k, Brings tokens (From tokens k') e
      (ExpressionUpTo precedence e tokens (GoesOnAfterBrace tokens.toList) (k' + 1)))
    (hs : ∀ k' > k, Moves tokens k' k' s (precedence.Tidy (GoesOnAfterBrace tokens.toList))) :
    Brings tokens (From tokens k) (expressionWith precedence e s)
      (ExpressionUpTo precedence e tokens (GoesOnAfterBrace tokens.toList) (k + 1)) := by
  have expressions (k' : Nat) (later : k' > k) : Brings tokens (From tokens k') e
      (ExpressionUpTo precedence e tokens (GoesOnAfterBrace tokens.toList) k') :=
    (he k' later).mono fun _ _ read => read.sooner (Nat.le_succ k')
  have here := expressions (k + 1) (Nat.lt_succ_self k)
  refine .orElse (lambda_brings here (hs (k + 2) (by omega))) (Moves.here fun start => ?_)
  refine (operand_moves (.of_expressions here)).bind fun first ⟨tidy, plain⟩ => ?_
  have grows : Brings tokens
      (ReceiverUpTo precedence e tokens (GoesOnAfterBrace tokens.toList) (k + 1) first)
      (asLongAs (suffix precedence e start) first) fun n stop =>
        ReceiverUpTo precedence e tokens (GoesOnAfterBrace tokens.toList) (k + 1) n stop ∧
          (suffix precedence e start n).Misses tokens stop := by
    refine .asLongAs_misses (fun n pos receiver => receiver.reached.2) ?_
    intro receiver pos n stop before found
    have step := suffix_brings (k := pos) before.tidy (before.extendable found)
      (expressions (pos + 1) (Nat.lt_succ_of_lt before.reached.1)) pos n stop
      ⟨Nat.le_refl pos, before.reached.2⟩ found
    exact ⟨⟨step.reached.sooner (Nat.le_succ_of_le before.reached.1), step.tidy, step.ended⟩,
      step.reached.1⟩
  intro pos n stop begins found
  obtain ⟨after, missed⟩ := grows pos n stop ⟨begins, tidy, .inl plain⟩ found
  exact ⟨after.reached, after.tidy, .inl (ended_of_misses missed)⟩

/-! ## Statements -/

/-- An attribute that is assigned to keeps its receiver. -/
theorem tidy_of_assignTo {target value assigned : Node}
    (h : Grammar.assignTo target value = .ok assigned) (htarget : precedence.Tidy resumed target)
    (hvalue : precedence.Tidy resumed value) : precedence.Tidy resumed assigned := by
  unfold Grammar.assignTo at h
  split at h <;> cases h
  · exact Precedence.tidy_of_children trivial (by simpa [Node.children] using hvalue)
  · obtain ⟨binds, below⟩ := Precedence.tidy_iff.mp htarget
    exact Precedence.tidy_iff.mpr ⟨binds, by simpa [Node.children, hvalue] using below⟩

/-- A keyword with a condition and a body is tidy, if both are: the node itself binds nothing. -/
theorem guarded_moves {kind : TokenKind} {build : Node → Node → Node}
    (free : ∀ condition body, precedence.BindsOperands (build condition body))
    (both : ∀ condition body, (build condition body).children = [condition, body])
    (he : Moves tokens (k + 1) (k + 1) e (precedence.Tidy resumed))
    (body : Moves tokens (k + 1) (k + 1) (bracedBody s) (precedence.Tidy resumed)) :
    Moves tokens k (k + 1) (guarded kind build e s) (precedence.Tidy resumed) :=
  Moves.take fun _ => he.bind fun condition hcondition => body.bind fun n hn =>
  Moves.pure (Precedence.tidy_of_children (free condition n) (by simp [both, hcondition, hn]))

/-- An assignment is tidy, if its sides are. -/
theorem assignment_moves (first : Moves tokens k (k + 1) e (precedence.Tidy resumed))
    (he : Moves tokens (k + 1) (k + 1) e (precedence.Tidy resumed)) :
    Moves tokens k (k + 1) (assignment e) (precedence.Tidy resumed) :=
  Moves.here fun _ => first.bind fun _ htarget => Moves.pass fun _ => he.bind fun _ hvalue =>
  Moves.accept fun _ assigned => tidy_of_assignTo assigned htarget hvalue

/-- A step is tidy, if its operand is. -/
theorem stepStatement_moves {kind : TokenKind} {step : Step}
    (first : Moves tokens k (k + 1) e (precedence.Tidy resumed)) :
    Moves tokens k (k + 1) (stepStatement kind step e) (precedence.Tidy resumed) :=
  first.bind fun _ hn => Moves.pass fun _ =>
  Moves.pure (Precedence.tidy_of_children trivial (by simp [Node.children, hn]))

/-- Statements at a position are made of expressions there and of parts after it. -/
theorem statementWith_moves (first : Moves tokens k (k + 1) e (precedence.Tidy resumed))
    (he : Moves tokens (k + 1) (k + 1) e (precedence.Tidy resumed))
    (hs : Moves tokens (k + 2) (k + 2) s (precedence.Tidy resumed)) :
    Moves tokens k (k + 1) (statementWith e s) (precedence.Tidy resumed) := by
  have leaf {n : Node} (free : precedence.BindsOperands n) (none : n.children = []) :
      precedence.Tidy resumed n := Precedence.tidy_of_children free (by simp [none])
  have body : Moves tokens (k + 1) (k + 1) (bracedBody s) (precedence.Tidy resumed) :=
    (bracedBody_brings hs).mono
      fun _ _ ⟨reached, tidy, _⟩ => ⟨reached.sooner (Nat.le_succ _), tidy⟩
  have word : Moves tokens (k + 1) (k + 1) (token .word) fun _ => True :=
    Moves.token.mono (Nat.le_succ _) fun _ _ => trivial
  have parameters : Moves tokens (k + 1) (k + 1) (optional parameterList) fun _ => True :=
    (parameterList_moves.mono (Nat.le_succ _) fun _ => id).optional.mono (Nat.le_refl _)
      fun _ _ => trivial
  have traits : Moves tokens (k + 1) (k + 1) (optional traitList) fun _ => True := by
    have trait : Moves tokens (k + 1) (k + 1) trait fun _ => True := Moves.pass fun _ => word
    have list : Moves tokens (k + 1) (k + 1) traitList fun _ => True :=
      Moves.here fun _ => (trait.listOf trait).bind fun _ _ => Moves.accept fun _ _ => trivial
    exact list.optional.mono (Nat.le_refl _) fun _ _ => trivial
  refine .orElse (textNode_moves fun _ => leaf trivial rfl) <|
    .orElse ?importing <| .orElse ?classDef <| .orElse ?defining <| .orElse ?having <|
    .orElse (guarded_moves (fun _ _ => trivial) (fun _ _ => rfl) he body) <|
    .orElse (guarded_moves (fun _ _ => trivial) (fun _ _ => rfl) he body) <|
    .orElse (assignment_moves first he) <| .orElse ?assigning <|
    .orElse (stepStatement_moves first) <| .orElse (stepStatement_moves first) first
  case importing =>
    exact Moves.here fun _ => Moves.take fun _ => word.listWith.bind fun _ _ =>
      Moves.accept_bind fun _ => Moves.pure (leaf trivial rfl)
  case classDef =>
    exact Moves.here fun _ => Moves.take fun _ => Moves.pass fun _ => body.bind fun n hn =>
      Moves.accept_bind fun _ =>
      Moves.pure (Precedence.tidy_of_children trivial (by simp [Node.children, hn]))
  case defining =>
    exact Moves.here fun _ => Moves.take fun _ => Moves.pass fun _ => parameters.bind fun _ _ =>
      body.bind fun n hn => Moves.accept_bind fun _ =>
      Moves.pure (Precedence.tidy_of_children trivial (by simp [Node.children, hn]))
  case having =>
    exact Moves.here fun _ => Moves.take fun _ => Moves.pass fun _ => traits.bind fun _ _ =>
      Moves.accept_bind fun _ => Moves.pure (leaf trivial rfl)
  case assigning =>
    exact Moves.here fun _ => Moves.take fun _ => Moves.pass fun _ => he.bind fun n hn =>
      Moves.accept_bind fun _ =>
      Moves.pure (Precedence.tidy_of_children trivial (by simp [Node.children, hn]))

/-! ## Whole programs -/

/-- What is read deep enough, at whatever position. -/
theorem expressionAndStatement_brings {depth : Nat} (deep : 2 * tokens.size + 2 ≤ depth) (k : Nat) :
    Brings tokens (From tokens k) (expression precedence depth)
        (ExpressionUpTo precedence (expression precedence depth) tokens
          (GoesOnAfterBrace tokens.toList) (k + 1)) ∧
      Moves tokens k (k + 1) (statement precedence depth)
        (precedence.Tidy (GoesOnAfterBrace tokens.toList)) := by
  -- By induction from the last position on: parts start further on than what they are parts of.
  induction remaining : tokens.size + 1 - k using Nat.strong_induction_on generalizing k with
  | _ m ih =>
    subst remaining
    by_cases inside : k ≤ tokens.size
    · have later (k' : Nat) (lt : k' > k) := ih _ (by omega) k' rfl
      have statements (k' : Nat) (lt : k' > k) : Moves tokens k' k' (statement precedence depth)
          (precedence.Tidy (GoesOnAfterBrace tokens.toList)) :=
        (later k' lt).2.mono (Nat.le_succ k') fun _ => id
      have expressions : Brings tokens (From tokens k) (expression precedence depth)
          (ExpressionUpTo precedence (expression precedence depth) tokens
            (GoesOnAfterBrace tokens.toList) (k + 1)) := fun pos n stop start found =>
        expressionWith_brings (fun k' lt => (later k' lt).1) statements pos n stop start
          ((expression_result deep start.2).symm.trans found)
      have next : Moves tokens (k + 1) (k + 1) (expression precedence depth)
          (precedence.Tidy (GoesOnAfterBrace tokens.toList)) :=
        (Moves.of_expressions (later (k + 1) (Nat.lt_succ_self k)).1).mono (Nat.le_succ _)
          fun _ => id
      exact ⟨expressions, fun pos n stop start found =>
        statementWith_moves (.of_expressions expressions) next (statements (k + 2) (by omega)) pos
          n stop start ((statement_result deep start.2).symm.trans found)⟩
    · exact ⟨fun _ _ _ start => absurd (Nat.le_trans start.1 start.2) inside,
        fun _ _ _ start => absurd (Nat.le_trans start.1 start.2) inside⟩

/-- A program is tidy, where what goes on after braces is a dot or a word directly after a closing
brace of the list. -/
theorem program_moves {depth : Nat} (deep : 2 * tokens.size + 2 ≤ depth) :
    Moves tokens 0 0 (program precedence depth)
      (precedence.Tidy (GoesOnAfterBrace tokens.toList)) := by
  have hs : Moves tokens 0 0 (statement precedence depth)
      (precedence.Tidy (GoesOnAfterBrace tokens.toList)) :=
    (expressionAndStatement_brings deep 0).2.mono (Nat.zero_le _) fun _ => id
  refine separator_moves.optional.bind fun _ _ =>
    (hs.listOf (separator_moves.bind fun _ _ => hs)).bind fun statements all =>
    separator_moves.optional.bind fun _ _ => Moves.pass fun _ => Moves.pure ?_
  unfold Grammar.programOf
  split
  · exact all _ (by simp)
  · exact Precedence.tidy_of_children trivial all

end Descent

/-- In a parsed tree, operands are bound as they should be at exactly those places where nothing
goes on after braces; and if no dot and no word stands directly after a closing brace, they are
bound so everywhere. -/
theorem operands_of_parse {precedence : Precedence} {tokens : List Token} {program : Node}
    (read : parse precedence tokens = .ok program) :
    (program.Everywhere fun n => precedence.BindsOperands n ↔ ¬ precedence.ResumesAfterBraces n) ∧
      (¬ GoesOnAfterBrace tokens → program.Everywhere precedence.BindsOperands) := by
  have moves : Descent.Moves tokens.toArray 0 0
      (Descent.program precedence (2 * tokens.length + 2))
      (precedence.Tidy (GoesOnAfterBrace tokens)) := Descent.program_moves (Nat.le_refl _)
  have tidy : precedence.Tidy (GoesOnAfterBrace tokens) program :=
    (moves 0 program tokens.length ⟨Nat.le_refl 0, Nat.zero_le _⟩ (parse_ok_iff_finds.mp read)).2
  refine ⟨tidy.mono fun n binds => ?_, fun ends => tidy.mono fun n binds => ?_⟩
  · exact ⟨fun bound resumes => resumes.not_bindsOperands bound,
      fun ends => binds.resolve_right fun resumes => ends resumes.1⟩
  · exact binds.resolve_right fun resumes => ends resumes.2

/-- An operator of lower level may go on after braces; after a semicolon a statement begins. -/
theorem operands_afterBraces :
    let word (text : String) : Token := ⟨.word, .text text, ⟨0, 0⟩⟩
    let mark (kind : TokenKind) : Token := ⟨kind, .none, ⟨0, 0⟩⟩
    let braces : List Token := [word "a", word "*", mark .arrow, mark .openBrace, mark .closeBrace]
    let further : List Token := [word "b", mark .dot, word "c", mark .terminator]
    let lambda : Node := .operator "*" (.var "a" none) (.lambda [] (.block []) none)
    let access : Node := .attr "c" (.var "b" none)
    let one : Node := .operator "+" lambda access
    let two : Node := .block [lambda, access]
    parse .default (braces ++ word "+" :: further) = .ok one ∧
      (one.Everywhere fun n =>
        Precedence.default.BindsOperands n ↔ ¬ Precedence.default.ResumesAfterBraces n) ∧
      parse .default (braces ++ mark .semicolon :: further) = .ok two ∧
      ¬ GoesOnAfterBrace (braces ++ mark .semicolon :: further) ∧
      two.Everywhere Precedence.default.BindsOperands := by
  intro word mark braces further lambda access one two
  have readOne : parse .default (braces ++ word "+" :: further) = .ok one :=
    Grammar.parse_ok_iff.mpr rfl
  have readTwo : parse .default (braces ++ mark .semicolon :: further) = .ok two :=
    Grammar.parse_ok_iff.mpr rfl
  have ends : ¬ GoesOnAfterBrace (braces ++ mark .semicolon :: further) := by decide
  exact ⟨readOne, (operands_of_parse readOne).1, readTwo, ends, (operands_of_parse readTwo).2 ends⟩

/-- An attribute after braces is taken of the whole operator that is applied to the lambda. -/
theorem attribute_of_operator :
    let word (text : String) : Token := ⟨.word, .text text, ⟨0, 0⟩⟩
    let mark (kind : TokenKind) : Token := ⟨kind, .none, ⟨0, 0⟩⟩
    let tokens : List Token := [⟨.integer, .number 1, ⟨0, 0⟩⟩, word "+", mark .arrow,
      mark .openBrace, mark .closeBrace, mark .dot, word "x", mark .terminator]
    let program : Node :=
      .attr "x" (.operator "+" (.integer 1) (.lambda [] (.block []) none))
    parse .default tokens = .ok program ∧
      ¬ program.Everywhere Precedence.default.BindsOperands := by
  intro word mark tokens program
  refine ⟨Grammar.parse_ok_iff.mpr rfl, fun all => ?_⟩
  have receiver :
      (Node.operator "+" (.integer 1) (.lambda [] (.block []) none)).isOperator = false :=
    all [] program rfl
  cases receiver

end ClosureLang
