import ClosureLang.Proofs.Grammar.Finding
import ClosureLang.Proofs.Operators.Chain

/-!
# Reading chains of operators

Operands of one token each, with a word between any two of them, are read as a chain of operators.
An operator takes the whole rest of the chain as its right operand, and is put in front of what that
was read to; nothing is left to make the expression longer then. So the tree is what the chain is
put together to from the right, and has the closed form of that.

That tokens write a chain is an inductive relation (`WritesChain`), and the proof that they are read
to it goes along with it, from the last operand to the first. For each operand it has to be seen
that nothing else begins with it: it is followed by a word or by the end of the input, so it is no
parameter of a lambda and no call, and no suffix but an operation follows. At the end stands the
terminator, where no statement goes on.

What is read of the precedence table is the level of each operator. Words that are not in the table
have a level, too, so any word may stand between two operands.
-/

set_option autoImplicit false

namespace ClosureLang

/-- The tree of a token that is an operand by itself. -/
def Token.operand? (t : Token) : Option Node :=
  match t.kind, t.payload with
  | .integer, .number value => some (.integer value)
  | .string, .text text => some (.string text)
  | .atom, .text name => some (.atom name)
  | .word, .text name => some (.var name none)
  | .instanceVar, .text name => some (.instanceVar name)
  | .trueWord, _ => some (.boolean true)
  | .falseWord, _ => some (.boolean false)
  | .nilWord, _ => some .nil
  | _, _ => none

/-- The kinds of tokens that can be operands by themselves. -/
def Token.operandKinds : List TokenKind :=
  [.integer, .string, .atom, .word, .instanceVar, .trueWord, .falseWord, .nilWord]

/-- The tokens are operands with words between them, as in the chain. -/
inductive WritesChain : List Token → Node → List Link → Prop where
  | single {t : Token} {first : Node} : t.operand? = some first → WritesChain [t] first []
  | link {t word : Token} {name : String} {first second : Node} {written : List Token}
      {links : List Link} : t.operand? = some first → word.kind = .word → word.text? = some name →
      WritesChain written second links →
      WritesChain (t :: word :: written) first (⟨name, second⟩ :: links)

namespace Descent

variable {tokens : Array Token} {pos stop : Nat} {t : Token} {n : Node}

/-- A token with a text is found where there is one, and one position is taken. -/
@[simp] theorem finds_textNode_iff {kind : TokenKind} {build : String → Node} :
    (textNode kind build).Finds tokens pos n stop ↔ ∃ t, tokens[pos]? = some t ∧ t.kind = kind ∧
      ∃ name, t.text? = some name ∧ n = build name ∧ stop = pos + 1 := by
  simp [textNode, text, textOf_eq_ok_iff]

/-- A token with a text is missed where there is no token of its kind. -/
@[simp] theorem misses_textNode_iff {kind : TokenKind} {build : String → Node} :
    (textNode kind build).Misses tokens pos ↔ ∀ t, tokens[pos]? = some t → t.kind ≠ kind := by
  simp [textNode, text]

/-- A keyword is found where there is one, and one position is taken. -/
@[simp] theorem finds_constant_iff {kind : TokenKind} {a : Node} :
    (constant kind a).Finds tokens pos n stop ↔
      ∃ t, tokens[pos]? = some t ∧ t.kind = kind ∧ n = a ∧ stop = pos + 1 := by
  simp [constant]

/-- A keyword is missed where there is none. -/
@[simp] theorem misses_constant_iff {kind : TokenKind} {a : Node} :
    (constant kind a).Misses tokens pos ↔ ∀ t, tokens[pos]? = some t → t.kind ≠ kind := by
  simp [constant]

/-- A token that is an operand by itself is read as a primary. -/
theorem primary_finds (there : tokens[pos]? = some t) (operand : t.operand? = some n) :
    primary.Finds tokens pos n (pos + 1) := by
  obtain ⟨kind, payload, span⟩ := t
  unfold Token.operand? at operand
  simp only at operand
  split at operand <;> cases operand <;>
    simp [primary, finds_orElse_iff, integer, there, numberOf_eq_ok_iff, Token.number?, Token.text?]

/-- A token that is an operand by itself is of no other kind. -/
theorem ne_of_operand? (operand : t.operand? = some n) (kind : TokenKind)
    (other : kind ∉ Token.operandKinds) : t.kind ≠ kind := by
  rintro rfl
  refine other ?_
  unfold Token.operand? at operand
  split at operand <;> simp_all [Token.operandKinds]

/-- The first of the tokens that are left is at the position, and the others are left after it. -/
theorem getElem?_of_drop {following : List Token} (left : tokens.toList.drop pos = t :: following) :
    tokens[pos]? = some t ∧ tokens.toList.drop (pos + 1) = following := by
  constructor
  · rw [← Array.getElem?_toList, ← List.head?_drop, left]
    rfl
  · rw [← List.tail_drop, left]
    rfl

/-- The token after a part is as many positions further on as the part has tokens. -/
theorem getElem?_after {written following : List Token}
    (left : tokens.toList.drop pos = written ++ t :: following) :
    tokens[pos + written.length]? = some t := by
  have rest : tokens.toList.drop (pos + written.length) = t :: following := by
    rw [← List.drop_drop, left, List.drop_left]
  exact (getElem?_of_drop rest).1

section

variable {precedence : Precedence} {e s : Descent Node} {start : Nat} {last : Token}

/-- No suffix begins at a token that is neither a dot nor a word. -/
theorem suffix_misses (there : tokens[pos]? = some t) (noDot : t.kind ≠ .dot)
    (noWord : t.kind ≠ .word) : (suffix precedence e start n).Misses tokens pos := by
  simp [suffix, callWithArguments, callWithoutArguments, attributeAccess, operation,
    misses_orElse_iff, there, noDot, noWord]

/-- A word with an expression after it is read as an operation with that right side. -/
theorem suffix_finds {name : String} {right : Node} (there : tokens[pos]? = some t)
    (word : t.kind = .word) (carries : t.text? = some name)
    (found : e.Finds tokens (pos + 1) right stop) :
    (suffix precedence e start n).Finds tokens pos (precedence.reassociate n name right) stop := by
  have named : textOf t = .ok name := textOf_eq_ok_iff.mpr carries
  have operation : (operation precedence e start n).Finds tokens pos
      (precedence.reassociate n name right) stop :=
    finds_token_bind_iff.mpr ⟨t, there, word, finds_bind_iff.mpr ⟨right, stop, found,
      finds_accept_bind_iff.mpr ⟨name, named, finds_pure_iff.mpr ⟨rfl, rfl⟩⟩⟩⟩
  simp [suffix, callWithArguments, callWithoutArguments, attributeAccess, finds_orElse_iff,
    there, word, operation]

/-- An operand with neither an arrow nor an argument list after it is an expression with all its
suffixes. -/
theorem expressionWith_finds {n' : Node} {u : Token} (there : tokens[pos]? = some t)
    (operand : t.operand? = some n) (next : tokens[pos + 1]? = some u)
    (noArrow : u.kind ≠ .arrow) (noParen : u.kind ≠ .openParen)
    (found : (asLongAs (suffix precedence e pos) n).Finds tokens (pos + 1) n' stop) :
    (expressionWith precedence e s).Finds tokens pos n' stop := by
  have noLambda : (lambda e s).Misses tokens pos := by
    have noList := ne_of_operand? operand .openParen (by decide)
    have noBody := ne_of_operand? operand .arrow (by decide)
    have noParameters : parameterList.Misses tokens pos := by simp [parameterList, there, noList]
    refine misses_orElse_iff.mpr ⟨misses_bind_iff.mpr (.inl noParameters), ?_⟩
    simp [lambdaWithParameter, lambdaWithoutParameters, misses_orElse_iff, there, noBody, next,
      noArrow]
  have noInvocation : (invocation e).Misses tokens pos := by
    simp [invocation, there, next, noParen]
  refine noLambda.orElse (finds_here_bind_iff.mpr (finds_bind_iff.mpr ?_))
  exact ⟨n, pos + 1, noInvocation.orElse (primary_finds there operand), found⟩

/-- The tokens of a chain are read to what the chain is put together to. -/
theorem expression_chain {written : List Token} {first : Node} {links : List Link}
    (chain : WritesChain written first links) (ends : last.kind = .terminator) :
    ∀ {pos depth : Nat}, tokens.toList.drop pos = written ++ [last] → links.length < depth →
      (expression precedence depth).Finds tokens pos (precedence.combine first links)
        (pos + written.length) := by
  induction chain with
  | single operand =>
    intro pos depth left deep
    obtain ⟨depth, rfl⟩ := Nat.exists_eq_add_one_of_ne_zero (Nat.ne_zero_of_lt deep)
    obtain ⟨there, left'⟩ := getElem?_of_drop left
    obtain ⟨next, -⟩ := getElem?_of_drop left'
    exact expressionWith_finds there operand next (by simp [ends]) (by simp [ends])
      (suffix_misses next (by simp [ends]) (by simp [ends])).asLongAs
  | @link t word name first second written links operand isWord carries chain ih =>
    intro pos depth left deep
    obtain ⟨depth, rfl⟩ := Nat.exists_eq_add_one_of_ne_zero (Nat.ne_zero_of_lt deep)
    obtain ⟨there, left'⟩ := getElem?_of_drop left
    obtain ⟨next, left''⟩ := getElem?_of_drop left'
    have right := ih left'' (Nat.lt_of_succ_lt_succ deep)
    have stop : pos + (t :: word :: written).length = pos + 1 + 1 + written.length := by
      simp only [List.length_cons]
      omega
    have after : tokens[pos + 1 + 1 + written.length]? = some last := getElem?_after left''
    have inside : pos + 1 < tokens.size := (Array.getElem?_eq_some_iff.mp next).1
    rw [stop]
    refine expressionWith_finds there operand next (by simp [isWord]) (by simp [isWord]) ?_
    exact (suffix_finds next isWord carries right).asLongAs_once inside
      (suffix_misses after (by simp [ends]) (by simp [ends]))

/-- An expression up to the end of the input is a statement. -/
theorem statementWith_finds {u : Token} (there : tokens[pos]? = some t)
    (operand : t.operand? = some n) (next : tokens[pos + 1]? = some u) (noEqual : u.kind ≠ .equal)
    {n' : Node} (found : e.Finds tokens pos n' stop) (after : tokens[stop]? = some last)
    (ends : last.kind = .terminator) : (statementWith e s).Finds tokens pos n' stop := by
  have noWord (kind : TokenKind) (other : kind ∉ Token.operandKinds) {f : Token → Descent Node} :
      (token kind >>= f).Misses tokens pos :=
    misses_bind_iff.mpr (.inl (by simp [there, ne_of_operand? operand kind other]))
  have noStatement (kind : TokenKind) (other : kind ∉ Token.operandKinds)
      {f : Nat → Token → Descent Node} :
      (here >>= fun start => token kind >>= f start).Misses tokens pos :=
    misses_here_bind_iff.mpr (noWord kind other)
  have noStep (kind : TokenKind) (other : kind ≠ .terminator) {f : Node → Token → Descent Node} :
      (e >>= fun n => token kind >>= f n).Misses tokens pos :=
    misses_bind_iff.mpr (.inr ⟨n', stop, found, by simp [after, ends, other.symm]⟩)
  have noWordAssignment : (wordAssignment e).Misses tokens pos := by
    simp [wordAssignment, next, noEqual]
  exact Misses.orElse (noStatement .comment (by decide)) <|
    Misses.orElse (noStatement .importWord (by decide)) <|
    Misses.orElse (noStatement .classWord (by decide)) <|
    Misses.orElse (noStatement .defWord (by decide)) <|
    Misses.orElse (noStatement .hasWord (by decide)) <|
    Misses.orElse (noWord .ifWord (by decide)) <|
    Misses.orElse (noWord .whileWord (by decide)) <|
    Misses.orElse (misses_here_bind_iff.mpr (noStep .equal (by decide))) <|
    Misses.orElse noWordAssignment <|
    Misses.orElse (noStep .plusPlus (by decide)) <|
    Misses.orElse (noStep .minusMinus (by decide)) found

/-- A program of one statement that takes all tokens before the terminator. -/
theorem program_finds {depth : Nat} (there : tokens[0]? = some t)
    (operand : t.operand? = some n) {n' : Node}
    (found : (statement precedence depth).Finds tokens 0 n' stop)
    (after : tokens[stop]? = some last) (ends : last.kind = .terminator) :
    (program precedence depth).Finds tokens 0 n' (stop + 1) := by
  have noSeparator {pos : Nat} {t : Token} (there : tokens[pos]? = some t)
      (noSemicolon : t.kind ≠ .semicolon) (noNewline : t.kind ≠ .newline) :
      separator.Misses tokens pos :=
    misses_bind_iff.mpr (.inl (by simp [mark, misses_orElse_iff, there, noSemicolon, noNewline]))
  have before : separator.Misses tokens 0 := noSeparator there
    (ne_of_operand? operand .semicolon (by decide)) (ne_of_operand? operand .newline (by decide))
  have behind : separator.Misses tokens stop :=
    noSeparator after (by simp [ends]) (by simp [ends])
  have noFurther : (separator >>= fun _ => statement precedence depth).Misses tokens stop :=
    misses_bind_iff.mpr (.inl behind)
  have statements : (statementList (statement precedence depth)).Finds tokens 0 [n'] stop :=
    finds_bind_iff.mpr ⟨n', stop, found, finds_bind_iff.mpr ⟨[], stop, noFurther.many,
      finds_pure_iff.mpr ⟨rfl, rfl⟩⟩⟩
  refine finds_bind_iff.mpr ⟨none, 0, before.optional, finds_bind_iff.mpr
    ⟨[n'], stop, statements, finds_bind_iff.mpr ⟨none, stop, behind.optional, ?_⟩⟩⟩
  simp [after, ends, Grammar.programOf]

end

end Descent

/-- A chain takes a token for each operand and each operator. -/
theorem WritesChain.length {written : List Token} {first : Node} {links : List Link}
    (chain : WritesChain written first links) : written.length = 2 * links.length + 1 := by
  induction chain with
  | single => rfl
  | link _ _ _ _ ih =>
    simp only [List.length_cons]
    omega

/-- No operand of a chain that was written so is an operation. -/
theorem WritesChain.plain {written : List Token} {first : Node} {links : List Link}
    (chain : WritesChain written first links) : ∀ l ∈ links, l.operand.isOperator = false := by
  have plainOperand {t : Token} {n : Node} (operand : t.operand? = some n) :
      n.isOperator = false := by
    unfold Token.operand? at operand
    split at operand <;> cases operand <;> rfl
  have both : first.isOperator = false ∧ ∀ l ∈ links, l.operand.isOperator = false := by
    induction chain with
    | single operand => exact ⟨plainOperand operand, by simp⟩
    | link operand _ _ _ ih => exact ⟨plainOperand operand, List.forall_mem_cons.mpr ih⟩
  exact both.2

/-- A chain of operands with words between them is read to the tree that is split at the leftmost
operator of lowest level, again and again. -/
theorem parse_chain (precedence : Precedence) {written : List Token} {first : Node}
    {links : List Link} {last : Token} (chain : WritesChain written first links)
    (ends : last.kind = .terminator) :
    parse precedence (written ++ [last]) = .ok (precedence.splitAtLowest first links) := by
  rw [← Precedence.combine_eq_splitAtLowest chain.plain, parse_ok_iff_finds, List.length_append,
    List.length_singleton]
  have left : (written ++ [last]).toArray.toList.drop 0 = written ++ [last] := rfl
  have found : (Descent.expression precedence (2 * (written.length + 1) + 1)).Finds
      (written ++ [last]).toArray 0 (precedence.combine first links) (0 + written.length) :=
    Descent.expression_chain chain ends left (by rw [chain.length]; omega)
  obtain ⟨t, u, following, operand, begins, noEqual⟩ : ∃ t u following,
      t.operand? = some first ∧ written ++ [last] = t :: u :: following ∧ u.kind ≠ .equal := by
    cases chain with
    | single operand => exact ⟨_, _, _, operand, rfl, by simp [ends]⟩
    | link operand isWord => exact ⟨_, _, _, operand, rfl, by simp [isWord]⟩
  obtain ⟨there, left'⟩ := Descent.getElem?_of_drop (left.trans begins)
  obtain ⟨next, -⟩ := Descent.getElem?_of_drop left'
  have after := Descent.getElem?_after left
  have statement : (Descent.statement precedence (2 * (written.length + 1) + 2)).Finds
      (written ++ [last]).toArray 0 (precedence.combine first links) (0 + written.length) :=
    Descent.statementWith_finds there operand next noEqual found after ends
  rw [Nat.zero_add] at statement after
  exact Descent.program_finds there operand statement after ends

/-- Three levels that go down: the tree is split at the last operator, and what is before it is
nested to the right. -/
theorem parse_downwardChain :
    let word (text : String) : Token := ⟨.word, .text text, ⟨0, 0⟩⟩
    let x (name : String) : Node := .var name none
    let written : List Token :=
      [word "a", word "*", word "b", word "+", word "c", word "<", word "d"]
    let links : List Link := [⟨"*", x "b"⟩, ⟨"+", x "c"⟩, ⟨"<", x "d"⟩]
    WritesChain written (x "a") links ∧
      parse .default (written ++ [⟨.terminator, .none, ⟨0, 0⟩⟩]) =
        .ok (.operator "<" (.operator "*" (x "a") (.operator "+" (x "b") (x "c"))) (x "d")) := by
  intro word x written links
  have chain : WritesChain written (x "a") links :=
    .link rfl rfl rfl (.link rfl rfl rfl (.link rfl rfl rfl (.single rfl)))
  have split : Precedence.default.splitAtLowest (x "a") links =
      .operator "<" (.operator "*" (x "a") (.operator "+" (x "b") (x "c"))) (x "d") := by
    have lower : Precedence.default.of "<" < Precedence.default.of "+" := by decide
    have lower' : Precedence.default.of "<" < Precedence.default.of "*" := by decide
    rw [← Precedence.combine_eq_splitAtLowest chain.plain]
    simp [links, Precedence.combine, Precedence.reassociate, lower, lower']
  exact ⟨chain, (parse_chain .default chain rfl).trans (congrArg _ split)⟩

end ClosureLang
