import ClosureLang.Proofs.Grammar.Mirroring

/-!
# Corresponding token lists

Not all tokens matter to what is read. Two token lists correspond if related positions inside the
same braces have the same next token, unless no statement goes on there, and if separators lead from
related positions to related positions, however long they are. Then every reader of the language
does on the one list what it does on the other.

Closing braces and separators are looked for at the end of statements only. So it does not matter
what is there otherwise, as long as it is no token that a statement goes on with; and where a
statement may follow, only the position behind the separator counts.

There are three relations between positions for each number of braces, since what matters at a
position depends on what may stand there. `inner` is for positions at which a part may begin or go
on; there the next tokens are the same, or there is none that a part goes on with. `opened` is for
positions behind an opening brace and at the beginning, where a separator may be missing on one
side. `cleared` is for positions up to which a separator was read, where the next token is that of a
statement or closes the body, on both sides alike.

What the readers do is shown once for any such correspondence, along the readers from tokens up to
statements of any depth. `Alike` is what is carried through the mutual recursion: an expression or a
statement is mirrored from related positions to related positions, takes a token, and does not begin
where a body or the input ends.
-/

set_option autoImplicit false

namespace ClosureLang

/-- The kinds of tokens that neither separate or end statements nor are braces. -/
def TokenKind.isInner : TokenKind → Bool
  | .openBrace => false
  | .closeBrace => false
  | .semicolon => false
  | .newline => false
  | .terminator => false
  | _ => true

namespace Descent

variable {α β : Type} {tokens tokens' : Array Token}

/-- A closing brace or the end of the input is at the position. -/
def Closes (tokens : Array Token) (pos : Nat) : Prop :=
  ∃ t, tokens[pos]? = some t ∧ (t.kind = .closeBrace ∨ t.kind = .terminator)

/-- Where the first reader misses, nothing goes on. -/
theorem Misses.bind {p : Descent α} {f : α → Descent β} {pos : Nat} (h : p.Misses tokens pos) :
    (p >>= f).Misses tokens pos :=
  misses_bind_iff.mpr (.inl h)

namespace Closes

variable {pos : Nat} {kind : TokenKind} (h : Closes tokens pos)

include h

/-- Parts do not begin with what closes them. -/
theorem take {f : Token → Descent α} (plain : kind.isInner = true) :
    (token kind >>= f).Misses tokens pos := by
  obtain ⟨t, there, closes⟩ := h
  refine Misses.bind (misses_token_iff.mpr fun u here isKind => ?_)
  cases there.symm.trans here
  rcases closes with closes | closes <;> rw [← isKind, closes] at plain <;> cases plain

/-- Where a body or the input ends, no token of another kind is found, whatever position it is that
a reader asks for. -/
theorem here_take {f : Nat → Token → Descent α} (plain : kind.isInner = true) :
    (here >>= fun start => token kind >>= f start).Misses tokens pos :=
  misses_here_bind_iff.mpr (h.take plain)

/-- No expression begins with a closing brace, and none at the end of the input. -/
theorem expressionWith {precedence : Precedence} {e s : Descent Node} :
    (expressionWith precedence e s).Misses tokens pos := by
  have lambda : (lambda e s).Misses tokens pos :=
    misses_orElse_iff.mpr ⟨(h.here_take rfl).bind, misses_orElse_iff.mpr ⟨h.here_take rfl,
      h.take rfl⟩⟩
  have primary : primary.Misses tokens pos := by
    simp only [primary, misses_orElse_iff]
    exact ⟨h.here_take rfl, h.here_take rfl, h.here_take rfl, h.here_take rfl, h.here_take rfl,
      h.take rfl, h.take rfl, h.take rfl⟩
  have operand : (operand e).Misses tokens pos :=
    misses_orElse_iff.mpr ⟨h.here_take rfl, primary⟩
  exact misses_orElse_iff.mpr ⟨lambda, misses_here_bind_iff.mpr operand.bind⟩

/-- No statement begins where a body or the input ends, if no expression does. -/
theorem statementWith {e s : Descent Node} (none : e.Misses tokens pos) :
    (statementWith e s).Misses tokens pos := by
  simp only [Descent.statementWith, misses_orElse_iff]
  exact ⟨h.here_take rfl, h.here_take rfl, h.here_take rfl, h.here_take rfl, h.here_take rfl,
    h.take rfl, h.take rfl, misses_here_bind_iff.mpr none.bind, h.here_take rfl, none.bind,
    none.bind, none⟩

end Closes

/-- Two token lists correspond at pairs of positions inside `d` braces: at those of `inner d`, at
those of `opened d` where only a separator or a part may follow, and at those of `cleared d`, up to
which a separator was read. -/
structure Correspondence (tokens tokens' : Array Token)
    (inner opened cleared : Nat → Nat → Nat → Prop) : Prop where
  inside {d i j : Nat} : inner d i j → i ≤ tokens.size ∧ j ≤ tokens'.size
  same {d i j : Nat} {t : Token} : inner d i j → t.kind.isInner = true ∨ t.kind = .openBrace →
    (tokens[i]? = some t ↔ tokens'[j]? = some t)
  next {d i j : Nat} {t : Token} : inner d i j → tokens[i]? = some t → t.kind.isInner = true →
    inner d (i + 1) (j + 1)
  opens {d i j : Nat} {t : Token} : inner d i j → tokens[i]? = some t → t.kind = .openBrace →
    opened (d + 1) (i + 1) (j + 1)
  clears {d i j k : Nat} : inner (d + 1) i j ∨ opened (d + 1) i j → MarksTo tokens i k →
    ∃ l, MarksTo tokens' j l ∧ cleared (d + 1) k l
  /-- A separator is missing on one side only where it makes no difference. -/
  separates {d i j k l : Nat} : inner (d + 1) i j → MarksTo tokens i k → MarksTo tokens' j l →
    (i < k ↔ j < l) ∨ Closes tokens k ∧ Closes tokens' l
  settles {d i j : Nat} : cleared (d + 1) i j → inner (d + 1) i j
  sameClose {d i j : Nat} {t : Token} : cleared (d + 1) i j → t.kind = .closeBrace →
    (tokens[i]? = some t ↔ tokens'[j]? = some t)
  closes {d i j : Nat} {t : Token} : cleared (d + 1) i j → tokens[i]? = some t →
    t.kind = .closeBrace → inner d (i + 1) (j + 1)

/-- The reader does the same at corresponding positions, and no part begins where a body or the
input ends. -/
structure Alike (tokens tokens' : Array Token) (inner : Nat → Nat → Nat → Prop) (p : Descent Node) :
    Prop where
  mirrors (d : Nat) : Mirrors tokens tokens' 1 (inner d) (inner d) p p
  misses {k : Nat} : Closes tokens k → p.Misses tokens k
  misses' {k : Nat} : Closes tokens' k → p.Misses tokens' k

namespace Correspondence

variable {inner opened cleared : Nat → Nat → Nat → Prop} {d n : Nat} {e e' s s' : Descent Node}
  {kind : TokenKind} (c : Correspondence tokens tokens' inner opened cleared)

include c

/-! ### Parts in general -/

/-- A token that is neither brace nor separator is mirrored. -/
theorem token (plain : kind.isInner = true) :
    Mirrors tokens tokens' 1 (inner d) (inner d) (token kind) (token kind) :=
  .token (fun _ _ _ related isKind => c.same related (.inl (isKind ▸ plain)))
    fun _ _ _ related there isKind => c.next related there (isKind ▸ plain)

/-- An opening brace leads one level down, to where a separator may follow. -/
theorem openBrace :
    Mirrors tokens tokens' 1 (inner d) (opened (d + 1)) (Descent.token .openBrace)
      (Descent.token .openBrace) :=
  .token (fun _ _ _ related isBrace => c.same related (.inr isBrace))
    fun _ _ _ related there isBrace => c.opens related there isBrace

/-- A closing brace leads one level up from where a separator was read. -/
theorem closeBrace :
    Mirrors tokens tokens' 1 (cleared (d + 1)) (inner d) (Descent.token .closeBrace)
      (Descent.token .closeBrace) :=
  .token (fun _ _ _ related isBrace => c.sameClose related isBrace)
    fun _ _ _ related there isBrace => c.closes related there isBrace

/-- What follows a separator that may be missing. -/
theorem optionalSeparator {R U : Nat → Nat → Prop} {p p' : Descent α}
    (start : ∀ i j, R i j → inner (d + 1) i j ∨ opened (d + 1) i j)
    (h : Mirrors tokens tokens' n (cleared (d + 1)) U p p') :
    Mirrors tokens tokens' 0 R U (optional separator >>= fun _ => p)
      (optional separator >>= fun _ => p') where
  finds {i j _ _} related found := by
    obtain ⟨marks, k, first, rest⟩ := finds_bind_iff.mp found
    have marksTo := finds_optional_separator_iff.mp ⟨marks, first⟩
    obtain ⟨l, marksTo', between⟩ := c.clears (start i j related) marksTo
    obtain ⟨marks', first'⟩ := finds_optional_separator_iff.mpr marksTo'
    obtain ⟨stop, rest', next, further, further'⟩ := h.finds between rest
    have le := marksTo.le
    have le' := marksTo'.le
    exact ⟨stop, finds_bind_iff.mpr ⟨marks', l, first', rest'⟩, next, by omega, by omega⟩
  misses {i j} related missed := by
    rcases misses_bind_iff.mp missed with never | ⟨marks, k, first, rest⟩
    · exact absurd never not_misses_optional
    · have marksTo := finds_optional_separator_iff.mp ⟨marks, first⟩
      obtain ⟨l, marksTo', between⟩ := c.clears (start i j related) marksTo
      obtain ⟨marks', first'⟩ := finds_optional_separator_iff.mpr marksTo'
      exact misses_bind_iff.mpr (.inr ⟨marks', l, first', h.misses between rest⟩)

/-- A part after a separator. Where only one of the lists has the separator, there is no part. -/
theorem separated (h : Mirrors tokens tokens' 1 (inner (d + 1)) (inner (d + 1)) s s')
    (closed : ∀ {k}, Closes tokens k → s.Misses tokens k)
    (closed' : ∀ {l}, Closes tokens' l → s'.Misses tokens' l) :
    Mirrors tokens tokens' 1 (inner (d + 1)) (inner (d + 1)) (separator >>= fun _ => s)
      (separator >>= fun _ => s') where
  finds related found := by
    obtain ⟨marks, k, first, rest⟩ := finds_bind_iff.mp found
    obtain ⟨marksTo, lt⟩ := finds_separator_iff.mp ⟨marks, first⟩
    obtain ⟨l, marksTo', between⟩ := c.clears (.inl related) marksTo
    have lt' := ((c.separates related marksTo marksTo').resolve_right fun none =>
      rest.not_misses (closed none.1)).mp lt
    obtain ⟨marks', first'⟩ := finds_separator_iff.mpr ⟨marksTo', lt'⟩
    obtain ⟨stop, rest', next, further, further'⟩ := h.finds (c.settles between) rest
    exact ⟨stop, finds_bind_iff.mpr ⟨marks', l, first', rest'⟩, next, by omega, by omega⟩
  misses {i j} related missed := by
    -- on the other side there is no separator, or there is nothing after it
    have misses' {l : Nat} (marksTo' : MarksTo tokens' j l) (none : j < l → s'.Misses tokens' l) :
        (separator >>= fun _ => s').Misses tokens' j := by
      rcases marksTo'.eq_or_lt with rfl | lt'
      · exact misses_bind_iff.mpr (.inl (misses_separator_iff.mpr marksTo'))
      · obtain ⟨marks', first'⟩ := finds_separator_iff.mpr ⟨marksTo', lt'⟩
        exact misses_bind_iff.mpr (.inr ⟨marks', l, first', none lt'⟩)
    rcases misses_bind_iff.mp missed with first | ⟨marks, k, first, rest⟩
    · have marksTo := misses_separator_iff.mp first
      obtain ⟨l, marksTo', between⟩ := c.clears (.inl related) marksTo
      refine misses' marksTo' fun lt' => ?_
      rcases c.separates related marksTo marksTo' with both | none
      · exact absurd (both.mpr lt') (Nat.lt_irrefl i)
      · exact closed' none.2
    · obtain ⟨marksTo, lt⟩ := finds_separator_iff.mp ⟨marks, first⟩
      obtain ⟨l, marksTo', between⟩ := c.clears (.inl related) marksTo
      exact misses' marksTo' fun _ => h.misses (c.settles between) rest

/-- A list with such tokens between its parts is mirrored, if its part is. -/
theorem listWith {p p' : Descent α} (plain : kind.isInner = true)
    (h : Mirrors tokens tokens' 1 (inner d) (inner d) p p') :
    Mirrors tokens tokens' 1 (inner d) (inner d) (listWith kind p) (listWith kind p') :=
  .listOf c.inside h ((c.token plain).bind fun _ => h)

/-- A token with a text is mirrored. -/
theorem textNode {build : String → Node} (plain : kind.isInner = true) :
    Mirrors tokens tokens' 1 (inner d) (inner d) (textNode kind build) (textNode kind build) :=
  .here fun _ _ => (c.token plain).bind fun _ => Mirrors.accept.bind fun _ => .pure

/-- A keyword is mirrored. -/
theorem constant {a : α} (plain : kind.isInner = true) :
    Mirrors tokens tokens' 1 (inner d) (inner d) (constant kind a) (constant kind a) :=
  (c.token plain).bind fun _ => .pure

/-- A list of parameters is mirrored. -/
theorem parameterList :
    Mirrors tokens tokens' 1 (inner d) (inner d) parameterList parameterList :=
  .here fun _ _ => (c.token rfl).bind fun _ => (c.listWith rfl (c.token rfl)).bind fun _ =>
    (c.token rfl).bind fun _ => .accept

section

variable (he : Alike tokens tokens' inner e) (hs : Alike tokens tokens' inner s)

section

include hs

/-- The statements of a body are mirrored, whatever the separators between them are. -/
theorem statementList : Mirrors tokens tokens' 1 (inner (d + 1)) (inner (d + 1)) (statementList s)
    (statementList s) :=
  .listOf c.inside (hs.mirrors (d + 1)) (c.separated (hs.mirrors (d + 1)) hs.misses hs.misses')

/-- A body in braces is mirrored, with or without separators after the opening and before the
closing brace. -/
theorem bracedBody :
    Mirrors tokens tokens' 1 (inner d) (inner d) (bracedBody s) (bracedBody s) := by
  have statements : Mirrors tokens tokens' 0 (cleared (d + 1)) (inner (d + 1))
      (optional (Descent.statementList s)) (optional (Descent.statementList s)) :=
    (c.statementList hs).optional.restrict fun _ _ => c.settles
  refine c.openBrace.bind fun _ => c.optionalSeparator (n := 0) (fun _ _ => .inr) ?_
  exact statements.bind fun _ => c.optionalSeparator (fun _ _ => .inl) <|
    c.closeBrace.bind fun _ => .pure

end

/-! ### Expressions -/

/-- An integer is mirrored. -/
theorem integer : Mirrors tokens tokens' 1 (inner d) (inner d) integer integer :=
  .here fun _ _ => (c.token rfl).bind fun _ => Mirrors.accept.bind fun _ => .pure

/-- A primary is mirrored. -/
theorem primary : Mirrors tokens tokens' 1 (inner d) (inner d) primary primary :=
  .orElse c.integer <| .orElse (c.textNode rfl) <| .orElse (c.textNode rfl) <|
  .orElse (c.textNode rfl) <| .orElse (c.textNode rfl) <| .orElse (c.constant rfl) <|
  .orElse (c.constant rfl) (c.constant rfl)

/-- The name of an attribute is mirrored. -/
theorem attributeName : Mirrors tokens tokens' 1 (inner d) (inner d) attributeName attributeName :=
  .orElse (.here fun _ _ => (c.token rfl).bind fun _ => .accept) <|
  .orElse (c.constant rfl) <| .orElse (c.constant rfl) <| .orElse (c.constant rfl) <|
  .orElse (c.constant rfl) <| .orElse (c.constant rfl) <| .orElse (c.constant rfl) (c.constant rfl)

include he

/-- An invocation is mirrored, if its arguments are. -/
theorem invocation :
    Mirrors tokens tokens' 1 (inner d) (inner d) (invocation e) (invocation e) :=
  .here fun _ _ => (c.token rfl).bind fun _ => (c.token rfl).bind fun _ =>
    (c.listWith rfl (he.mirrors d)).optional.bind fun _ => (c.token rfl).bind fun _ =>
    Mirrors.accept.bind fun _ => .pure

/-- A suffix is mirrored, if expressions are. The positions from which the errors count do not
matter. -/
theorem suffix (precedence : Precedence) (start start' : Nat) (receiver : Node) :
    Mirrors tokens tokens' 1 (inner d) (inner d) (suffix precedence e start receiver)
      (suffix precedence e start' receiver) := by
  refine .orElse ?arguments (.orElse ?noArguments (.orElse ?access ?operation))
  case arguments =>
    exact (c.token rfl).bind fun _ => (c.token rfl).bind fun _ => (c.token rfl).bind fun _ =>
      (c.listWith rfl (he.mirrors d)).bind fun _ => (c.token rfl).bind fun _ =>
      Mirrors.accept.bind fun _ => .pure
  case noArguments =>
    exact (c.token rfl).bind fun _ => (c.token rfl).bind fun _ => (c.token rfl).bind fun _ =>
      (c.token rfl).bind fun _ => Mirrors.accept.bind fun _ => .pure
  case access => exact (c.token rfl).bind fun _ => c.attributeName.bind fun _ => .pure
  case operation =>
    exact (c.token rfl).bind fun _ => (he.mirrors d).bind fun _ =>
      Mirrors.accept.bind fun _ => .pure

include hs

/-- The body of a lambda is mirrored. -/
theorem lambdaBody :
    Mirrors tokens tokens' 1 (inner d) (inner d) (lambdaBody e s) (lambdaBody e s) :=
  .orElse (c.bracedBody hs) (he.mirrors d)

/-- A lambda is mirrored in each of its forms. -/
theorem lambda : Mirrors tokens tokens' 1 (inner d) (inner d) (lambda e s) (lambda e s) := by
  have body := c.lambdaBody (d := d) he hs
  refine .orElse ?_ (.orElse ?_ ?_)
  · exact c.parameterList.bind fun _ => (c.token rfl).bind fun _ => body.bind fun _ => .pure
  · exact .here fun _ _ => (c.token rfl).bind fun _ => (c.token rfl).bind fun _ =>
      body.bind fun _ => Mirrors.accept.bind fun _ => .pure
  · exact (c.token rfl).bind fun _ => body.bind fun _ => .pure

/-- Expressions are alike on both lists, if those inside them and statements are. -/
theorem expressionWith (precedence : Precedence) :
    Alike tokens tokens' inner (expressionWith precedence e s) where
  mirrors _ := .orElse (c.lambda he hs) <| .here fun start start' =>
    (Mirrors.orElse (c.invocation he) c.primary).bind fun _ =>
    .asLongAs c.inside (c.suffix he precedence start start')
  misses closed := closed.expressionWith
  misses' closed := closed.expressionWith

end

/-! ### Statements -/

/-- An import is mirrored. -/
theorem importStatement :
    Mirrors tokens tokens' 1 (inner d) (inner d) importStatement importStatement :=
  .here fun _ _ => (c.token rfl).bind fun _ => (c.listWith rfl (c.token rfl)).bind fun _ =>
    Mirrors.accept.bind fun _ => .pure

/-- A declaration of traits is mirrored. -/
theorem hasStatement : Mirrors tokens tokens' 1 (inner d) (inner d) hasStatement hasStatement := by
  have trait : Mirrors tokens tokens' 1 (inner d) (inner d) trait trait :=
    (c.token rfl).bind fun _ => c.token rfl
  have traits : Mirrors tokens tokens' 1 (inner d) (inner d) traitList traitList :=
    .here fun _ _ => (Mirrors.listOf c.inside trait trait).bind fun _ => .accept
  exact .here fun _ _ => (c.token rfl).bind fun _ => (c.token rfl).bind fun _ =>
    traits.optional.bind fun _ => Mirrors.accept.bind fun _ => .pure

/-- A definition is mirrored, if its statements are alike. -/
theorem definitionStatement (hs : Alike tokens tokens' inner s) :
    Mirrors tokens tokens' 1 (inner d) (inner d) (definitionStatement s) (definitionStatement s) :=
  .here fun _ _ => (c.token rfl).bind fun _ => (c.token rfl).bind fun _ =>
    c.parameterList.optional.bind fun _ => (c.bracedBody hs).bind fun _ =>
    Mirrors.accept.bind fun _ => .pure

/-- A class is mirrored, if its statements are alike. -/
theorem classStatement (hs : Alike tokens tokens' inner s) :
    Mirrors tokens tokens' 1 (inner d) (inner d) (classStatement s) (classStatement s) :=
  .here fun _ _ => (c.token rfl).bind fun _ => (c.token rfl).bind fun _ =>
    (c.bracedBody hs).bind fun _ => Mirrors.accept.bind fun _ => .pure

/-- A keyword with a condition and a body is mirrored. -/
theorem guarded {build : Node → Node → Node} (plain : kind.isInner = true)
    (he : Alike tokens tokens' inner e) (hs : Alike tokens tokens' inner s) :
    Mirrors tokens tokens' 1 (inner d) (inner d) (guarded kind build e s)
      (guarded kind build e s) :=
  (c.token plain).bind fun _ => (he.mirrors d).bind fun _ => (c.bracedBody hs).bind fun _ => .pure

/-- An assignment is mirrored. -/
theorem assignment (he : Alike tokens tokens' inner e) :
    Mirrors tokens tokens' 1 (inner d) (inner d) (assignment e) (assignment e) :=
  .here fun _ _ => (he.mirrors d).bind fun _ => (c.token rfl).bind fun _ =>
    (he.mirrors d).bind fun _ => .accept

/-- An assignment to a word is mirrored. -/
theorem wordAssignment (he : Alike tokens tokens' inner e) :
    Mirrors tokens tokens' 1 (inner d) (inner d) (wordAssignment e) (wordAssignment e) :=
  .here fun _ _ => (c.token rfl).bind fun _ => (c.token rfl).bind fun _ =>
    (he.mirrors d).bind fun _ => Mirrors.accept.bind fun _ => .pure

/-- A step is mirrored. -/
theorem stepStatement {step : Step} (plain : kind.isInner = true)
    (he : Alike tokens tokens' inner e) :
    Mirrors tokens tokens' 1 (inner d) (inner d) (stepStatement kind step e)
      (stepStatement kind step e) :=
  (he.mirrors d).bind fun _ => (c.token plain).bind fun _ => .pure

/-- Statements are alike on both lists, if expressions and inner statements are. -/
theorem statementWith (he : Alike tokens tokens' inner e) (hs : Alike tokens tokens' inner s) :
    Alike tokens tokens' inner (statementWith e s) where
  mirrors d :=
    .orElse (c.textNode rfl) <|
    .orElse c.importStatement <|
    .orElse (c.classStatement hs) <|
    .orElse (c.definitionStatement hs) <|
    .orElse c.hasStatement <|
    .orElse (c.guarded rfl he hs) <|
    .orElse (c.guarded rfl he hs) <|
    .orElse (c.assignment he) <|
    .orElse (c.wordAssignment he) <|
    .orElse (c.stepStatement rfl he) <|
    .orElse (c.stepStatement rfl he) (he.mirrors d)
  misses closed := closed.statementWith (he.misses closed)
  misses' closed := closed.statementWith (he.misses' closed)

/-! ### Any depth -/

/-- Expressions and statements are alike on both lists at every depth. -/
theorem expressionAndStatement (precedence : Precedence) (depth : Nat) :
    Alike tokens tokens' inner (expression precedence depth) ∧
      Alike tokens tokens' inner (statement precedence depth) := by
  induction depth with
  | zero =>
    have nothing : Alike tokens tokens' inner fun _ _ => Pure.pure none :=
      ⟨fun _ => .nothing, fun _ => rfl, fun _ => rfl⟩
    exact ⟨nothing, nothing⟩
  | succ depth ih => exact ⟨c.expressionWith ih.1 ih.2 precedence, c.statementWith ih.1 ih.2⟩

end Correspondence

end Descent

end ClosureLang
