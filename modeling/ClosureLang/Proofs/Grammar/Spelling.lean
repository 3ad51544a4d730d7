import ClosureLang.Proofs.Grammar.Finding
import ClosureLang.Proofs.Grammar.Lexemes

/-!
# Nothing is lost in reading

The names and literals of a parsed tree are those of its tokens, in the same order: reading drops
nothing, repeats nothing and changes no order, wherever operators are rotated.

A reader goes on from a position up to which some names and literals were written. What it finds has
those that were written from there to where it stops. Since a keyword is a name after a dot, it is
part of what is known at a position whether the last token is a dot (`Spelled`).

`Spells` says of a reader that what it finds has the names and literals of the tokens that it takes,
given in which form it finds them: as a tree, a list of trees, a name or a list of names. It goes
through everything that readers are put together of. Suffixes are different, because they build a
tree around the receiver that was read before: `Extends` says that such a tree has the names and
literals of the receiver and then those of the tokens taken. For operators that would fail if
rotating changed the order of the leaves, and it does not: a rotation only moves parentheses.

The end of the input is a token, too, and it is looked for only once, at the end of a program. So it
is also shown that no token before it is one.
-/

set_option autoImplicit false

namespace ClosureLang

/-! ## Positions -/

/-- What the tokens before a position spell, when none of them ends the input and the last one is a
dot or is not. -/
structure Spelled (tokens : Array Token) (afterDot : Bool) (spelled : List Lexeme) (pos : Nat) :
    Prop where
  lexemes : lexemes (tokens.toList.take pos) = spelled
  dot : (tokens.toList.take pos).getLast?.elim false (·.kind == .dot) = afterDot
  inside : ∀ t ∈ tokens.toList.take pos, t.kind ≠ .terminator

namespace Spelled

variable {tokens : Array Token} {afterDot : Bool} {l : List Lexeme} {pos : Nat}

/-- Before the first token nothing is spelled. -/
theorem start : Spelled tokens false [] 0 :=
  ⟨rfl, rfl, fun _ none => absurd none List.not_mem_nil⟩

/-- A token that does not end the input adds what it spells, which depends on whether a dot is
before it. -/
theorem step {t : Token} (h : Spelled tokens afterDot l pos) (there : tokens[pos]? = some t)
    (further : t.kind ≠ .terminator) :
    Spelled tokens (t.kind == .dot) (l ++ (t.lexeme? afterDot).toList) (pos + 1) := by
  have longer : tokens.toList.take (pos + 1) = tokens.toList.take pos ++ [t] := by
    rw [List.take_add_one, Array.getElem?_toList, there, Option.toList_some]
  refine ⟨?_, by rw [longer]; simp, ?_⟩
  · rw [longer, ClosureLang.lexemes, lexemesAfter_concat, h.dot]
    exact congrArg (· ++ _) h.lexemes
  · rw [longer]
    intro u mem
    rcases List.mem_append.mp mem with before | here
    · exact h.inside u before
    · rwa [List.mem_singleton.mp here]

end Spelled

namespace Descent

variable {α β : Type} {tokens : Array Token} {d : Bool} {l : List Lexeme}

/-- What the reader finds has the names and literals of the tokens that it takes. -/
def Spells (tokens : Array Token) (d : Bool) (p : Descent α) (f : α → List Lexeme) : Prop :=
  ∀ l, Brings tokens (Spelled tokens d l) p fun a => Spelled tokens false (l ++ f a)

/-! ## Tokens -/

/-- Taking a token of a kind adds what the token spells. -/
theorem token_brings (kind : TokenKind) (further : kind ≠ .terminator) :
    Brings tokens (Spelled tokens d l) (token kind) fun t stop => t.kind = kind ∧
      Spelled tokens (kind == .dot) (l ++ (t.lexeme? d).toList) stop := by
  intro pos t stop start found
  obtain ⟨there, rfl, rfl⟩ := finds_token_iff.mp found
  exact ⟨rfl, start.step there further⟩

/-- A token that is a name or a literal. -/
theorem brings_lexeme {kind : TokenKind} {lexeme : Payload → Lexeme}
    (named : ∀ payload span, Token.lexeme? ⟨kind, payload, span⟩ d = some (lexeme payload)) :
    Brings tokens (Spelled tokens d l) (token kind) fun t =>
      Spelled tokens false (l ++ [lexeme t.payload]) := by
  have noDot : (kind == .dot) = false := by
    refine beq_false_of_ne ?_
    rintro rfl
    cases d <;> cases named .none default
  have further : kind ≠ .terminator := by
    rintro rfl
    cases d <;> cases named .none default
  refine (token_brings kind further).mono fun t stop ⟨same, spelled⟩ => ?_
  subst same
  rwa [named t.payload t.span, noDot] at spelled

/-- A word spells itself, after a dot or not. -/
theorem word_spells : Spells tokens d (token .word) fun t => [⟨.word, t.payload⟩] := fun _ =>
  brings_lexeme fun _ _ => rfl

/-- A dot spells nothing and is remembered. -/
theorem brings_dot : Brings tokens (Spelled tokens false l) (token .dot) fun _ =>
    Spelled tokens true l :=
  (token_brings .dot (by decide)).mono fun t stop ⟨isDot, spelled⟩ => by
    have spelled : Spelled tokens true _ stop := spelled
    simpa [Token.lexeme?, isDot] using spelled

/-- A token that only gives shape spells nothing. -/
theorem brings_shape {kind : TokenKind} (shape : kind.isShape = true) :
    Brings tokens (Spelled tokens false l) (token kind) fun _ => Spelled tokens false l := by
  have noLexeme (t : Token) (same : t.kind = kind) : t.lexeme? false = none := by
    subst same
    unfold Token.lexeme?
    split <;> simp_all [TokenKind.isShape]
  have noDot : (kind == .dot) = false := by
    refine beq_false_of_ne ?_
    rintro rfl
    cases shape
  have further : kind ≠ .terminator := by
    rintro rfl
    cases shape
  exact (token_brings kind further).mono fun t stop ⟨same, spelled⟩ => by
    simpa [noLexeme t same, noDot] using spelled

/-- The text that is taken from a token is its payload. -/
theorem payload_of_textOf {t : Token} {text : String} (h : textOf t = .ok text) :
    t.payload = .text text :=
  Token.text?_eq_some_iff.mp (textOf_eq_ok_iff.mp h)

/-- The texts that are taken from words are the names that the words spell. -/
theorem payloads_of_textOf {ts : List Token} {names : List String}
    (h : ts.mapM textOf = .ok names) :
    ts.flatMap (fun t => [Lexeme.mk .word t.payload]) = names.map .name := by
  induction ts generalizing names with
  | nil =>
    cases h
    rfl
  | cons t ts ih =>
    rw [List.mapM_cons] at h
    cases first : textOf t with
    | error e => simp [first, bind, Except.bind] at h
    | ok name =>
      cases rest : ts.mapM textOf with
      | error e => simp [first, rest, bind, Except.bind] at h
      | ok names' =>
        obtain rfl : name :: names' = names := by
          simpa [first, rest, bind, Except.bind, pure, Except.pure] using h
        simp [ih rest, payload_of_textOf first, Lexeme.name]

/-! ## Parts in general -/

namespace Spells

variable {p q : Descent α} {f : α → List Lexeme}

/-- Alternatives spell alike if both do. -/
theorem orElse {d : Bool} (h : Spells tokens d p f) (h' : Spells tokens d q f) :
    Spells tokens d (p <|> q) f := fun l =>
  .orElse (h l) (h' l)

/-- A part that may be missing spells nothing where it is. -/
theorem optional (h : Spells tokens false p f) :
    Spells tokens false (Descent.optional p) (·.elim [] f) := fun l =>
  .optional (h l) fun pos here => by simpa using here

/-- A list is spelled as its items are, if the items after the first are. -/
theorem listOf {d : Bool} (first : Spells tokens d p f)
    (further : Spells tokens false q f) :
    Spells tokens d (Descent.listOf p q) (·.flatMap f) := fun l =>
  .listOf (by simpa using first l) fun before => by
    simpa using further (l ++ before.flatMap f)

/-- Items with tokens between them that are no names. -/
theorem listWith {d : Bool} {between : TokenKind}
    (mark : ∀ l, Brings tokens (Spelled tokens false l) (token between) fun _ =>
      Spelled tokens d l) (first : Spells tokens false p f) (further : Spells tokens d p f) :
    Spells tokens false (Descent.listWith between p) (·.flatMap f) :=
  listOf first fun l => (mark l).bind fun _ => further l

end Spells

/-! ## Parts of both expressions and statements -/

section

variable {e s : Descent Node}

/-- Separators spell nothing. -/
theorem separator_brings : Brings tokens (Spelled tokens false l) separator fun _ =>
    Spelled tokens false l := by
  have mark : Brings tokens (Spelled tokens false l) mark fun _ => Spelled tokens false l :=
    .orElse (brings_shape rfl) (brings_shape rfl)
  exact .listOf mark fun _ => mark

/-- Separators spell nothing, whether they are there or not. -/
theorem optional_separator_brings : Brings tokens (Spelled tokens false l) (optional separator)
    fun _ => Spelled tokens false l :=
  .optional separator_brings fun _ here => here

/-- A list of statements spells the statements in their order. -/
theorem statementList_spells (hs : Spells tokens false s Node.lexemes) :
    Spells tokens false (statementList s) (·.flatMap Node.lexemes) :=
  .listOf hs fun l => separator_brings.bind fun _ => hs l

/-- A body in braces spells its statements. -/
theorem bracedBody_spells (hs : Spells tokens false s Node.lexemes) :
    Spells tokens false (bracedBody s) Node.lexemes := fun l =>
  (brings_shape rfl).bind fun _ => optional_separator_brings.bind fun _ =>
  ((statementList_spells hs).optional l).bind fun statements =>
  optional_separator_brings.bind fun _ => (brings_shape rfl).bind fun _ => .pure fun pos here => by
    cases statements <;> simpa [Node.lexemes, Node.lexemesAll_eq_flatMap] using here

/-- Taking the texts of words leaves what the words spelled, now as names. -/
theorem texts_brings {start : Nat} {ts : List Token} :
    Brings tokens (Spelled tokens false (l ++ ts.flatMap fun t => [⟨.word, t.payload⟩]))
      (texts start ts) fun names => Spelled tokens false (l ++ names.map .name) :=
  .accept fun names same pos here => by rwa [← payloads_of_textOf same]

/-- A list of parameters spells the parameters. -/
theorem parameterList_spells : Spells tokens false parameterList (·.map .name) := fun l =>
  .here fun _ => (brings_shape rfl).bind fun _ =>
  (Spells.listWith (fun _ => brings_shape rfl) word_spells word_spells l).bind fun _ =>
  (brings_shape rfl).bind fun _ => texts_brings

/-! ## Expressions -/

/-- A token with a text spells the tree that is built of it, if the tree has that one name or
literal. -/
theorem textNode_spells {kind : TokenKind} {build : String → Node}
    (named : ∀ payload span, Token.lexeme? ⟨kind, payload, span⟩ false = some ⟨kind, payload⟩)
    (same : ∀ text, (build text).lexemes = [⟨kind, .text text⟩]) :
    Spells tokens false (textNode kind build) Node.lexemes := fun l =>
  .here fun _ => (brings_lexeme named).bind fun t => .accept_bind fun text carries =>
  .pure fun pos here => by rwa [same, ← payload_of_textOf carries]

/-- A keyword spells what stands for it in the tree. -/
theorem constant_spells {d : Bool} {kind : TokenKind} {a : α} {f : α → List Lexeme}
    {lexeme : Lexeme}
    (named : ∀ payload span, Token.lexeme? ⟨kind, payload, span⟩ d = some lexeme)
    (same : f a = [lexeme]) : Spells tokens d (constant kind a) f := fun l =>
  (brings_lexeme named).bind fun _ => .pure fun pos here => by rwa [same]

/-- An integer spells itself. -/
theorem integer_spells : Spells tokens false integer Node.lexemes := fun l =>
  .here fun _ => (brings_lexeme fun _ _ => rfl).bind fun t => .accept_bind fun number carries =>
  .pure fun pos here => by
    have payload := Token.number?_eq_some_iff.mp (numberOf_eq_ok_iff.mp carries)
    rwa [payload] at here

/-- A primary spells its tree: each alternative is one token. -/
theorem primary_spells : Spells tokens false primary Node.lexemes :=
  .orElse integer_spells <|
  .orElse (textNode_spells (fun _ _ => rfl) fun _ => rfl) <|
  .orElse (textNode_spells (fun _ _ => rfl) fun _ => rfl) <|
  .orElse (textNode_spells (fun _ _ => rfl) fun _ => rfl) <|
  .orElse (textNode_spells (fun _ _ => rfl) fun _ => rfl) <|
  .orElse (constant_spells (fun _ _ => rfl) rfl) <|
  .orElse (constant_spells (fun _ _ => rfl) rfl) (constant_spells (fun _ _ => rfl) rfl)

/-- After a dot, a keyword is a name. -/
theorem attributeName_spells : Spells tokens true attributeName fun name => [.name name] := by
  have word : Spells tokens true (here >>= fun start => token .word >>= text start)
      fun name => [.name name] := fun l =>
    .here fun _ => (word_spells l).bind fun t => .accept fun text carries pos here => by
      simpa [Lexeme.name, payload_of_textOf carries] using here
  exact .orElse word <|
    .orElse (constant_spells (fun _ _ => rfl) rfl) <|
    .orElse (constant_spells (fun _ _ => rfl) rfl) <|
    .orElse (constant_spells (fun _ _ => rfl) rfl) <|
    .orElse (constant_spells (fun _ _ => rfl) rfl) <|
    .orElse (constant_spells (fun _ _ => rfl) rfl) <|
    .orElse (constant_spells (fun _ _ => rfl) rfl) (constant_spells (fun _ _ => rfl) rfl)

/-- An invocation spells its name and then its arguments. -/
theorem invocation_spells (he : Spells tokens false e Node.lexemes) :
    Spells tokens false (invocation e) Node.lexemes := fun l =>
  .here fun _ => (word_spells l).bind fun name => (brings_shape rfl).bind fun _ =>
  ((Spells.listWith (fun _ => brings_shape rfl) he he).optional _).bind fun args =>
  (brings_shape rfl).bind fun _ => .accept_bind fun text carries => .pure fun pos here => by
    cases args <;> simpa [Node.lexemes, Node.lexemesAll_eq_flatMap, Lexeme.name,
      payload_of_textOf carries] using here

/-- The body of a lambda spells what it is read as. -/
theorem lambdaBody_spells (he : Spells tokens false e Node.lexemes)
    (hs : Spells tokens false s Node.lexemes) : Spells tokens false (lambdaBody e s) Node.lexemes :=
  .orElse (bracedBody_spells hs) he

/-- A lambda spells its parameters and then its body, in each of its three forms. -/
theorem lambda_spells (he : Spells tokens false e Node.lexemes)
    (hs : Spells tokens false s Node.lexemes) : Spells tokens false (lambda e s) Node.lexemes := by
  have body := lambdaBody_spells he hs
  have parameters : Spells tokens false (lambdaWithParameters e s) Node.lexemes := fun l =>
    (parameterList_spells l).bind fun params => (brings_shape rfl).bind fun _ =>
    (body _).bind fun n => .pure fun pos here => by simpa [Node.lexemes] using here
  have parameter : Spells tokens false (lambdaWithParameter e s) Node.lexemes := fun l =>
    .here fun _ => (word_spells l).bind fun t => (brings_shape rfl).bind fun _ =>
    (body _).bind fun n => .accept_bind fun text carries => .pure fun pos here => by
      simpa [Node.lexemes, Lexeme.name, payload_of_textOf carries] using here
  have noParameter : Spells tokens false (lambdaWithoutParameters e s) Node.lexemes := fun l =>
    (brings_shape rfl).bind fun _ => (body l).bind fun n => .pure fun pos here => by
      simpa [Node.lexemes] using here
  exact .orElse parameters (.orElse parameter noParameter)

/-- What the reader finds has the names and literals of the receiver and of the tokens that it
takes. -/
def Extends (tokens : Array Token) (receiver : Node) (p : Descent Node) : Prop :=
  ∀ l, Brings tokens (Spelled tokens false (l ++ receiver.lexemes)) p fun n =>
    Spelled tokens false (l ++ n.lexemes)

/-- A suffix adds to the receiver what it takes, also where the operators are rotated: rotation
keeps the order of names and literals. -/
theorem suffix_extends (precedence : Precedence) (start : Nat)
    (he : Spells tokens false e Node.lexemes) (receiver : Node) :
    Extends tokens receiver (suffix precedence e start receiver) := by
  intro l
  refine .orElse ?arguments (.orElse ?noArguments (.orElse ?access ?operation))
  case arguments =>
    exact brings_dot.bind fun _ => (word_spells _).bind fun t => (brings_shape rfl).bind fun _ =>
      (Spells.listWith (fun _ => brings_shape rfl) he he _).bind fun args =>
      (brings_shape rfl).bind fun _ => .accept_bind fun text carries => .pure fun pos here => by
        simpa [Node.lexemes, Node.lexemesAll_eq_flatMap, Lexeme.name, payload_of_textOf carries]
          using here
  case noArguments =>
    exact brings_dot.bind fun _ => (word_spells _).bind fun t => (brings_shape rfl).bind fun _ =>
      (brings_shape rfl).bind fun _ => .accept_bind fun text carries => .pure fun pos here => by
        simpa [Node.lexemes, Node.lexemesAll, Lexeme.name, payload_of_textOf carries] using here
  case access =>
    exact brings_dot.bind fun _ => (attributeName_spells _).bind fun name =>
      .pure fun pos here => by simpa [Node.lexemes] using here
  case operation =>
    exact (word_spells _).bind fun t => (he _).bind fun right => .accept_bind fun text carries =>
      .pure fun pos here => by
        simpa [Node.lexemes_reassociate, Lexeme.name, payload_of_textOf carries] using here

/-- An expression spells its first operand, and each suffix extends what is spelled so far. -/
theorem expressionWith_spells (precedence : Precedence) (he : Spells tokens false e Node.lexemes)
    (hs : Spells tokens false s Node.lexemes) :
    Spells tokens false (expressionWith precedence e s) Node.lexemes := by
  refine .orElse (lambda_spells he hs) fun l => .here fun start => ?_
  have first := Spells.orElse (invocation_spells he) primary_spells
  exact (first l).bind fun _ =>
    .asLongAs (P := fun a => Spelled tokens false (l ++ a.lexemes)) fun receiver =>
      suffix_extends precedence start he receiver l

/-! ## Statements -/

/-- Assigning to a target changes neither the names of the target nor those of the value. -/
theorem lexemes_of_assignTo {target value assigned : Node}
    (h : Grammar.assignTo target value = .ok assigned) :
    assigned.lexemes = target.lexemes ++ value.lexemes := by
  unfold Grammar.assignTo at h
  split at h <;> cases h <;> simp [Node.lexemes]

/-- An assignment spells its target and then its value. -/
theorem assignment_spells (he : Spells tokens false e Node.lexemes) :
    Spells tokens false (assignment e) Node.lexemes := fun l =>
  .here fun _ => (he l).bind fun target => (brings_shape rfl).bind fun _ =>
  (he _).bind fun value => .accept fun n assigned pos here => by
    simpa [lexemes_of_assignTo assigned] using here

/-- An assignment to a word spells the word and then the value. -/
theorem wordAssignment_spells (he : Spells tokens false e Node.lexemes) :
    Spells tokens false (wordAssignment e) Node.lexemes := fun l =>
  .here fun _ => (word_spells l).bind fun t => (brings_shape rfl).bind fun _ =>
  (he _).bind fun value => .accept_bind fun text carries => .pure fun pos here => by
    simpa [Node.lexemes, Lexeme.name, payload_of_textOf carries] using here

/-- The dots of a path stand before words. -/
theorem importStatement_spells : Spells tokens false importStatement Node.lexemes := fun l =>
  .here fun _ => (brings_shape rfl).bind fun _ =>
  (Spells.listWith (fun _ => brings_dot) word_spells word_spells l).bind fun _ =>
  texts_brings.bind fun _ => .pure fun _ here => here

/-- A definition spells its name, its parameters and its body. -/
theorem definitionStatement_spells (hs : Spells tokens false s Node.lexemes) :
    Spells tokens false (definitionStatement s) Node.lexemes := fun l =>
  .here fun _ => (brings_shape rfl).bind fun _ => (word_spells l).bind fun t =>
  (parameterList_spells.optional _).bind fun params => (bracedBody_spells hs _).bind fun body =>
  .accept_bind fun text carries => .pure fun pos here => by
    cases params <;> simpa [Node.lexemes, Lexeme.name, payload_of_textOf carries] using here

/-- A class spells its name and its body. -/
theorem classStatement_spells (hs : Spells tokens false s Node.lexemes) :
    Spells tokens false (classStatement s) Node.lexemes := fun l =>
  .here fun _ => (brings_shape rfl).bind fun _ => (word_spells l).bind fun t =>
  (bracedBody_spells hs _).bind fun body => .accept_bind fun text carries =>
  .pure fun pos here => by
    simpa [Node.lexemes, Lexeme.name, payload_of_textOf carries] using here

/-- Traits spell their names; the word before each spells nothing. -/
theorem traitList_spells : Spells tokens false traitList (·.map .name) := fun l =>
  have trait : Spells tokens false trait fun t => [⟨.word, t.payload⟩] := fun l =>
    (brings_shape rfl).bind fun _ => word_spells l
  .here fun _ => (Spells.listOf trait trait l).bind fun _ => texts_brings

/-- An instance variable spells itself. -/
theorem instanceVar_spells :
    Spells tokens false (token .instanceVar) fun t => [⟨.instanceVar, t.payload⟩] := fun _ =>
  brings_lexeme fun _ _ => rfl

/-- A declaration of traits spells its target and then the traits. -/
theorem hasStatement_spells : Spells tokens false hasStatement Node.lexemes := fun l =>
  .here fun _ => (brings_shape rfl).bind fun _ =>
  (instanceVar_spells l).bind fun t =>
  (traitList_spells.optional _).bind fun traits => .accept_bind fun text carries =>
  .pure fun pos here => by
    cases traits <;> simpa [Node.lexemes, payload_of_textOf carries] using here

/-- A keyword with a condition and a body spells both, in this order. -/
theorem guarded_spells {kind : TokenKind} {build : Node → Node → Node}
    (shape : kind.isShape = true)
    (both : ∀ condition body, (build condition body).lexemes = condition.lexemes ++ body.lexemes)
    (he : Spells tokens false e Node.lexemes) (hs : Spells tokens false s Node.lexemes) :
    Spells tokens false (guarded kind build e s) Node.lexemes := fun l =>
  (brings_shape shape).bind fun _ => (he l).bind fun condition =>
  (bracedBody_spells hs _).bind fun body => .pure fun pos here => by
    simpa [both] using here

/-- A step spells its operand. -/
theorem stepStatement_spells {kind : TokenKind} {step : Step} (shape : kind.isShape = true)
    (he : Spells tokens false e Node.lexemes) :
    Spells tokens false (stepStatement kind step e) Node.lexemes := fun l =>
  (he l).bind fun _ => (brings_shape shape).bind fun _ => .pure fun _ here => here

/-- A statement spells its tree, if expressions and inner statements do. -/
theorem statementWith_spells (he : Spells tokens false e Node.lexemes)
    (hs : Spells tokens false s Node.lexemes) :
    Spells tokens false (statementWith e s) Node.lexemes :=
  .orElse (textNode_spells (fun _ _ => rfl) fun _ => rfl) <|
  .orElse importStatement_spells <|
  .orElse (classStatement_spells hs) <|
  .orElse (definitionStatement_spells hs) <|
  .orElse hasStatement_spells <|
  .orElse (guarded_spells rfl (fun _ _ => rfl) he hs) <|
  .orElse (guarded_spells rfl (fun _ _ => rfl) he hs) <|
  .orElse (assignment_spells he) <|
  .orElse (wordAssignment_spells he) <|
  .orElse (stepStatement_spells rfl he) <|
  .orElse (stepStatement_spells rfl he) he

end

/-! ## Whole programs -/

/-- Expressions and statements spell their trees at every depth: at the next depth they are read by
readers that spell, since those of the depth below do. -/
theorem expressionAndStatement_spells (precedence : Precedence) (depth : Nat) :
    Spells tokens false (expression precedence depth) Node.lexemes ∧
      Spells tokens false (statement precedence depth) Node.lexemes := by
  induction depth with
  | zero => exact ⟨fun _ => .nothing, fun _ => .nothing⟩
  | succ depth ih =>
    exact ⟨expressionWith_spells precedence ih.1 ih.2, statementWith_spells ih.1 ih.2⟩

/-- Before the end of the input is what the program has. -/
theorem program_brings (precedence : Precedence) (depth : Nat) :
    Brings tokens (Spelled tokens false []) (program precedence depth) fun n stop =>
      ∃ pos t, Spelled tokens false n.lexemes pos ∧ tokens[pos]? = some t ∧
        t.kind = .terminator ∧ stop = pos + 1 := by
  have hs : Spells tokens false (statement precedence depth) Node.lexemes :=
    (expressionAndStatement_spells precedence depth).2
  refine optional_separator_brings.bind fun _ => (statementList_spells hs []).bind fun statements =>
    optional_separator_brings.bind fun _ => ?_
  intro pos n stop start found
  obtain ⟨t, there, ends, found⟩ := finds_token_bind_iff.mp found
  obtain ⟨rfl, rfl⟩ := finds_pure_iff.mp found
  exact ⟨pos, t, by rwa [Node.lexemes_programOf], there, ends, rfl⟩

end Descent

/-- The names and literals of a program are those of its tokens, in their order. The end of the
input is the last token, and no other token is one. -/
theorem lexemes_of_parse {precedence : Precedence} {tokens : List Token} {program : Node}
    (read : parse precedence tokens = .ok program) :
    program.lexemes = lexemes tokens ∧ ∃ written last, tokens = written ++ [last] ∧
      last.kind = .terminator ∧ ∀ t ∈ written, t.kind ≠ .terminator := by
  obtain ⟨pos, last, spelled, there, ends, stop⟩ :=
    Descent.program_brings _ _ _ _ _ Spelled.start (parse_ok_iff_finds.mp read)
  have whole : tokens = tokens.take pos ++ [last] := by
    have there : tokens[pos]? = some last := by simpa using there
    rw [← Option.toList_some, ← there, ← List.take_add_one, ← stop, List.take_length]
  have noLexeme : ∀ afterDot, last.lexeme? afterDot = none := by
    simp [Token.lexeme?, ends, TokenKind.keyword?]
  refine ⟨?_, tokens.take pos, last, whole, ends, spelled.inside⟩
  calc program.lexemes
    _ = lexemes (tokens.take pos) := spelled.lexemes.symm
    _ = lexemes (tokens.take pos ++ [last]) := by
      simp [lexemes, lexemesAfter_concat, noLexeme]
    _ = lexemes tokens := by rw [← whole]

/-- An assignment to an attribute that is named by a keyword. -/
theorem lexemes_of_keywordAssignment :
    let word (text : String) : Token := ⟨.word, .text text, ⟨0, 0⟩⟩
    let mark (kind : TokenKind) : Token := ⟨kind, .none, ⟨0, 0⟩⟩
    let tokens : List Token :=
      [word "x", mark .dot, mark .ifWord, mark .equal, mark .openParen, word "a", mark .comma,
        word "b", mark .closeParen, mark .arrow, word "f", mark .openParen, word "a",
        mark .closeParen, word "+", mark .nilWord, mark .terminator]
    let program : Node := .attrAssign "if" (.var "x" none) (.lambda ["a", "b"]
      (.operator "+" (.invoke "f" [.var "a" none] none) .nil) none)
    parse .default tokens = .ok program ∧
      program.lexemes = ["x", "if", "a", "b", "f", "a", "+"].map .name ++ [⟨.nilWord, .none⟩] ∧
      program.lexemes = lexemes tokens ∧ ∃ written last, tokens = written ++ [last] ∧
        last.kind = .terminator ∧ ∀ t ∈ written, t.kind ≠ .terminator := by
  intro word mark tokens program
  have read : parse .default tokens = .ok program := Grammar.parse_ok_iff.mpr rfl
  exact ⟨read, rfl, lexemes_of_parse read⟩

end ClosureLang
