import ClosureLang.Grammar.Basic

/-!
# Reading by recursive descent

A direct reader for the language. There are no rules in it and nothing is remembered: every part of
the language has a function that looks at the tokens from a position on, and calls the functions of
the parts it is made of. An expression is read from its first token on and grows to the right in a
loop.

The reader says what it found and how far it looked, which is where a token list that cannot be
read is reported. How deep parts are nested is bounded, for the functions of expressions and
statements to call each other; the bound is a parameter, and one that covers the token list is never
reached.
-/

set_option autoImplicit false

namespace ClosureLang

/-- What came of reading something, and the furthest position at which a token was looked at. -/
structure Attempt (α : Type) where
  result : Except ParseError α
  reach : Nat

namespace Attempt

instance : Monad Attempt where
  pure a := ⟨.ok a, 0⟩
  bind x f :=
    match x.result with
    | .ok a => ⟨(f a).result, max x.reach (f a).reach⟩
    | .error e => ⟨.error e, x.reach⟩

end Attempt

/-- A reader of one part of the language. From a position on it finds the part and the position
after it, or it does not find the part there. -/
def Descent (α : Type) := Array Token → Nat → Attempt (Option (α × Nat))

namespace Descent

variable {α β : Type}

/-! ## Readers in general -/

instance : Monad Descent where
  pure a := fun _ pos => pure (some (a, pos))
  bind p f := fun tokens pos => do
    match ← p tokens pos with
    | none => return none
    | some (a, stop) => f a tokens stop

/-- The first of two parts that is found. -/
protected def orElse (p : Descent α) (q : Unit → Descent α) : Descent α := fun tokens pos => do
  match ← p tokens pos with
  | none => q () tokens pos
  | some found => return some found

instance : OrElse (Descent α) := ⟨Descent.orElse⟩

/-- The position itself. -/
def here : Descent Nat := fun _ pos => pure (some (pos, pos))

/-- A token of the given kind. -/
def token (kind : TokenKind) : Descent Token := fun tokens pos =>
  ⟨.ok ((tokens[pos]?.filter (·.kind == kind)).map fun t => (t, pos + 1)), pos⟩

/-- What was computed from the part that starts at `start`, or the failure to do so. -/
def accept (start : Nat) (computed : Except ActionError α) : Descent α := fun tokens pos =>
  match computed with
  | .ok a => pure (some (a, pos))
  | .error cause => ⟨.error (.action start (spanAt? tokens start) cause), 0⟩

/-- The text that a token carries. -/
def textOf (t : Token) : Except ActionError String :=
  match t.text? with
  | some text => .ok text
  | none => .error (.shape .textToken .token)

/-- The number that a token carries. -/
def numberOf (t : Token) : Except ActionError Int :=
  match t.number? with
  | some number => .ok number
  | none => .error (.shape .integerValue .token)

/-- A part that may be missing. -/
def optional (p : Descent α) : Descent (Option α) := (do return some (← p)) <|> pure none

/-- Goes on from `a` as long as there is a next step, for at most the given number of steps. -/
def proceed (step : α → Descent α) : Nat → α → Descent α
  | 0, a => pure a
  | rounds + 1, a => (do proceed step rounds (← step a)) <|> pure a

/-- Goes on from `a` as long as there is a next step. Every step takes a token. -/
def asLongAs (step : α → Descent α) (a : α) : Descent α := fun tokens pos =>
  proceed step (tokens.size + 1 - pos) a tokens pos

/-- As many parts one after the other as there are. -/
def many (p : Descent α) : Descent (List α) := do
  let found ← asLongAs (fun before => do return (← p) :: before) []
  return found.reverse

/-- A part, and further ones. -/
def listOf (p further : Descent α) : Descent (List α) := do
  return (← p) :: (← many further)

/-- The text that a token of the part from `start` on carries. -/
def text (start : Nat) (t : Token) : Descent String :=
  accept start (textOf t)

/-- The texts that tokens of the part from `start` on carry. -/
def texts (start : Nat) (ts : List Token) : Descent (List String) :=
  accept start (ts.mapM textOf)

/-! ## Parts of both expressions and statements -/

/-- Parts with a token of the given kind between them. -/
def listWith (between : TokenKind) (p : Descent α) : Descent (List α) :=
  listOf p do
    let _ ← token between
    p

/-- A semicolon or a line end. -/
def mark : Descent Token := token .semicolon <|> token .newline

/-- One or more semicolons and line ends. -/
def separator : Descent (List Token) := listOf mark mark

/-- Statements with separators between them; at least one. -/
def statementList (statement : Descent Node) : Descent (List Node) :=
  listOf statement do
    let _ ← separator
    statement

/-- Statements in braces, `{ a; b }`. There may be none, and there may be separators around them. -/
def bracedBody (statement : Descent Node) : Descent Node := do
  let _ ← token .openBrace
  let _ ← optional separator
  let statements ← optional (statementList statement)
  let _ ← optional separator
  let _ ← token .closeBrace
  return .block (statements.getD [])

/-- Names in parentheses, `(a, b)`; at least one. -/
def parameterList : Descent (List String) := do
  let start ← here
  let _ ← token .openParen
  let params ← listWith .comma (token .word)
  let _ ← token .closeParen
  texts start params

/-- A token whose text makes a tree. -/
def textNode (kind : TokenKind) (build : String → Node) : Descent Node := do
  let start ← here
  return build (← text start (← token kind))

/-- A token that always stands for the same thing. -/
def constant (kind : TokenKind) (a : α) : Descent α := do
  let _ ← token kind
  return a

/-! ## Expressions -/

/-- An integer literal. -/
def integer : Descent Node := do
  let start ← here
  let t ← token .integer
  return .integer (← accept start (numberOf t))

/-- A literal or a variable. -/
def primary : Descent Node :=
  integer <|> textNode .string .string <|> textNode .atom .atom <|>
    textNode .word (.var · none) <|> textNode .instanceVar .instanceVar <|>
    constant .trueWord (.boolean true) <|> constant .falseWord (.boolean false) <|>
    constant .nilWord .nil

/-- What may stand after a dot: a name, or a keyword that is used as one. -/
def attributeName : Descent String :=
  (do text (← here) (← token .word)) <|>
    constant .classWord "class" <|> constant .importWord "import" <|> constant .defWord "def" <|>
    constant .hasWord "has" <|> constant .isWord "is" <|> constant .ifWord "if" <|>
    constant .whileWord "while"

/-- A call of a variable, `f(a, b)`. -/
def invocation (expression : Descent Node) : Descent Node := do
  let start ← here
  let name ← token .word
  let _ ← token .openParen
  let args ← optional (listWith .comma expression)
  let _ ← token .closeParen
  return .invoke (← text start name) (args.getD []) none

/-- The body of a lambda: statements in braces, or an expression. -/
def lambdaBody (expression statement : Descent Node) : Descent Node :=
  bracedBody statement <|> expression

/-- A lambda with its parameters in parentheses, `(a, b) => c`. -/
def lambdaWithParameters (expression statement : Descent Node) : Descent Node := do
  let params ← parameterList
  let _ ← token .arrow
  return .lambda params (← lambdaBody expression statement) none

/-- A lambda with one parameter, `a => c`. -/
def lambdaWithParameter (expression statement : Descent Node) : Descent Node := do
  let start ← here
  let param ← token .word
  let _ ← token .arrow
  let body ← lambdaBody expression statement
  return .lambda [← text start param] body none

/-- A lambda without parameters, `=> c`. -/
def lambdaWithoutParameters (expression statement : Descent Node) : Descent Node := do
  let _ ← token .arrow
  return .lambda [] (← lambdaBody expression statement) none

/-- The first of the three forms of a lambda. -/
def lambda (expression statement : Descent Node) : Descent Node :=
  lambdaWithParameters expression statement <|> lambdaWithParameter expression statement <|>
    lambdaWithoutParameters expression statement

/-- What an expression that is no lambda begins with. -/
def operand (expression : Descent Node) : Descent Node := invocation expression <|> primary

section

variable (precedence : Precedence) (expression : Descent Node) (start : Nat) (receiver : Node)

/-- A method call with arguments, `.m(a, b)`. -/
def callWithArguments : Descent Node := do
  let _ ← token .dot
  let method ← token .word
  let _ ← token .openParen
  let args ← listWith .comma expression
  let _ ← token .closeParen
  return .call (← text start method) receiver args

/-- A method call with empty parentheses, `.m()`. -/
def callWithoutArguments : Descent Node := do
  let _ ← token .dot
  let method ← token .word
  let _ ← token .openParen
  let _ ← token .closeParen
  return .call (← text start method) receiver []

/-- An attribute of the receiver, `.a`. -/
def attributeAccess : Descent Node := do
  let _ ← token .dot
  return .attr (← attributeName) receiver

/-- The right operand is a whole expression. -/
def operation : Descent Node := do
  let name ← token .word
  let right ← expression
  return precedence.reassociate receiver (← text start name) right

/-- What makes a longer expression of the one that was read from `start` on. -/
def suffix : Descent Node :=
  callWithArguments expression start receiver <|> callWithoutArguments start receiver <|>
    attributeAccess receiver <|> operation precedence expression start receiver

end

/-- An expression: a lambda, or else an invocation or a primary with all its suffixes. -/
def expressionWith (precedence : Precedence) (expression statement : Descent Node) :
    Descent Node :=
  lambda expression statement <|> do
    let start ← here
    let first ← operand expression
    asLongAs (suffix precedence expression start) first

/-! ## Statements -/

/-- An assignment `target = value`. Whether the target can be assigned is decided once both sides
are read. -/
def assignment (expression : Descent Node) : Descent Node := do
  let start ← here
  let target ← expression
  let _ ← token .equal
  let value ← expression
  accept start (Grammar.assignTo target value)

/-- An assignment to a name. Only reached if the other one is not found. -/
def wordAssignment (expression : Descent Node) : Descent Node := do
  let start ← here
  let name ← token .word
  let _ ← token .equal
  let value ← expression
  return .assign (← text start name) value none

/-- An import, `import a.b.c`. -/
def importStatement : Descent Node := do
  let start ← here
  let _ ← token .importWord
  let path ← listWith .dot (token .word)
  return .importPath (← texts start path)

/-- A definition, `def name(a, b) { ... }`, where the parameters may be missing. -/
def definitionStatement (statement : Descent Node) : Descent Node := do
  let start ← here
  let _ ← token .defWord
  let name ← token .word
  let params ← optional parameterList
  let body ← bracedBody statement
  return .definition (← text start name) (params.getD []) body

/-- A class, `class Name { ... }`. -/
def classStatement (statement : Descent Node) : Descent Node := do
  let start ← here
  let _ ← token .classWord
  let name ← token .word
  let body ← bracedBody statement
  return .classDef (← text start name) body

/-- A trait after the word `is`. -/
def trait : Descent Token := do
  let _ ← token .isWord
  token .word

/-- One or more traits. -/
def traitList : Descent (List String) := do
  let start ← here
  texts start (← listOf trait trait)

/-- A field declaration, `has @field is a is b`, where the traits may be missing. -/
def hasStatement : Descent Node := do
  let start ← here
  let _ ← token .hasWord
  let target ← token .instanceVar
  let traits ← optional traitList
  return .has (← text start target) (traits.getD [])

/-- A keyword, a condition and a body in braces. -/
def guarded (kind : TokenKind) (build : Node → Node → Node) (expression statement : Descent Node) :
    Descent Node := do
  let _ ← token kind
  let condition ← expression
  return build condition (← bracedBody statement)

/-- A step, an expression with `++` or `--` behind it. -/
def stepStatement (kind : TokenKind) (step : Step) (expression : Descent Node) : Descent Node := do
  let operand ← expression
  let _ ← token kind
  return .step step operand

/-- The first of the forms of a statement that is found, the last of which is an expression. -/
def statementWith (expression statement : Descent Node) : Descent Node :=
  textNode .comment .comment <|> importStatement <|> classStatement statement <|>
    definitionStatement statement <|> hasStatement <|>
    guarded .ifWord .conditional expression statement <|>
    guarded .whileWord .loop expression statement <|> assignment expression <|>
    wordAssignment expression <|> stepStatement .plusPlus .increment expression <|>
    stepStatement .minusMinus .decrement expression <|> expression

/-! ## The whole language -/

/-- Expressions and statements that are nested to at most the given depth. -/
def expressionAndStatement (precedence : Precedence) : Nat → Descent Node × Descent Node
  | 0 => (fun _ _ => pure none, fun _ _ => pure none)
  | depth + 1 =>
    let inner := expressionAndStatement precedence depth
    (expressionWith precedence inner.1 inner.2, statementWith inner.1 inner.2)

/-- An expression in which the parts are nested to at most the given depth. -/
def expression (precedence : Precedence) (depth : Nat) : Descent Node :=
  (expressionAndStatement precedence depth).1

/-- A statement in which the parts are nested to at most the given depth. -/
def statement (precedence : Precedence) (depth : Nat) : Descent Node :=
  (expressionAndStatement precedence depth).2

/-- A program: statements up to the terminator, with separators around them if there are any. -/
def program (precedence : Precedence) (depth : Nat) : Descent Node := do
  let _ ← optional separator
  let statements ← statementList (statement precedence depth)
  let _ ← optional separator
  let _ ← token .terminator
  return Grammar.programOf statements

end Descent

/-- Reads a whole token list by recursive descent. -/
def descend (precedence : Precedence) (depth : Nat) (tokens : List Token) :
    Except ParseError Node :=
  let attempt := Descent.program precedence depth tokens.toArray 0
  match attempt.result with
  | .error e => .error e
  | .ok none => .error (unexpectedAt tokens.toArray attempt.reach)
  | .ok (some (node, stop)) =>
    if stop = tokens.length then .ok node
    else .error (unexpectedAt tokens.toArray (max attempt.reach stop))

end ClosureLang
