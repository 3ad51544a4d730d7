/-!
# Tokens

Reading starts from a list of tokens. A token has a kind, it may carry a number or a text, and it
remembers which stretch of the text it was read from. Any payload may come with any kind; a rule
that needs a payload says so when it meets a token without it. Operators such as `+` arrive as
words.
-/

set_option autoImplicit false

namespace ClosureLang

/-- What a token is, apart from its payload. -/
inductive TokenKind where
  | integer | string | atom
  /-- Identifiers, and operator names such as `+` or `add`. -/
  | word
  | instanceVar
  | trueWord | falseWord | nilWord
  | dot | comma | semicolon | newline
  | openParen | closeParen | openBrace | closeBrace
  /-- The arrow of a lambda, `=>`. -/
  | arrow
  | equal | plusPlus | minusMinus
  | importWord | defWord | classWord | hasWord | isWord | ifWord | whileWord
  | comment
  /-- The end of the input. -/
  | terminator
  deriving DecidableEq, Repr, Inhabited

namespace TokenKind

/-- The name under which a kind is shown in messages and rule texts. -/
def name : TokenKind → String
  | integer => "Integer"
  | string => "String"
  | atom => "Atom"
  | word => "Word"
  | instanceVar => "IVar"
  | trueWord => "True"
  | falseWord => "False"
  | nilWord => "Nil"
  | dot => "Dot"
  | comma => "Comma"
  | semicolon => "Semi"
  | newline => "Newline"
  | openParen => "OpenParen"
  | closeParen => "CloseParen"
  | openBrace => "OpenBrace"
  | closeBrace => "CloseBrace"
  | arrow => "Into"
  | equal => "Equal"
  | plusPlus => "Inc"
  | minusMinus => "Dec"
  | importWord => "Import"
  | defWord => "Def"
  | classWord => "Class"
  | hasWord => "Has"
  | isWord => "Is"
  | ifWord => "If"
  | whileWord => "While"
  | comment => "Comment"
  | terminator => "Term"

/-- Every kind, once. -/
def all : List TokenKind :=
  [integer, string, atom, word, instanceVar, trueWord, falseWord, nilWord, dot, comma,
    semicolon, newline, openParen, closeParen, openBrace, closeBrace, arrow, equal, plusPlus,
    minusMinus, importWord, defWord, classWord, hasWord, isWord, ifWord, whileWord, comment,
    terminator]

/-- The kind with the given name. -/
def ofName? (text : String) : Option TokenKind := all.find? (·.name == text)

end TokenKind

/-- What a token carries besides its kind. -/
inductive Payload where
  | none
  | number (value : Int)
  | text (value : String)
  deriving DecidableEq, Repr, Inhabited

/-- A stretch of the text that was read, from `start` up to but not including `stop`. -/
structure Span where
  start : Nat
  stop : Nat
  deriving DecidableEq, Repr, Inhabited

/-- One token of the input. -/
structure Token where
  kind : TokenKind
  payload : Payload
  span : Span
  deriving DecidableEq, Repr, Inhabited

namespace Token

/-- The number that the token carries. -/
def number? (t : Token) : Option Int :=
  match t.payload with
  | .number value => some value
  | _ => none

/-- The text that the token carries. -/
def text? (t : Token) : Option String :=
  match t.payload with
  | .text value => some value
  | _ => none

end Token

end ClosureLang
