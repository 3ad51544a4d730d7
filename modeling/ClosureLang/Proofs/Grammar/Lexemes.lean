import ClosureLang.Grammar.Basic

/-!
# Names and literals

Of the tokens of a program, some are names and literals and the others give it its shape. The names
and literals of a token list and those of a tree are laid out from left to right, to be compared.

A keyword is a name only after a dot, where it stands for an attribute. So what a token stands for
depends on the token before it.
-/

set_option autoImplicit false

namespace ClosureLang

/-- A name or a literal, with the kind of token that it is written as. -/
structure Lexeme where
  kind : TokenKind
  payload : Payload
  deriving DecidableEq, Repr

/-- The name that is written as a word. -/
def Lexeme.name (text : String) : Lexeme := ⟨.word, .text text⟩

/-- The name that a keyword is where it stands for an attribute. -/
def TokenKind.keyword? : TokenKind → Option String
  | classWord => some "class"
  | importWord => some "import"
  | defWord => some "def"
  | hasWord => some "has"
  | isWord => some "is"
  | ifWord => some "if"
  | whileWord => some "while"
  | _ => none

/-- Kinds that only give a program its shape, the dot and the end of the input apart. -/
def TokenKind.isShape : TokenKind → Bool
  | integer | string | atom | word | instanceVar | trueWord | falseWord | nilWord => false
  | comment | dot | terminator => false
  | _ => true

/-- The name or literal that a token is, if it is one. -/
def Token.lexeme? (t : Token) (afterDot : Bool) : Option Lexeme :=
  match t.kind with
  | .integer | .string | .atom | .word | .instanceVar | .comment => some ⟨t.kind, t.payload⟩
  | .trueWord | .falseWord | .nilWord => some ⟨t.kind, .none⟩
  | kind => if afterDot then kind.keyword?.map .name else none

/-- The names and literals of a token list that follows a dot or does not. -/
def lexemesAfter : Bool → List Token → List Lexeme
  | _, [] => []
  | afterDot, t :: tokens => (t.lexeme? afterDot).toList ++ lexemesAfter (t.kind == .dot) tokens

/-- The names and literals of a token list. -/
def lexemes (tokens : List Token) : List Lexeme := lexemesAfter false tokens

/-- One more token at the end adds what it stands for after the last token before it. -/
theorem lexemesAfter_concat (afterDot : Bool) (tokens : List Token) (t : Token) :
    lexemesAfter afterDot (tokens ++ [t]) = lexemesAfter afterDot tokens ++
      (t.lexeme? (tokens.getLast?.elim afterDot (·.kind == .dot))).toList := by
  induction tokens generalizing afterDot with
  | nil => simp [lexemesAfter]
  | cons u tokens ih =>
    have last : ((u :: tokens).getLast?.elim afterDot (·.kind == .dot)) =
        tokens.getLast?.elim (u.kind == .dot) (·.kind == .dot) := by
      cases tokens <;> simp [List.getLast?_cons]
    rw [List.cons_append, lexemesAfter, ih, lexemesAfter, List.append_assoc, last]

namespace Node

mutual

/-- The names and literals of a tree, from left to right. -/
def lexemes : Node → List Lexeme
  | integer value => [⟨.integer, .number value⟩]
  | string text => [⟨.string, .text text⟩]
  | atom name => [⟨.atom, .text name⟩]
  | boolean value => [⟨if value then .trueWord else .falseWord, .none⟩]
  | nil => [⟨.nilWord, .none⟩]
  | var name _ => [.name name]
  | instanceVar name => [⟨.instanceVar, .text name⟩]
  | operator name left right => left.lexemes ++ .name name :: right.lexemes
  | attr name receiver => receiver.lexemes ++ [.name name]
  | attrAssign name receiver value => receiver.lexemes ++ .name name :: value.lexemes
  | call method receiver args => receiver.lexemes ++ .name method :: lexemesAll args
  | invoke name args _ => .name name :: lexemesAll args
  | block items => lexemesAll items
  | conditional condition body => condition.lexemes ++ body.lexemes
  | loop condition body => condition.lexemes ++ body.lexemes
  | step _ operand => operand.lexemes
  | assign name value _ => .name name :: value.lexemes
  | lambda params body _ => params.map .name ++ body.lexemes
  | importPath path => path.map .name
  | definition name params body => .name name :: (params.map .name ++ body.lexemes)
  | classDef name body => .name name :: body.lexemes
  | has target traits => ⟨.instanceVar, .text target⟩ :: traits.map .name
  | comment text => [⟨.comment, .text text⟩]

/-- The names and literals of trees one after the other. -/
def lexemesAll : List Node → List Lexeme
  | [] => []
  | n :: ns => n.lexemes ++ lexemesAll ns

end

/-- The names and literals of trees one after the other are those of each of them. -/
theorem lexemesAll_eq_flatMap (ns : List Node) : lexemesAll ns = ns.flatMap lexemes := by
  induction ns with
  | nil => rfl
  | cons n ns ih => rw [lexemesAll, ih, List.flatMap_cons]

/-- A rotation moves no name and no literal. -/
theorem lexemes_reassociate (p : Precedence) (left : Node) (name : String) (right : Node) :
    (p.reassociate left name right).lexemes = left.lexemes ++ .name name :: right.lexemes := by
  unfold Precedence.reassociate
  split
  · split
    · simp [lexemes]
    · rfl
  · rfl

/-- A program has the names and literals of its statements, be they in a block or not. -/
theorem lexemes_programOf (statements : List Node) :
    (Grammar.programOf statements).lexemes = statements.flatMap lexemes := by
  rw [← lexemesAll_eq_flatMap]
  unfold Grammar.programOf
  split
  · simp [lexemesAll]
  · rfl

end Node

end ClosureLang
