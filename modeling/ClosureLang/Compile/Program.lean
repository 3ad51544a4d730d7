import ClosureLang.Compile.Unit
import ClosureLang.Grammar.Basic

/-!
# From tokens to code

A token list is read by a grammar and compiled. Either step may fail.
-/

set_option autoImplicit false

namespace ClosureLang

/-- Why a token list has no code. -/
inductive Failure where
  | reading (halt : Halt)
  | compiling (error : CompileError)
  deriving DecidableEq, Repr, Inhabited

namespace Grammar

/-- Reads and compiles a token list. -/
def compile (g : Grammar) (tokens : List Token) : Except Failure Code :=
  match g.read tokens with
  | .error halt => .error (.reading halt)
  | .ok program => program.compile.2.mapError .compiling

/-- Reads and resolves a token list: the scope of the program, and the tree. -/
def resolve (g : Grammar) (tokens : List Token) : Except Failure (Scope × Node) :=
  match g.read tokens with
  | .error halt => .error (.reading halt)
  | .ok program =>
    match program.resolveProgram with
    | (_, .error cause) => .error (.compiling cause)
    | (resolved, .ok scope) => .ok (scope, resolved)

end Grammar

/-- Reads and compiles a token list by the grammar with the given precedence table. -/
def compile (precedence : Precedence) (tokens : List Token) : Except Failure Code :=
  match Grammar.new precedence with
  | .ok grammar => grammar.compile tokens
  | .error cause => .error (.reading (.failed (.grammar cause)))

end ClosureLang
