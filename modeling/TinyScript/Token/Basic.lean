import TinyScript.Span
import TinyScript.Text.Quoted
import TinyScript.Token.Kind
import TinyScript.Value

/-!
Tokens: a kind, the text it was read from, the value of a literal, and where it stands.
-/

namespace TinyScript

inductive Literal where
  | number (x : Binary64)
  | text (s : String)

namespace Literal

def toValue : Literal → Value
  | number x => .number x
  | text s => .text s

/-- Numbers in canonical text, texts between quotes. -/
def display : Literal → String
  | number x => Decimal.write x
  | text s => quoted s

end Literal

/-- The line of a token is the one on which it ends. -/
structure Token where
  kind : TokenKind
  lexeme : String
  literal : Option Literal
  line : Nat
  span : Span

namespace Token

def eof (line offset : Nat) : Token := ⟨.eof, "", none, line, ⟨offset, offset⟩⟩

/-- Stands in for the end of a list that does not hold it. -/
def missingEof : Token := eof 1 0

/-- One line of a token listing. -/
def display (t : Token) : String :=
  let shown := toString t.line ++ " " ++ t.kind.name ++ " '" ++ t.lexeme ++ "'"
  match t.literal with
  | some l => shown ++ " " ++ l.display
  | none => shown

end Token

end TinyScript
