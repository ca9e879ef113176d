import TinyScript.Diagnostic.Basic
import TinyScript.Token.Basic

/-!
Errors of syntax. Each blames one token.
-/

namespace TinyScript

inductive SyntaxFault where
  | expectedToken (kind : TokenKind) (context : String)
  | expectedExpression
  | invalidTarget
deriving DecidableEq, Repr

namespace SyntaxFault

def code : SyntaxFault → DiagnosticCode
  | expectedToken _ _ => .expectedToken
  | expectedExpression => .expectedExpression
  | invalidTarget => .invalidTarget

def message : SyntaxFault → String
  | expectedToken kind context => "expected " ++ kind.description ++ " " ++ context
  | expectedExpression => "expected expression"
  | invalidTarget => "cannot assign to a non-variable target"

/-- Whether the blamed token has been read when the fault shows: an equals sign is read before
what stands to its left is looked at. -/
def tookToken : SyntaxFault → Bool
  | invalidTarget => true
  | _ => false

end SyntaxFault

structure SyntaxError where
  fault : SyntaxFault
  token : Token

namespace SyntaxError

def location (e : SyntaxError) : String :=
  if e.token.kind = .eof then "at end" else "at '" ++ e.token.lexeme ++ "'"

def toDiagnostic (e : SyntaxError) : Diagnostic where
  code := e.fault.code
  phase := .parsing
  line := e.token.line
  location := some e.location
  message := e.fault.message

end SyntaxError

end TinyScript
