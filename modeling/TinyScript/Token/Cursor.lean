import TinyScript.Syntax.Error

/-!
A cursor over a list of tokens. It stays on the first end token it meets; behind the last token of
a list without one, it keeps showing that last token.
-/

namespace TinyScript

structure TokenCursor where
  tokens : List Token
  position : Nat

namespace TokenCursor

def ofList (tokens : List Token) : TokenCursor := ⟨tokens, 0⟩

def current (c : TokenCursor) : Token :=
  (c.tokens[c.position]?.or c.tokens.getLast?).getD .missingEof

def atEnd (c : TokenCursor) : Bool := c.current.kind == .eof

def check (c : TokenCursor) (kind : TokenKind) : Bool := c.current.kind == kind

def advance (c : TokenCursor) : TokenCursor :=
  if c.atEnd then c else { c with position := c.position + 1 }

/-- Moves on if the current token is of the kind, and tells whether it was. -/
def eat (c : TokenCursor) (kind : TokenKind) : TokenCursor × Bool :=
  if c.check kind then (c.advance, true) else (c, false)

/-- Moves on if the current token is of the kind, and gives it. -/
def expect (c : TokenCursor) (kind : TokenKind) (context : String) :
    TokenCursor × Except SyntaxError Token :=
  if c.check kind then (c.advance, .ok c.current)
  else (c, .error ⟨.expectedToken kind context, c.current⟩)

end TokenCursor

end TinyScript
