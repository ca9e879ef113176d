import TinyScript.Diagnostic.Basic
import TinyScript.Token.Basic

/-!
From source text to tokens. The source is cut into stretches; each is a blank or a comment, a
token, or a fault, and takes the longest text that it can. A stretch carries its own text, so
nothing of the source is lost or read twice.
-/

namespace TinyScript

inductive LexicalFault where
  | unterminatedString
  | unexpectedCharacter (c : Char)
deriving DecidableEq, Repr

namespace LexicalFault

def code : LexicalFault → DiagnosticCode
  | unterminatedString => .unterminatedString
  | unexpectedCharacter _ => .unexpectedCharacter

def message : LexicalFault → String
  | unterminatedString => "unterminated string"
  | unexpectedCharacter c => "unexpected character '" ++ c.toString ++ "'"

end LexicalFault

structure LexicalError where
  fault : LexicalFault
  line : Nat
  span : Span

def LexicalError.toDiagnostic (e : LexicalError) : Diagnostic where
  code := e.fault.code
  phase := .scanning
  line := e.line
  location := none
  message := e.fault.message

/-- What a stretch of source is. -/
inductive Piece where
  | blank
  | token (kind : TokenKind) (literal : Option Literal)
  | fault (cause : LexicalFault)

namespace Piece

def punctuation (k : TokenKind) : Piece × Nat := (token k none, 0)

/-- `double` if an equals sign follows, else `single`. -/
def orEqual (double single : TokenKind) (rest : List Char) : Piece × Nat :=
  match rest with
  | '=' :: _ => (token double none, 1)
  | _ => (token single none, 0)

/-- The opening quote has been read. -/
def string (rest : List Char) : Piece × Nat :=
  let content := rest.takeWhile (· != '"')
  match rest.drop content.length with
  | [] => (fault .unterminatedString, content.length)
  | _ :: _ => (token .string (some (.text (String.ofList content))), content.length + 1)

/-- The digit `d` has been read. A fraction needs a digit after the point. -/
def number (d : Char) (rest : List Char) : Piece × Nat :=
  let whole := rest.takeWhile Char.isDigit
  let fraction := match rest.drop whole.length with
    | '.' :: more => more.takeWhile Char.isDigit
    | _ => []
  let size := if fraction.isEmpty then whole.length else whole.length + 1 + fraction.length
  (token .number (some (.number (Decimal.read (d :: whole) fraction))), size)

/-- The character `c`, which can start a name, has been read. -/
def word (c : Char) (rest : List Char) : Piece × Nat :=
  let more := rest.takeWhile continuesName
  let kind := (TokenKind.ofWord? (String.ofList (c :: more))).getD .identifier
  (token kind none, more.length)

/-- The piece that starts with `c`, and how many characters of `rest` belong to it. -/
def first (c : Char) (rest : List Char) : Piece × Nat :=
  match c with
  | '(' => punctuation .leftParen
  | ')' => punctuation .rightParen
  | '{' => punctuation .leftBrace
  | '}' => punctuation .rightBrace
  | ',' => punctuation .comma
  | '.' => punctuation .dot
  | '-' => punctuation .minus
  | '+' => punctuation .plus
  | '%' => punctuation .percent
  | ';' => punctuation .semicolon
  | '*' => punctuation .star
  | '!' => orEqual .bangEqual .bang rest
  | '=' => orEqual .equalEqual .equal rest
  | '<' => orEqual .lessEqual .less rest
  | '>' => orEqual .greaterEqual .greater rest
  | '/' =>
    match rest with
    | '/' :: more => (blank, 1 + (more.takeWhile (· != '\n')).length)
    | _ => punctuation .slash
  | '"' => string rest
  | c =>
    if isBlank c then (blank, 0)
    else if c.isDigit then number c rest
    else if startsName c then word c rest
    else (fault (.unexpectedCharacter c), 0)

end Piece

/-- Where scanning stands: the number of bytes before it, and the line. -/
structure Place where
  offset : Nat
  line : Nat

namespace Place

def start : Place := ⟨0, 1⟩

def advance (p : Place) (text : List Char) : Place :=
  text.foldl (fun p c => ⟨p.offset + c.utf8Size, if c = '\n' then p.line + 1 else p.line⟩) p

end Place

/-- A stretch of source with the places before and after it. -/
structure Stretch where
  piece : Piece
  text : List Char
  before : Place
  after : Place

namespace Stretch

def span (s : Stretch) : Span := Span.ofOffsets s.before.offset s.after.offset

def token? (s : Stretch) : Option Token :=
  match s.piece with
  | .token kind literal => some ⟨kind, String.ofList s.text, literal, s.after.line, s.span⟩
  | _ => none

def error? (s : Stretch) : Option LexicalError :=
  match s.piece with
  | .fault cause => some ⟨cause, s.after.line, s.span⟩
  | _ => none

/-- The stretches of a text that stands at `p`, put in front of `found`, the last one first, and
the place after the text. -/
def cut (found : List Stretch) (p : Place) : List Char → List Stretch × Place
  | [] => (found, p)
  | c :: rest =>
    let (piece, n) := Piece.first c rest
    let text := c :: rest.take n
    let next := p.advance text
    cut (⟨piece, text, p, next⟩ :: found) next (rest.drop n)
termination_by cs => cs.length
decreasing_by simp only [List.length_drop, List.length_cons]; omega

end Stretch

/-- What scanning a source gives. The tokens end with the only `eof`. -/
structure Scanned where
  tokens : List Token
  errors : List LexicalError

def scan (source : String) : Scanned :=
  let (found, stop) := Stretch.cut [] .start source.toList
  let stretches := found.reverse
  { tokens := stretches.filterMap Stretch.token? ++
      [Token.eof stop.line (min stop.offset Span.limit)]
    errors := stretches.filterMap Stretch.error? }

end TinyScript
