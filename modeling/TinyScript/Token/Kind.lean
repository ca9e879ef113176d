/-!
Kinds of tokens: punctuation, operators, literals, the eleven reserved words and the end of the
source.
-/

namespace TinyScript

inductive TokenKind where
  | leftParen | rightParen | leftBrace | rightBrace | comma | dot | minus | plus | percent
  | semicolon | slash | star
  | bang | bangEqual | equal | equalEqual | greater | greaterEqual | less | lessEqual
  | identifier | string | number
  | kwAnd | kwElse | kwFalse | kwFor | kwIf | kwNull | kwOr | kwPrint | kwTrue | kwVar | kwWhile
  | eof
deriving DecidableEq, Repr

namespace TokenKind

/-- Every kind, in the order of the declaration. -/
def all : List TokenKind := [
  leftParen, rightParen, leftBrace, rightBrace, comma, dot, minus, plus, percent,
  semicolon, slash, star,
  bang, bangEqual, equal, equalEqual, greater, greaterEqual, less, lessEqual,
  identifier, string, number,
  kwAnd, kwElse, kwFalse, kwFor, kwIf, kwNull, kwOr, kwPrint, kwTrue, kwVar, kwWhile,
  eof]

/-- The place of a kind in `all`. -/
def index (k : TokenKind) : Nat := all.idxOf k

/-- The name under which token listings show a kind. -/
def name : TokenKind → String
  | leftParen => "LeftParen"
  | rightParen => "RightParen"
  | leftBrace => "LeftBrace"
  | rightBrace => "RightBrace"
  | comma => "Comma"
  | dot => "Dot"
  | minus => "Minus"
  | plus => "Plus"
  | percent => "Percent"
  | semicolon => "Semicolon"
  | slash => "Slash"
  | star => "Star"
  | bang => "Bang"
  | bangEqual => "BangEqual"
  | equal => "Equal"
  | equalEqual => "EqualEqual"
  | greater => "Greater"
  | greaterEqual => "GreaterEqual"
  | less => "Less"
  | lessEqual => "LessEqual"
  | identifier => "Identifier"
  | string => "String"
  | number => "Number"
  | kwAnd => "And"
  | kwElse => "Else"
  | kwFalse => "False"
  | kwFor => "For"
  | kwIf => "If"
  | kwNull => "Null"
  | kwOr => "Or"
  | kwPrint => "Print"
  | kwTrue => "True"
  | kwVar => "Var"
  | kwWhile => "While"
  | eof => "Eof"

/-- The words used for a kind in "expected …" messages. -/
def description : TokenKind → String
  | leftParen => "`(`"
  | rightParen => "`)`"
  | leftBrace => "`\x7b`"
  | rightBrace => "`\x7d`"
  | comma => "`,`"
  | dot => "`.`"
  | minus => "`-`"
  | plus => "`+`"
  | percent => "`%`"
  | semicolon => "`;`"
  | slash => "`/`"
  | star => "`*`"
  | bang => "`!`"
  | bangEqual => "`!=`"
  | equal => "`=`"
  | equalEqual => "`==`"
  | greater => "`>`"
  | greaterEqual => "`>=`"
  | less => "`<`"
  | lessEqual => "`<=`"
  | identifier => "identifier"
  | string => "string"
  | number => "number"
  | kwAnd => "`and`"
  | kwElse => "`else`"
  | kwFalse => "`false`"
  | kwFor => "`for`"
  | kwIf => "`if`"
  | kwNull => "`null`"
  | kwOr => "`or`"
  | kwPrint => "`print`"
  | kwTrue => "`true`"
  | kwVar => "`var`"
  | kwWhile => "`while`"
  | eof => "end of file"

/-- The kind of a reserved word. -/
def ofWord? : String → Option TokenKind
  | "and" => some kwAnd
  | "else" => some kwElse
  | "false" => some kwFalse
  | "for" => some kwFor
  | "if" => some kwIf
  | "null" => some kwNull
  | "or" => some kwOr
  | "print" => some kwPrint
  | "true" => some kwTrue
  | "var" => some kwVar
  | "while" => some kwWhile
  | _ => none

theorem mem_all (k : TokenKind) : k ∈ all := by cases k <;> decide

end TokenKind

end TinyScript
