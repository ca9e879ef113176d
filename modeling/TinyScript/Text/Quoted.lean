import TinyScript.Text.Class

/-!
A text between double quotes, in the form used to show it in one line: the quote, the backslash
and four control characters have short escapes, every other unprintable character is shown by its
number, and the rest stands for itself.
-/

namespace TinyScript

/-- The digits of `n` to base 16, in lower case. -/
def hexDigits (n : Nat) : String := String.ofList (Nat.toDigits 16 n)

def quoteChar (c : Char) : String :=
  match c with
  | '"' => "\\\""
  | '\\' => "\\\\"
  | '\t' => "\\t"
  | '\r' => "\\r"
  | '\n' => "\\n"
  | '\x00' => "\\0"
  | c => if isUnprintable c then "\\u\x7b" ++ hexDigits c.toNat ++ "\x7d" else c.toString

def quoted (s : String) : String :=
  s.foldl (fun out c => out ++ quoteChar c) "\"" ++ "\""

end TinyScript
