import TinyScript.Number.Decimal

/-!
The values a program computes with. There are no containers, so a value is plain data.
-/

namespace TinyScript

inductive Value where
  | number (x : Binary64)
  | text (s : String)
  | boolean (b : Bool)
  | null

namespace Value

/-- `null`, `false`, both zeros and the empty text do not hold; all else does. -/
def truthy : Value → Bool
  | number x => x.rank != 0
  | text s => !s.isEmpty
  | boolean b => b
  | null => false

/-- Numbers are the same when their words are, so the two zeros differ, and everything that is not
a number counts as one. -/
def sameNumber (a b : Binary64) : Bool :=
  if a.isNaN then b.isNaN else a.word == b.word

/-- The equality of the language. Values of different kinds are never equal. -/
def same : Value → Value → Bool
  | number a, number b => sameNumber a b
  | text a, text b => a == b
  | boolean a, boolean b => a == b
  | null, null => true
  | _, _ => false

/-- The canonical text, as `print` writes it. -/
def display : Value → String
  | number x => Decimal.write x
  | text s => s
  | boolean true => "true"
  | boolean false => "false"
  | null => "null"

end Value

end TinyScript
