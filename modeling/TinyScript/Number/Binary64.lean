/-!
Doubles as words of 64 bits. What is no number is many words, with any sign and payload, where a
`Float` has one only. So a double is its word here, taken for a `Float` to calculate and compare.

The non-negative finite doubles in increasing order are numbered 0, 1, 2, … by their words; this
number is the *rank*, and the rank after the last finite one stands for infinity. Every finite
double is a whole number of *units*, where a unit is the smallest positive double 2⁻¹⁰⁷⁴, so
reading, comparing and dividing them needs natural numbers only.
-/

namespace TinyScript

structure Binary64 where
  word : UInt64
deriving DecidableEq

namespace Binary64

/-- The rank of infinity. -/
def infinityRank : Nat := 2047 <<< 52

/-- The double of rank `r` is `significand r` units, shifted by `scale r`. -/
def significand (r : Nat) : Nat := if r < 1 <<< 53 then r else r % (1 <<< 52) + (1 <<< 52)

def scale (r : Nat) : Nat := if r < 1 <<< 53 then 0 else (r >>> 52) - 1

def units (r : Nat) : Nat := significand r <<< scale r

/-- The quotient rounded to the nearest integer, a half to the even one. -/
def roundQuotient (num den : Nat) : Nat :=
  let q := num / den
  let rest := num % den
  if 2 * rest < den then q
  else if den < 2 * rest then q + 1
  else q + q % 2

/-- The rank of the double nearest to `num / den` units, a tie to the even significand.
Rounding up past the last significand of a scale gives the first one of the next scale. -/
def rankOfUnits (num den : Nat) : Nat :=
  let e := (num / den).log2 - 52
  min ((e <<< 52) + roundQuotient num (den <<< e)) infinityRank

/-- The rank of the double nearest to `num / den`. -/
def nearestRank (num den : Nat) : Nat := rankOfUnits (num <<< 1074) den

def ofRank (negative : Bool) (r : Nat) : Binary64 :=
  ⟨UInt64.ofNat (if negative then (1 <<< 63) + r else r)⟩

/-- The rank of the absolute value; above `infinityRank` for no number at all. -/
def rank (x : Binary64) : Nat := x.word.toNat % (1 <<< 63)

def isNegative (x : Binary64) : Bool := 1 <<< 63 ≤ x.word.toNat

def isNaN (x : Binary64) : Bool := infinityRank < rank x

def isInf (x : Binary64) : Bool := rank x == infinityRank

def isFinite (x : Binary64) : Bool := rank x < infinityRank

def nan : Binary64 := ⟨0x7ff8000000000000⟩

/-- What is no number gets the one word that a `Float` has for it. -/
def ofFloat (x : Float) : Binary64 := ⟨x.toBits⟩

def toFloat (x : Binary64) : Float := .ofBits x.word

instance : Coe Float Binary64 := ⟨ofFloat⟩

instance : Coe Binary64 Float := ⟨toFloat⟩

/-- Changes the sign, also of what is no number. -/
instance : Neg Binary64 := ⟨fun x => ofRank (!isNegative x) (rank x)⟩

/-- The remainder of the division rounded toward zero, which is exact. It takes the sign of the
dividend. -/
def remainder (x y : Binary64) : Binary64 :=
  if x.isNaN || y.isNaN || rank x == infinityRank || rank y == 0 then nan
  else if rank y == infinityRank then x
  else ofRank (isNegative x) (rankOfUnits (units (rank x) % units (rank y)) 1)

def lt (x y : Binary64) : Bool := Float.lt x y

def le (x y : Binary64) : Bool := Float.le x y

inductive Operation where
  | add | sub | mul | div | rem
deriving DecidableEq, Repr

/-- What an operation gives, but for the word if that is no number. -/
def Operation.result : Operation → Binary64 → Binary64 → Binary64
  | add, x, y => (x + y : Float)
  | sub, x, y => (x - y : Float)
  | mul, x, y => (x * y : Float)
  | div, x, y => (x / y : Float)
  | rem, x, y => remainder x y

/-- The word that an operation gives if it gives no number. The standard of the arithmetic leaves
it open, and machines differ. -/
class NaNChoice where
  choose : Operation → Binary64 → Binary64 → Binary64
  isNaN_choose (op : Operation) (x y : Binary64) : (choose op x y).isNaN = true

def Operation.apply [NaNChoice] (op : Operation) (x y : Binary64) : Binary64 :=
  let z := op.result x y
  if z.isNaN then NaNChoice.choose op x y else z

/-- Sets the first bit of the payload. -/
def quiet (x : Binary64) : Binary64 := ⟨x.word ||| 0x8000000000000⟩

theorem isNaN_quiet {x : Binary64} (h : x.isNaN = true) : x.quiet.isNaN = true := by
  have hrank : rank x ≤ rank x.quiet := by
    have hor : rank x.quiet = rank x ||| 1 <<< 51 := by
      rw [rank, quiet, UInt64.toNat_or]
      exact Nat.or_mod_two_pow (n := 63)
    rw [hor]
    exact Nat.left_le_or
  exact decide_eq_true (Nat.lt_of_lt_of_le (of_decide_eq_true h) hrank)

/-- The first operand that is no number is handed on, made quiet. -/
instance : NaNChoice where
  choose _ x y := if x.isNaN then x.quiet else if y.isNaN then y.quiet else nan
  isNaN_choose _ x y := by
    split
    · next hx => exact isNaN_quiet hx
    · split
      · next hy => exact isNaN_quiet hy
      · decide

end Binary64

end TinyScript
