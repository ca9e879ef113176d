import TinyScript.Number.Binary64

/-!
Decimal text of numbers, both ways. Reading takes the nearest double. Writing takes the fewest
digits that read back, the nearest of those, and of two equally near ones the larger; the text is
positional, with a fraction only where there is one.
-/

namespace TinyScript.Decimal

def tenTo (n : Nat) : Nat := Nat.pow 10 n

/-- The number whose decimal digits are `ds`. -/
def ofDigits (ds : List Char) : Nat :=
  ds.foldl (fun n d => 10 * n + (d.toNat - '0'.toNat)) 0

/-- The double nearest to the decimal `whole.fraction`, both given by their digits. -/
def read (whole fraction : List Char) : Binary64 :=
  Binary64.ofRank false
    (Binary64.nearestRank (ofDigits (whole ++ fraction)) (tenTo fraction.length))

/-- The decimal `digits / tenTo places`. -/
structure Fixed where
  digits : Nat
  places : Nat

/-- The double of rank `r`, exactly: the fraction is reduced to a power of two below, and that
becomes a power of ten. -/
def exact (r : Nat) : Fixed :=
  let m := Binary64.significand r
  let e := Binary64.scale r
  if 1074 ≤ e then ⟨m <<< (e - 1074), 0⟩
  else
    let d := 1 <<< (1074 - e)
    let g := m.gcd d
    let places := (d / g).log2
    ⟨m / g * Nat.pow 5 places, places⟩

/-- `x` without its last `p` digits, cut down or up, if that still reads as the double of rank
`r`. -/
def Fixed.shorten? (x : Fixed) (r p : Nat) : Option Nat :=
  let low := x.digits / tenTo p
  let reads (c : Nat) := Binary64.nearestRank (c * tenTo p) (tenTo x.places) == r
  match reads low, reads (low + 1) with
  | true, true => if 2 * (x.digits % tenTo p) < tenTo p then some low else some (low + 1)
  | true, false => some low
  | false, true => some (low + 1)
  | false, false => none

/-- The shortest form found by dropping at most `p` digits, with the number of digits dropped. -/
def Fixed.shortest (x : Fixed) (r : Nat) : Nat → Nat × Nat
  | 0 => (x.digits, 0)
  | p + 1 => match x.shorten? r (p + 1) with
    | some c => (c, p + 1)
    | none => x.shortest r p

def dropTrailingZeros (ds : List Char) : List Char := (ds.reverse.dropWhile (· == '0')).reverse

/-- The decimal `c * tenTo p / tenTo places` in positional form. -/
def positional (c p places : Nat) : List Char :=
  if places ≤ p then Nat.toDigits 10 (c * tenTo (p - places))
  else
    let n := places - p
    let ds := Nat.toDigits 10 (c % tenTo n)
    let fraction := dropTrailingZeros (List.replicate (n - ds.length) '0' ++ ds)
    let whole := Nat.toDigits 10 (c / tenTo n)
    if fraction.isEmpty then whole else whole ++ '.' :: fraction

/-- The digits of the finite double of rank `r`. -/
def ofRank (r : Nat) : List Char :=
  let x := exact r
  let (c, p) := x.shortest r ((Nat.toDigits 10 x.digits).length - 1)
  positional c p x.places

def write (x : Binary64) : String :=
  if x.isNaN then "NaN"
  else
    let r := Binary64.rank x
    let sign := if Binary64.isNegative x then "-" else ""
    if r == Binary64.infinityRank then sign ++ "Infinity"
    else sign ++ String.ofList (ofRank r)

end TinyScript.Decimal
