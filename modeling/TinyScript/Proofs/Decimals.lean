import Mathlib.Data.Nat.Prime.Basic
import Mathlib.Tactic.Ring
import TinyScript.Proofs.Doubles
import TinyScript.Number.Decimal

/-!
The decimal text of a double reads as that double. Rounding depends on the ratio only, a double is
its own nearest one, and every form that the search for a short text goes through has the value of
the text that comes out.
-/

namespace TinyScript

namespace Binary64

theorem roundQuotient_mul (num den : Nat) {k : Nat} (hk : 0 < k) :
    roundQuotient (num * k) (den * k) = roundQuotient num den := by
  have hrest : 2 * (num % den * k) = 2 * (num % den) * k := (Nat.mul_assoc _ _ _).symm
  simp only [roundQuotient, Nat.mul_div_mul_right num den hk, Nat.mul_mod_mul_right k num den, hrest,
    Nat.mul_lt_mul_right hk]

theorem rankOfUnits_mul (num den : Nat) {k : Nat} (hk : 0 < k) :
    rankOfUnits (num * k) (den * k) = rankOfUnits num den := by
  simp only [rankOfUnits, Nat.mul_div_mul_right num den hk, Nat.shiftLeft_eq,
    Nat.mul_right_comm den k, roundQuotient_mul num _ hk]

/-- Equal ratios are rounded to the same double. -/
theorem rankOfUnits_congr {num den num' den' : Nat} (hden : 0 < den) (hden' : 0 < den')
    (h : num * den' = num' * den) : rankOfUnits num den = rankOfUnits num' den' := by
  rw [← rankOfUnits_mul num den hden', ← rankOfUnits_mul num' den' hden, h, Nat.mul_comm den]

theorem nearestRank_congr {num den num' den' : Nat} (hden : 0 < den) (hden' : 0 < den')
    (h : num * den' = num' * den) : nearestRank num den = nearestRank num' den' := by
  apply rankOfUnits_congr hden hden'
  rw [Nat.shiftLeft_eq, Nat.shiftLeft_eq, Nat.mul_right_comm, h, Nat.mul_right_comm]

theorem roundQuotient_exact (q : Nat) {den : Nat} (hden : 0 < den) :
    roundQuotient (q * den) den = q := by
  simp only [roundQuotient, Nat.mul_div_cancel q hden, Nat.mul_mod_left, Nat.mul_zero, hden, if_true]

theorem rank_eq (r : Nat) : (scale r <<< 52) + significand r = r := by
  rw [scale, significand, Nat.shiftLeft_eq, Nat.shiftLeft_eq, Nat.shiftLeft_eq,
    Nat.shiftRight_eq_div_pow]
  split <;> omega

theorem significand_lt (r : Nat) : significand r < 2 ^ 53 := by
  rw [significand, Nat.shiftLeft_eq, Nat.shiftLeft_eq]
  split <;> omega

/-- Only the smallest scale has significands with fewer bits. -/
theorem le_significand (r : Nat) : scale r = 0 ∨ 2 ^ 52 ≤ significand r := by
  rw [scale, significand]
  split
  · exact .inl rfl
  · exact .inr (Nat.le_add_left _ _)

theorem log2_units (r : Nat) : (units r).log2 - 52 = scale r := by
  have hlt : units r < 2 ^ (53 + scale r) := by
    rw [units, Nat.shiftLeft_eq, Nat.pow_add]
    exact Nat.mul_lt_mul_of_pos_right (significand_lt r) (Nat.two_pow_pos _)
  by_cases hzero : units r = 0
  · obtain hscale | hle := le_significand r
    · rw [hzero, hscale, Nat.log2_zero]
    · rw [units, Nat.shiftLeft_eq, Nat.mul_eq_zero] at hzero
      have := Nat.two_pow_pos (scale r)
      omega
  · have hupper := (Nat.log2_lt hzero).2 hlt
    obtain hscale | hle := le_significand r
    · omega
    · have hlower : 52 + scale r ≤ (units r).log2 := by
        rw [Nat.le_log2 hzero, units, Nat.shiftLeft_eq, Nat.pow_add]
        exact Nat.mul_le_mul_right _ hle
      omega

/-- A double is the nearest one to itself. -/
theorem rankOfUnits_units (r : Nat) {den : Nat} (hden : 0 < den) :
    rankOfUnits (units r * den) den = min r infinityRank := by
  have hshift : units r * den = significand r * (den <<< scale r) := by
    rw [units, Nat.shiftLeft_eq, Nat.shiftLeft_eq, Nat.mul_assoc, Nat.mul_comm den]
  have hpos : 0 < den <<< scale r := by
    rw [Nat.shiftLeft_eq]
    exact Nat.mul_pos hden (Nat.two_pow_pos _)
  simp only [rankOfUnits, Nat.mul_div_cancel _ hden, log2_units]
  rw [hshift, roundQuotient_exact _ hpos, rank_eq]

theorem nearestRank_le (num den : Nat) : nearestRank num den ≤ infinityRank := Nat.min_le_right _ _

theorem nearestRank_lt (num den : Nat) : nearestRank num den < 2 ^ 63 :=
  Nat.lt_of_le_of_lt (nearestRank_le num den) infinityRank_lt

end Binary64

namespace Decimal

theorem tenTo_pos (n : Nat) : 0 < tenTo n := Nat.pow_pos (by decide)

theorem tenTo_zero : tenTo 0 = 1 := rfl

theorem tenTo_add (m n : Nat) : tenTo (m + n) = tenTo m * tenTo n := Nat.pow_add 10 m n

section Digits

theorem ofDigits_eq (ds : List Char) : ofDigits ds = Nat.ofDigitChars 10 ds 0 := rfl

theorem ofDigits_append (a b : List Char) :
    ofDigits (a ++ b) = ofDigits a * tenTo b.length + ofDigits b := by
  rw [ofDigits_eq, Nat.ofDigitChars_append, Nat.ofDigitChars_eq_ofDigitChars_zero, Nat.mul_comm]
  rfl

theorem ofDigits_zeros (n : Nat) : ofDigits (List.replicate n '0') = 0 := by
  rw [ofDigits_eq, Nat.ofDigitChars_replicate_zero, Nat.mul_zero]

theorem ofDigits_toDigits (n : Nat) : ofDigits (Nat.toDigits 10 n) = n :=
  Nat.ofDigitChars_ten_toDigits

theorem isDigit_toDigits (n : Nat) : ∀ d ∈ Nat.toDigits 10 n, d.isDigit :=
  fun _ hd => Nat.isDigit_of_mem_toDigits (by decide) (by decide) hd

/-- Only zeros are dropped. -/
theorem exists_zeros (ds : List Char) :
    ∃ k, ds = dropTrailingZeros ds ++ List.replicate k '0' := by
  have hzeros : ∀ d ∈ ds.reverse.takeWhile (· == '0'), d = '0' := fun d hd =>
    eq_of_beq (List.all_eq_true.1 List.all_takeWhile d hd)
  have hsplit := List.takeWhile_append_dropWhile (p := (· == '0')) (l := ds.reverse)
  rw [List.eq_replicate_of_mem hzeros] at hsplit
  refine ⟨(ds.reverse.takeWhile (· == '0')).length, ?_⟩
  rw [dropTrailingZeros, ← List.reverse_replicate, ← List.reverse_append, hsplit,
    List.reverse_reverse]

end Digits

theorem two_pow_log2 {d k : Nat} (h : d ∣ 2 ^ k) : 2 ^ d.log2 = d := by
  obtain ⟨j, -, rfl⟩ := (Nat.dvd_prime_pow Nat.prime_two).1 h
  rw [Nat.log2_two_pow]

/-- A fraction with a power of two below, reduced, is a decimal. -/
theorem reduced_fraction (m e k : Nat) :
    m / m.gcd (2 ^ k) * 5 ^ (2 ^ k / m.gcd (2 ^ k)).log2 * 2 ^ (e + k) =
      m * 2 ^ e * 10 ^ (2 ^ k / m.gcd (2 ^ k)).log2 := by
  have hlog : 2 ^ (2 ^ k / m.gcd (2 ^ k)).log2 = 2 ^ k / m.gcd (2 ^ k) :=
    two_pow_log2 (Nat.div_dvd_of_dvd (Nat.gcd_dvd_right _ _))
  have hcross : m / m.gcd (2 ^ k) * 2 ^ k = m * (2 ^ k / m.gcd (2 ^ k)) := by
    rw [← Nat.mul_div_assoc _ (Nat.gcd_dvd_right _ _),
      Nat.div_mul_right_comm (Nat.gcd_dvd_left _ _)]
  generalize (2 ^ k / m.gcd (2 ^ k)).log2 = places at hlog ⊢
  rw [← hlog] at hcross
  calc m / m.gcd (2 ^ k) * 5 ^ places * 2 ^ (e + k)
      = m / m.gcd (2 ^ k) * 2 ^ k * (2 ^ e * 5 ^ places) := by
        ring
    _ = m * 2 ^ places * (2 ^ e * 5 ^ places) := by rw [hcross]
    _ = m * 2 ^ e * (2 ^ places * 5 ^ places) := by ring
    _ = m * 2 ^ e * 10 ^ places := by rw [← Nat.mul_pow]

/-- The exact decimal of a double, in units. The exponent of the unit is a variable here, so that
no step evaluates the power. -/
theorem exact_eq (r : Nat) {top : Nat} (htop : 1074 = top) :
    (exact r).digits * 2 ^ top = Binary64.units r * tenTo (exact r).places := by
  by_cases he : top ≤ Binary64.scale r
  · have hexact : exact r = ⟨Binary64.significand r <<< (Binary64.scale r - top), 0⟩ := by
      subst htop
      exact if_pos he
    rw [hexact, tenTo_zero, Nat.mul_one, Binary64.units, Nat.shiftLeft_eq, Nat.shiftLeft_eq,
      Nat.mul_assoc, ← Nat.pow_add, Nat.sub_add_cancel he]
  · have hexact : exact r =
        let g := (Binary64.significand r).gcd (1 <<< (top - Binary64.scale r))
        let places := ((1 <<< (top - Binary64.scale r)) / g).log2
        ⟨Binary64.significand r / g * Nat.pow 5 places, places⟩ := by
      subst htop
      exact if_neg he
    have hreduced := reduced_fraction (Binary64.significand r) (Binary64.scale r)
      (top - Binary64.scale r)
    rw [Nat.add_sub_cancel' (Nat.le_of_not_le he)] at hreduced
    rw [hexact, Binary64.units, Nat.shiftLeft_eq, Nat.shiftLeft_eq, Nat.one_mul]
    exact hreduced

/-- The exact decimal of a double reads as it. -/
theorem nearestRank_exact {r : Nat} (hr : r < Binary64.infinityRank) :
    Binary64.nearestRank (exact r).digits (tenTo (exact r).places) = r := by
  obtain ⟨top, htop⟩ : ∃ top, 1074 = top := ⟨_, rfl⟩
  rw [Binary64.nearestRank, htop, Nat.shiftLeft_eq, exact_eq r htop,
    Binary64.rankOfUnits_units r (tenTo_pos _), Nat.min_eq_left (Nat.le_of_lt hr)]

theorem Fixed.nearestRank_shorten {x : Fixed} {r p c : Nat} (h : x.shorten? r p = some c) :
    Binary64.nearestRank (c * tenTo p) (tenTo x.places) = r := by
  unfold shorten? at h
  generalize Binary64.nearestRank = nearest at h ⊢
  simp only at h
  split at h
  · next hlow hhigh =>
    split at h <;> rw [← Option.some.inj h]
    · exact eq_of_beq hlow
    · exact eq_of_beq hhigh
  · next hlow _ =>
    rw [← Option.some.inj h]
    exact eq_of_beq hlow
  · next _ hhigh =>
    rw [← Option.some.inj h]
    exact eq_of_beq hhigh
  · cases h

theorem Fixed.shortest_succ (x : Fixed) (r p : Nat) :
    x.shortest r (p + 1) = match x.shorten? r (p + 1) with
      | some c => (c, p + 1)
      | none => x.shortest r p := by
  -- the equation that unfolding would make evaluates the search
  rfl

theorem Fixed.shortest_cases (x : Fixed) (r p : Nat) :
    x.shortest r p = (x.digits, 0) ∨ ∃ c q, x.shorten? r q = some c ∧ x.shortest r p = (c, q) := by
  induction p with
  | zero => exact .inl rfl
  | succ p ih =>
    rw [shortest_succ]
    cases hc : x.shorten? r (p + 1) with
    | none => exact ih
    | some c => exact .inr ⟨c, p + 1, hc, rfl⟩

/-- Whatever is dropped, the decimal still reads as the double. -/
theorem Fixed.nearestRank_shortest {x : Fixed} {r : Nat}
    (h : Binary64.nearestRank x.digits (tenTo x.places) = r) (p : Nat) :
    Binary64.nearestRank ((x.shortest r p).1 * tenTo (x.shortest r p).2) (tenTo x.places) = r := by
  obtain hall | ⟨c, q, hc, hshort⟩ := x.shortest_cases r p
  · rw [hall, tenTo_zero, Nat.mul_one]
    exact h
  · rw [hshort]
    exact nearestRank_shorten hc

/-- The text of the decimal `whole.fraction`. -/
def point (whole fraction : List Char) : List Char :=
  if fraction.isEmpty then whole else whole ++ '.' :: fraction

/-- The last `n` digits of a number, zeros in front included. -/
def lastDigits (c n : Nat) : List Char :=
  List.replicate (n - (Nat.toDigits 10 (c % tenTo n)).length) '0' ++ Nat.toDigits 10 (c % tenTo n)

theorem length_lastDigits (c : Nat) {n : Nat} (hn : 0 < n) : (lastDigits c n).length = n := by
  have hle : (Nat.toDigits 10 (c % tenTo n)).length ≤ n :=
    (Nat.length_toDigits_le_iff (by decide) hn).2 (Nat.mod_lt c (tenTo_pos n))
  rw [lastDigits, List.length_append, List.length_replicate, Nat.sub_add_cancel hle]

theorem ofDigits_lastDigits (c n : Nat) : ofDigits (lastDigits c n) = c % tenTo n := by
  rw [lastDigits, ofDigits_append, ofDigits_zeros, Nat.zero_mul, Nat.zero_add, ofDigits_toDigits]

theorem isDigit_lastDigits (c n : Nat) : ∀ d ∈ lastDigits c n, d.isDigit := by
  intro d hd
  obtain hd | hd := List.mem_append.1 hd
  · rw [List.eq_of_mem_replicate hd]
    rfl
  · exact isDigit_toDigits _ d hd

/-- The positional form of a decimal has its value. -/
theorem positional_eq (c p places : Nat) : ∃ whole fraction : List Char,
    positional c p places = point whole fraction ∧ whole ≠ [] ∧
      (∀ d ∈ whole, d.isDigit) ∧ (∀ d ∈ fraction, d.isDigit) ∧
      ofDigits (whole ++ fraction) * tenTo places = c * tenTo p * tenTo fraction.length := by
  by_cases hp : places ≤ p
  · refine ⟨Nat.toDigits 10 (c * tenTo (p - places)), [], if_pos hp, Nat.toDigits_ne_nil,
      isDigit_toDigits _, nofun, ?_⟩
    rw [List.append_nil, ofDigits_toDigits, Nat.mul_assoc, ← tenTo_add, Nat.sub_add_cancel hp,
      List.length_nil, tenTo_zero, Nat.mul_one]
  · obtain ⟨n, hn, rfl⟩ : ∃ n, 0 < n ∧ places = p + n :=
      ⟨places - p, by omega, by omega⟩
    obtain ⟨fraction, k, hfraction, hk⟩ : ∃ fraction k,
        dropTrailingZeros (lastDigits c n) = fraction ∧
          lastDigits c n = fraction ++ List.replicate k '0' :=
      ⟨_, (exists_zeros (lastDigits c n)).choose, rfl, (exists_zeros _).choose_spec⟩
    have hlength : fraction.length + k = n := by
      rw [← length_lastDigits c hn, hk, List.length_append, List.length_replicate]
    have hvalue : ofDigits (Nat.toDigits 10 (c / tenTo n) ++ fraction) * tenTo k = c := by
      have hall : ofDigits (Nat.toDigits 10 (c / tenTo n) ++ lastDigits c n) = c := by
        rw [ofDigits_append, ofDigits_toDigits, length_lastDigits c hn, ofDigits_lastDigits,
          Nat.mul_comm, Nat.div_add_mod]
      rw [hk, ← List.append_assoc, ofDigits_append, ofDigits_zeros, List.length_replicate] at hall
      exact hall
    refine ⟨Nat.toDigits 10 (c / tenTo n), fraction, ?_, Nat.toDigits_ne_nil, isDigit_toDigits _,
      fun d hd => ?_, ?_⟩
    · have hform : positional c p (p + n) = _ := if_neg hp
      rw [hform, Nat.add_sub_cancel_left, ← hfraction]
      rfl
    · refine isDigit_lastDigits c n d ?_
      rw [hk]
      exact List.mem_append_left _ hd
    · generalize ofDigits (Nat.toDigits 10 (c / tenTo n) ++ fraction) = value at hvalue ⊢
      rw [← hvalue, ← hlength, tenTo_add, tenTo_add]
      ring

/-- The digits of a double read as it. -/
theorem read_ofRank {r : Nat} (hr : r < Binary64.infinityRank) : ∃ whole fraction : List Char,
    ofRank r = point whole fraction ∧ whole ≠ [] ∧
      (∀ d ∈ whole, d.isDigit) ∧ (∀ d ∈ fraction, d.isDigit) ∧
      read whole fraction = Binary64.ofRank false r := by
  have hshortest := Fixed.nearestRank_shortest (nearestRank_exact hr)
    ((Nat.toDigits 10 (exact r).digits).length - 1)
  obtain ⟨whole, fraction, htext, hne, hwhole, hfraction, hvalue⟩ := positional_eq
    ((exact r).shortest r ((Nat.toDigits 10 (exact r).digits).length - 1)).1
    ((exact r).shortest r ((Nat.toDigits 10 (exact r).digits).length - 1)).2 (exact r).places
  refine ⟨whole, fraction, htext, hne, hwhole, hfraction, ?_⟩
  rw [read, Binary64.nearestRank_congr (tenTo_pos _) (tenTo_pos _) hvalue, hshortest]

/-- The text of a finite double is the digits of its absolute value, behind a sign. -/
theorem read_write {x : Binary64} (hx : x.isFinite) : ∃ whole fraction : List Char,
    whole ≠ [] ∧ (∀ d ∈ whole, d.isDigit) ∧ (∀ d ∈ fraction, d.isDigit) ∧
      (write x = String.ofList (point whole fraction) ∧ x = read whole fraction ∨
        write x = String.ofList ('-' :: point whole fraction) ∧ x = -read whole fraction) := by
  have hrank := Binary64.rank_lt_of_isFinite hx
  obtain ⟨whole, fraction, htext, hne, hwhole, hfraction, hread⟩ := read_ofRank hrank
  refine ⟨whole, fraction, hne, hwhole, hfraction, ?_⟩
  have hinfinity : (Binary64.rank x == Binary64.infinityRank) = false :=
    beq_false_of_ne (Nat.ne_of_lt hrank)
  have hvalue := Binary64.eq_ofRank x
  simp only [write, Binary64.not_isNaN_of_isFinite hx, hinfinity, Bool.false_eq_true, if_false, htext]
  cases hsign : Binary64.isNegative x with
  | false =>
    rw [hsign] at hvalue
    refine .inl ⟨?_, hvalue.trans hread.symm⟩
    rw [if_neg Bool.false_ne_true, String.empty_append]
  | true =>
    rw [hsign] at hvalue
    refine .inr ⟨?_, ?_⟩
    · rw [if_pos rfl, ← List.singleton_append, String.ofList_append]
    · rw [hread, Binary64.neg_ofRank false (Binary64.rank_lt x)]
      exact hvalue

theorem isNegative_read (whole fraction : List Char) :
    Binary64.isNegative (read whole fraction) = false :=
  Binary64.isNegative_ofRank false (Binary64.nearestRank_lt _ _)

theorem isFinite_read {whole fraction : List Char} (h : (read whole fraction).isInf = false) :
    (read whole fraction).isFinite :=
  Binary64.isFinite_ofRank false (Binary64.nearestRank_le _ _) h

/-- What has been read is written without a sign. -/
theorem write_read {whole fraction : List Char} (h : (read whole fraction).isFinite) :
    ∃ whole' fraction' : List Char, whole' ≠ [] ∧ (∀ d ∈ whole', d.isDigit) ∧
      (∀ d ∈ fraction', d.isDigit) ∧
      write (read whole fraction) = String.ofList (point whole' fraction') ∧
      read whole fraction = read whole' fraction' := by
  obtain ⟨whole', fraction', hne, hwhole, hfraction, ⟨htext, hvalue⟩ | ⟨-, hvalue⟩⟩ := read_write h
  · exact ⟨whole', fraction', hne, hwhole, hfraction, htext, hvalue⟩
  · have hsign := isNegative_read whole fraction
    have hneg : -read whole' fraction' = Binary64.ofRank true _ :=
      Binary64.neg_ofRank false (Binary64.nearestRank_lt _ _)
    rw [hvalue, hneg, Binary64.isNegative_ofRank true (Binary64.nearestRank_lt _ _)] at hsign
    cases hsign

end Decimal

end TinyScript
