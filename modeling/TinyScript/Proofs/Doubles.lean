import Mathlib
import TinyScript.Number.Binary64

/-!
Doubles by their words. A double is its sign and its rank, and negation changes the sign only. By
way of `Float`, arithmetic gives no number if an operand is none, and comparison does not hold then.
-/

namespace TinyScript.Binary64

open Float.Model (UnpackedFloat)

section Words

variable {x y : Binary64} {r : Nat}

theorem eq_of_word (h : x.word = y.word) : x = y := by
  obtain ⟨w⟩ := x
  obtain rfl : w = y.word := h
  rfl

theorem rank_eq_mod (x : Binary64) : rank x = x.word.toNat % 2 ^ 63 := rfl

theorem isNegative_eq (x : Binary64) : isNegative x = decide (2 ^ 63 ≤ x.word.toNat) := rfl

theorem infinityRank_lt : infinityRank < 2 ^ 63 := by decide

theorem rank_lt (x : Binary64) : rank x < 2 ^ 63 := Nat.mod_lt _ (Nat.two_pow_pos 63)

theorem toNat_ofRank (negative : Bool) (hr : r < 2 ^ 63) :
    (ofRank negative r).word.toNat = negative.toNat * 2 ^ 63 + r := by
  rw [ofRank, UInt64.toNat_ofNat']
  cases negative with
  | false =>
    simp only [Bool.false_eq_true, if_false, Bool.toNat_false]
    omega
  | true =>
    simp only [if_true, Bool.toNat_true]
    omega

theorem rank_ofRank (negative : Bool) (hr : r < 2 ^ 63) : rank (ofRank negative r) = r := by
  rw [rank_eq_mod, toNat_ofRank negative hr]
  omega

theorem isNegative_ofRank (negative : Bool) (hr : r < 2 ^ 63) :
    isNegative (ofRank negative r) = negative := by
  rw [isNegative_eq, toNat_ofRank negative hr]
  cases negative with
  | false =>
    rw [decide_eq_false_iff_not, Bool.toNat_false]
    omega
  | true =>
    rw [decide_eq_true_iff, Bool.toNat_true]
    omega

theorem neg_ofRank (negative : Bool) (hr : r < 2 ^ 63) :
    -ofRank negative r = ofRank (!negative) r := by
  change ofRank (!isNegative _) (rank _) = _
  rw [isNegative_ofRank negative hr, rank_ofRank negative hr]

theorem isFinite_ofRank (negative : Bool) (hr : r ≤ infinityRank)
    (h : (ofRank negative r).isInf = false) : (ofRank negative r).isFinite := by
  rw [isInf, rank_ofRank negative (Nat.lt_of_le_of_lt hr infinityRank_lt)] at h
  rw [isFinite, rank_ofRank negative (Nat.lt_of_le_of_lt hr infinityRank_lt)]
  exact decide_eq_true (Nat.lt_of_le_of_ne hr (ne_of_beq_false h))

/-- A double is its sign and its rank. -/
theorem eq_ofRank (x : Binary64) : x = ofRank (isNegative x) (rank x) := by
  apply eq_of_word
  apply UInt64.toNat_inj.1
  rw [toNat_ofRank _ (rank_lt x), isNegative_eq, rank_eq_mod]
  have hbound := x.word.toNat_lt
  by_cases hsign : 2 ^ 63 ≤ x.word.toNat
  · simp only [hsign, decide_true, Bool.toNat_true]
    omega
  · simp only [hsign, decide_false, Bool.toNat_false]
    omega

theorem isNaN_neg (x : Binary64) : (-x).isNaN = x.isNaN := by
  have hrank : rank (-x) = rank x := rank_ofRank _ (rank_lt x)
  rw [isNaN, isNaN, hrank]

theorem rank_lt_of_isFinite (h : x.isFinite) : rank x < infinityRank := of_decide_eq_true h

theorem not_isNaN_of_isFinite (h : x.isFinite) : x.isNaN = false :=
  decide_eq_false (Nat.lt_asymm (rank_lt_of_isFinite h))

/-- What is no number is not one of the zeros. -/
theorem rank_ne_zero_of_isNaN (h : x.isNaN = true) : rank x ≠ 0 :=
  Nat.ne_zero_of_lt (of_decide_eq_true h)

end Words

/-- The word of no number, with any sign and payload: all bits of the exponent are set, and one of
the fraction. -/
def IsNaNWord (w : UInt64) : Prop := w.toNat / 2 ^ 52 % 2 ^ 11 = 2047 ∧ w.toNat % 2 ^ 52 ≠ 0

instance : DecidablePred IsNaNWord :=
  fun w => inferInstanceAs (Decidable (w.toNat / 2 ^ 52 % 2 ^ 11 = 2047 ∧ w.toNat % 2 ^ 52 ≠ 0))

theorem isNaN_iff (x : Binary64) : x.isNaN = true ↔ IsNaNWord x.word := by
  have hinfinity : infinityRank = 2047 * 2 ^ 52 := rfl
  rw [isNaN, decide_eq_true_iff, rank_eq_mod, IsNaNWord]
  omega

/-! By way of `Float`. -/

theorem unpack_word_iff (x : Binary64) :
    UnpackedFloat.unpack .binary64 x.word.toBitVec = .notANumber ↔ x.isNaN = true := by
  have hexponent : (@UnpackedFloat.unpackExponent .binary64 x.word.toBitVec).toNat =
      x.word.toNat / 2 ^ 52 % 2 ^ 11 := by
    rw [UnpackedFloat.unpackExponent, BitVec.toNat_cast, BitVec.extractLsb_toNat,
      Nat.shiftRight_eq_div_pow]
    rfl
  have hmantissa : (@UnpackedFloat.unpackMantissa .binary64 x.word.toBitVec).toNat =
      x.word.toNat % 2 ^ 52 := by
    rw [UnpackedFloat.unpackMantissa, BitVec.toNat_cast, BitVec.extractLsb_toNat]
    rfl
  have hnan : x.isNaN = true ↔
      @UnpackedFloat.unpackExponent .binary64 x.word.toBitVec = -1#11 ∧
        @UnpackedFloat.unpackMantissa .binary64 x.word.toBitVec ≠ 0#52 := by
    rw [isNaN_iff, IsNaNWord, ← BitVec.toNat_inj, Ne, Ne, ← BitVec.toNat_inj, hexponent, hmantissa]
    rfl
  rw [hnan, UnpackedFloat.unpack]
  dsimp only
  split
  · next he =>
    split
    · next hm => exact iff_of_false nofun fun h => h.2 hm
    · next hm => exact iff_of_true rfl ⟨he, hm⟩
  · next he =>
    split
    · split <;> exact iff_of_false nofun fun h => he h.1
    · exact iff_of_false nofun fun h => he h.1

theorem unpack_toFloat {x : Binary64} (h : x.isNaN = true) :
    x.toFloat.toModel.unpack = .notANumber := by
  have hpack : x.toFloat.toModel =
      .pack (UnpackedFloat.unpack .binary64 x.word.toBitVec) := rfl
  rw [hpack, (unpack_word_iff x).2 h]
  rfl

section Operands

variable {x y : Binary64}

/-- An operation that does so with unpacked operands gives no number if an operand is none. -/
theorem isNaN_of_operand (op : UnpackedFloat → UnpackedFloat → UnpackedFloat)
    (hleft : ∀ v, op .notANumber v = .notANumber) (hright : ∀ u, op u .notANumber = .notANumber)
    (h : x.isNaN = true ∨ y.isNaN = true) :
    (ofFloat (.ofModel (.pack (op x.toFloat.toModel.unpack y.toFloat.toModel.unpack)))).isNaN =
      true := by
  have hpack : (ofFloat (.ofModel (.pack .notANumber))).isNaN = true := by decide
  rcases h with h | h
  · rw [unpack_toFloat h, hleft]
    exact hpack
  · rw [unpack_toFloat h, hright]
    exact hpack

theorem isNaN_result (op : Operation) (h : x.isNaN = true ∨ y.isNaN = true) :
    (op.result x y).isNaN = true := by
  cases op with
  | add => exact isNaN_of_operand (.add .binary64) (fun _ => rfl) (fun u => by cases u <;> rfl) h
  | sub => exact isNaN_of_operand (.sub .binary64) (fun _ => rfl) (fun u => by cases u <;> rfl) h
  | mul => exact isNaN_of_operand (.mul .binary64) (fun _ => rfl) (fun u => by cases u <;> rfl) h
  | div => exact isNaN_of_operand (.div .binary64) (fun _ => rfl) (fun u => by cases u <;> rfl) h
  | rem =>
    have hnan : (x.isNaN || y.isNaN || rank x == infinityRank || rank y == 0) = true := by
      rcases h with h | h <;> simp only [h, Bool.true_or, Bool.or_true]
    rw [Operation.result, remainder, if_pos hnan]
    decide

/-- Whatever word is chosen, arithmetic gives no number if an operand is none. -/
theorem isNaN_apply [NaNChoice] (op : Operation) (h : x.isNaN = true ∨ y.isNaN = true) :
    (op.apply x y).isNaN = true := by
  rw [Operation.apply]
  simp only [isNaN_result op h, if_true]
  exact NaNChoice.isNaN_choose op x y

theorem compare_of_isNaN (h : x.isNaN = true ∨ y.isNaN = true) :
    x.toFloat.toModel.unpack.compare y.toFloat.toModel.unpack = none := by
  rcases h with h | h
  · rw [unpack_toFloat h]
    rfl
  · rw [unpack_toFloat h]
    cases x.toFloat.toModel.unpack <;> rfl

theorem lt_of_isNaN (h : x.isNaN = true ∨ y.isNaN = true) : lt x y = false := by
  have hlt : lt x y =
      decide (x.toFloat.toModel.unpack.lt y.toFloat.toModel.unpack = true) := rfl
  rw [hlt, Bool.decide_eq_true, UnpackedFloat.lt, compare_of_isNaN h]
  rfl

theorem le_of_isNaN (h : x.isNaN = true ∨ y.isNaN = true) : le x y = false := by
  have hle : le x y =
      decide (x.toFloat.toModel.unpack.le y.toFloat.toModel.unpack = true) := rfl
  rw [hle, Bool.decide_eq_true, UnpackedFloat.le, compare_of_isNaN h]
  rfl

end Operands

end TinyScript.Binary64
