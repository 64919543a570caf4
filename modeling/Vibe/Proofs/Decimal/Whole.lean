import Mathlib
import Vibe.Decimal.Rounding

/-! The values of numbers. Whole numbers with no more than 53 binary digits are numbers, and the
floor of a number is a natural number if that of its value is. -/

namespace Vibe

open Float.Model UnpackedFloat

section Packing

variable {s : Sign} {m : Nat} {e : Int}

/-- Where a number has the exponent that it should have, nothing is shifted. -/
theorem shiftToTargetExponent_of_eq
    (h : Format.binary64.targetExponent (totalExponent m e) = e) :
    shiftToTargetExponent .binary64 m e .exact = (⟨m, false, false⟩, e) := by
  simp [shiftToTargetExponent, shiftToExponent, h, ExtendedMantissa.ofMantissaAndAccuracy,
    HShiftRight.hShiftRight, Nat.repeat]

theorem targetExponent_eq (m : Nat) (e : Int) :
    Format.binary64.targetExponent (totalExponent m e) = max (m.log2 + e - 52) (-1074) := by
  simp only [Format.targetExponent, totalExponent, Format.mantissaBits, Format.minExponent]
  norm_num
  omega

/-- A significand of 53 binary digits stays as it is. -/
theorem roundWithAccuracy_full (hm : m.log2 = 52) (he : -1074 ≤ e) (hpos : 0 < m) :
    roundWithAccuracy .binary64 s m e .exact = .finite s m e hpos := by
  have htarget : Format.binary64.targetExponent (totalExponent m e) = e := by
    rw [targetExponent_eq, hm]
    omega
  simp [roundWithAccuracy, shiftToTargetExponent_of_eq htarget, ExtendedMantissa.roundedMantissa,
    ExtendedMantissa.accuracy, Accuracy.roundToNearestEven, Nat.ne_of_gt hpos]

/-- Zeros behind a significand are more binary digits. -/
theorem log2_mul_two_pow (hm : m ≠ 0) (k : Nat) : (m * 2 ^ k).log2 = m.log2 + k := by
  have hpos : m * 2 ^ k ≠ 0 := Nat.mul_ne_zero hm (Nat.two_pow_pos k).ne'
  refine (Nat.log2_eq_iff hpos).2 ⟨?_, ?_⟩
  · rw [Nat.pow_add]
    exact Nat.mul_le_mul_right _ (Nat.log2_self_le hm)
  · rw [Nat.add_right_comm, Nat.pow_add]
    exact Nat.mul_lt_mul_of_pos_right Nat.lt_log2_self (Nat.two_pow_pos k)

/-- A significand with fewer binary digits is filled up with zeros. -/
theorem round_short (hm : m ≠ 0) (hlog : m.log2 ≤ 52) (he : -1022 ≤ m.log2 + e) :
    ∃ h, UnpackedFloat.round .binary64 s m e =
      .finite s (m * 2 ^ (52 - m.log2)) (e - (52 - m.log2 : Nat)) h := by
  have hfull : (m * 2 ^ (52 - m.log2)).log2 = 52 := by
    rw [log2_mul_two_pow hm]
    omega
  have htarget : Format.binary64.targetExponent (totalExponent m e) =
      e - (52 - m.log2 : Nat) := by
    rw [targetExponent_eq]
    omega
  have hshift : (e - (e - (52 - m.log2 : Nat))).toNat = 52 - m.log2 := by omega
  refine ⟨Nat.pos_of_ne_zero fun h => ?_, ?_⟩
  · rw [h] at hfull
    cases hfull
  · simp only [UnpackedFloat.round, decreaseExponent, htarget, hshift, Nat.shiftLeft_eq]
    exact roundWithAccuracy_full hfull (by omega) _

/-- A number with a significand of 53 binary digits is unpacked as it was packed. -/
theorem unpack_pack_full (hm : m.log2 = 52) (hlow : -1074 ≤ e) (hhigh : e ≤ 971) (hpos : 0 < m) :
    UnpackedFloat.unpack .binary64 (UnpackedFloat.pack .binary64 (.finite s m e hpos)) =
      .finite s m e hpos := by
  obtain ⟨hle, hlt⟩ := (Nat.log2_eq_iff (Nat.ne_of_gt hpos)).1 hm
  have hbias : (e + Format.binary64.exponentBias + (52 : Nat)).toNat = (e + 1075).toNat := by
    change (e + 1023 + 52).toNat = _
    omega
  have hpack : UnpackedFloat.pack .binary64 (.finite s m e hpos) =
      packComponents .binary64 s (BitVec.ofNat 11 (e + 1075).toNat) (BitVec.ofNat 52 m) := by
    simp only [UnpackedFloat.pack, hbias, hm]
    rw [if_neg (by change ¬ 2048 ≤ _; omega)]
    rfl
  have hexponent : (BitVec.ofNat 11 (e + 1075).toNat).toNat = (e + 1075).toNat := by
    rw [BitVec.toNat_ofNat]
    omega
  have hnot : ∀ b : BitVec 11, b.toNat = 2047 ∨ b.toNat = 0 →
      BitVec.ofNat 11 (e + 1075).toNat ≠ b := by
    rintro b hb rfl
    rw [hexponent] at hb
    omega
  -- The first of the binary digits is not stored.
  have hmantissa : (1#1 ++ BitVec.ofNat 52 m).toNat = m := by
    rw [BitVec.toNat_append, BitVec.toNat_ofNat, BitVec.toNat_ofNat, Nat.shiftLeft_eq,
      Nat.or_comm, Nat.pow_one]
    rw [Nat.one_mod, Nat.one_mul, Nat.or_two_pow_eq_add_of_lt (Nat.mod_lt m (Nat.two_pow_pos 52))]
    omega
  rw [hpack]
  simp only [UnpackedFloat.unpack, unpackMantissa_packComponents, unpackExponent_packComponents,
    unpackSign_packComponents, Sign.ofBitVec_toBitVec, hexponent, hmantissa]
  rw [if_neg (hnot _ (.inl rfl)), if_neg (hnot _ (.inr rfl))]
  congr 1
  change _ - ((1023 : Nat) + 52 : Int) = e
  omega

end Packing

namespace Binary

variable {m : Nat} {e : Int} {x : Float} {b : Binary}

/-- The value of a binary number. -/
def value (b : Binary) : ℚ :=
  (if b.negative then -1 else 1) * (b.significand * 2 ^ b.exponent)

/-- The value of a number, if it is finite. -/
def value? (x : Float) : Option ℚ :=
  (ofFloat? x).map value

theorem fraction_eq (b : Binary) :
    (b.fraction.1 / b.fraction.2 : ℚ) = b.significand * 2 ^ b.exponent := by
  have hexponent : b.exponent = (b.exponent.toNat : Int) - ((-b.exponent).toNat : Int) := by omega
  conv_rhs => rw [hexponent, zpow_sub₀ two_ne_zero, zpow_natCast, zpow_natCast]
  simp only [fraction, Nat.pow_eq]
  push_cast
  rw [mul_div_assoc]

theorem value_of_significand_eq_zero (h : b.significand = 0) : b.value = 0 := by
  simp [value, h]

theorem value_neg (h : b.negative = true ∧ b.significand ≠ 0) : b.value < 0 := by
  have hpos : (0 : ℚ) < b.significand := Nat.cast_pos.2 (Nat.pos_of_ne_zero h.2)
  rw [value, if_pos h.1]
  have := mul_pos hpos (zpow_pos (two_pos : (0 : ℚ) < 2) b.exponent)
  linarith

theorem value_of_nonneg (h : b.negative = true → b.significand = 0) :
    b.value = (b.fraction.1 / b.fraction.2 : ℚ) := by
  rw [fraction_eq]
  by_cases hnegative : b.negative = true
  · simp [value, h hnegative]
  · rw [value, if_neg hnegative, one_mul]

/-- A number with at most 53 binary digits is kept as it is. -/
theorem value?_toFloat (negative : Bool) (hm : m < 2 ^ 53) (hlow : -1022 ≤ e) (hhigh : e ≤ 971) :
    value? (toFloat ⟨negative, m, e⟩) = some (value ⟨negative, m, e⟩) := by
  let sign : Sign := if negative then .negative else .positive
  have hsign : (sign == .negative) = negative := by cases negative <;> rfl
  by_cases hzero : m = 0
  · have hunpack : (toFloat ⟨negative, m, e⟩).toModel.unpack = .zero sign := by
      rw [toFloat, if_pos hzero]
      exact unpack_packedZero
    rw [value?, ofFloat?, hunpack]
    exact congrArg some <|
      (value_of_significand_eq_zero rfl).trans (value_of_significand_eq_zero hzero).symm
  · have hlog : m.log2 ≤ 52 := Nat.le_of_lt_succ ((Nat.log2_lt hzero).2 hm)
    obtain ⟨hpos, hround⟩ := round_short (s := sign) hzero hlog (e := e) (by omega)
    have hfull : (m * 2 ^ (52 - m.log2)).log2 = 52 := by
      rw [log2_mul_two_pow hzero]
      omega
    have hunpack : (toFloat ⟨negative, m, e⟩).toModel.unpack =
        .finite sign (m * 2 ^ (52 - m.log2)) (e - (52 - m.log2 : Nat)) hpos := by
      rw [toFloat, if_neg hzero, hround]
      exact unpack_pack_full hfull (by omega) (by omega) hpos
    rw [value?, ofFloat?, hunpack]
    simp only [hsign, value, Option.map_some]
    rw [zpow_sub₀ two_ne_zero, zpow_natCast]
    push_cast
    field_simp

end Binary

/-- The floor as a natural number is that of the value, for a value that is not negative. -/
theorem Rounding.floorNat?_eq (x : Float) : floorNat? x =
    (Binary.value? x).bind fun q => if 0 ≤ ⌊q⌋ then some ⌊q⌋.toNat else none := by
  rw [floorNat?, Binary.value?]
  cases Binary.ofFloat? x with
  | none => rfl
  | some b =>
    change (if b.negative && b.significand != 0 then none else
      some (b.fraction.1 / b.fraction.2)) = if 0 ≤ ⌊b.value⌋ then some ⌊b.value⌋.toNat else none
    split
    · next hnegative =>
      have hfloor : ⌊b.value⌋ < 0 := Int.floor_lt_zero.2 (b.value_neg (by simpa using hnegative))
      rw [if_neg (Int.not_le.2 hfloor)]
    · next hnegative =>
      rw [b.value_of_nonneg (by simpa using hnegative), Rat.floor_natCast_div_natCast,
        ← Int.natCast_ediv, if_pos (Int.natCast_nonneg _), Int.toNat_natCast]

end Vibe
