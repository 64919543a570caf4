import Vibe.Proofs.Decimal.Nearest

/-! Packing loses nothing of a number in canonical form, and it makes an infinity of what is beyond
the greatest number. -/

namespace Vibe

open Float.Model UnpackedFloat

variable {s : Sign} {m : ℕ} {e t : ℤ} {q : ℚ} {f : UnpackedFloat}

/-- The significands and exponents of numbers: 53 binary digits, fewer only with the least
exponent. -/
structure Canonical (m : ℕ) (e : ℤ) : Prop where
  pos : 0 < m
  lt : m < 2 ^ 53
  full : e = -1074 ∨ 2 ^ 52 ≤ m
  least : -1074 ≤ e
  greatest : e ≤ 971

theorem zero_ne_neg_one : (0#11 : BitVec 11) ≠ -1#11 := by decide

/-- A number with fewer than 53 binary digits is unpacked as it was packed. -/
theorem unpack_pack_short (hm : m < 2 ^ 52) (hpos : 0 < m) :
    UnpackedFloat.unpack .binary64 (UnpackedFloat.pack .binary64 (.finite s m (-1074) hpos)) =
      .finite s m (-1074) hpos := by
  have hlog : ¬ m.log2 + 1 = 53 := by
    have := (Nat.log2_lt hpos.ne').2 hm
    omega
  have hpack : UnpackedFloat.pack .binary64 (.finite s m (-1074) hpos) =
      packComponents .binary64 s 0#11 (BitVec.ofNat 52 m) := by
    rw [UnpackedFloat.pack, if_neg (by decide)]
    exact if_neg hlog
  have hmantissa : (BitVec.ofNat 52 m).toNat = m := by
    rw [BitVec.toNat_ofNat, Nat.mod_eq_of_lt hm]
  have hne : BitVec.ofNat 52 m ≠ 0#52 := by
    intro h
    have := congrArg BitVec.toNat h
    rw [hmantissa] at this
    exact hpos.ne' this
  rw [hpack]
  simp only [UnpackedFloat.unpack, unpackMantissa_packComponents, unpackExponent_packComponents,
    unpackSign_packComponents, Sign.ofBitVec_toBitVec, hmantissa]
  rw [if_neg zero_ne_neg_one, if_pos trivial, dif_neg hne]
  rfl

/-- A number in canonical form is unpacked as it was packed. -/
theorem Canonical.unpack_pack (h : Canonical m e) :
    UnpackedFloat.unpack .binary64 (UnpackedFloat.pack .binary64 (.finite s m e h.pos)) =
      .finite s m e h.pos := by
  obtain hshort | hfull := Nat.lt_or_ge m (2 ^ 52)
  · obtain rfl : e = -1074 := h.full.resolve_right (by omega)
    exact unpack_pack_short hshort h.pos
  · have hlog : m.log2 = 52 := (Nat.log2_eq_iff h.pos.ne').2 ⟨hfull, h.lt⟩
    exact unpack_pack_full hlog h.least h.greatest h.pos

/-- The leading digit of a significand, which is not written down. -/
theorem toNat_one_append (mantissa : BitVec 52) :
    (1#1 ++ mantissa).toNat = 2 ^ 52 + mantissa.toNat := by
  rw [BitVec.toNat_append, ← Nat.shiftLeft_add_eq_or_of_lt mantissa.isLt]
  rfl

/-- What is unpacked is in canonical form. -/
theorem canonical_of_unpack {b : BitVec Format.binary64.numBits} {hpos : 0 < m}
    (h : UnpackedFloat.unpack .binary64 b = .finite s m e hpos) : Canonical m e := by
  simp only [UnpackedFloat.unpack] at h
  set mantissa : BitVec 52 := unpackMantissa b
  set exponent : BitVec 11 := unpackExponent b
  have hexponent := exponent.isLt
  have hmantissa := mantissa.isLt
  split at h
  · split at h <;> cases h
  · next hnot =>
    split at h
    · next hzero =>
      split at h
      · cases h
      · cases h
        refine ⟨hpos, by omega, .inl ?_, ?_, ?_⟩ <;> rw [hzero] <;> decide
    · next hne =>
      cases h
      have hlast : exponent.toNat ≠ 2047 := fun h => hnot (BitVec.eq_of_toNat_eq h)
      have hfirst : exponent.toNat ≠ 0 := fun h => hne (BitVec.eq_of_toNat_eq h)
      have hbias : (Format.binary64.exponentBias : ℤ) = 1023 := rfl
      have happend := toNat_one_append mantissa
      refine ⟨hpos, ?_, .inr ?_, ?_, ?_⟩
      · rw [happend]
        omega
      · rw [happend]
        omega
      · rw [hbias]
        push_cast
        omega
      · rw [hbias]
        push_cast
        omega

/-- An exponent beyond the greatest makes an infinity. -/
theorem pack_of_large (he : 971 < e) (hpos : 0 < m) :
    Float.Model.pack (.finite s m e hpos) = Float.Model.pack (.infinity s) := by
  have hbiased : 2 ^ 11 ≤ (e + Format.binary64.exponentBias + (52 : ℕ)).toNat + 1 := by
    change 2 ^ 11 ≤ (e + (1023 : ℕ) + (52 : ℕ)).toNat + 1
    omega
  have hpack : UnpackedFloat.pack .binary64 (.finite s m e hpos) =
      UnpackedFloat.pack .binary64 (.infinity s) := by
    simp only [UnpackedFloat.pack]
    exact if_pos hbiased
  simp only [Float.Model.pack, hpack]

/-- A number is what it is unpacked to. -/
theorem ofModel_pack_unpack (x : Float) : Float.ofModel (.pack x.toModel.unpack) = x := by
  have hbits : UnpackedFloat.pack .binary64 x.toModel.unpack = x.toModel.toBits.toBitVec :=
    pack_unpack_of_valid x.toModel.valid
  obtain ⟨⟨bits, valid⟩⟩ := x
  simp only [Float.Model.pack, hbits]

theorem Canonical.neg_pack (h : Canonical m e) (s : Sign) :
    -Float.ofModel (.pack (.finite s m e h.pos)) =
      Float.ofModel (.pack (.finite (-s) m e h.pos)) :=
  congrArg (fun f => Float.ofModel (.pack (UnpackedFloat.neg f))) h.unpack_pack

/-! ### Finite results -/

theorem Canonical.isFinite (h : Canonical m e) :
    (Float.ofModel (.pack (.finite s m e h.pos))).isFinite = true :=
  congrArg UnpackedFloat.isFinite h.unpack_pack

end Vibe
