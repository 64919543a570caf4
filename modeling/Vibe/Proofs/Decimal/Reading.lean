import Vibe.Decimal.Numeral
import Vibe.Proofs.Decimal.Packing

/-! Numerals are read as the numbers nearest to them. -/

namespace Vibe

open Float.Model UnpackedFloat

section Operations

variable {s₁ s₂ : Sign} {m₁ m₂ : ℕ} {e₁ e₂ : ℤ} {h₁ : 0 < m₁} {h₂ : 0 < m₂}

theorem value_pos (hm : 0 < m₁) (e : ℤ) : (0 : ℚ) < m₁ * 2 ^ e :=
  mul_pos (Nat.cast_pos.2 hm) (zpow_pos two_pos e)

/-- A product with enough binary digits is rounded once. -/
theorem rounds_mul (hfull : 2 ^ 52 ≤ m₁ * m₂) :
    Rounds (s₁ * s₂) (m₁ * 2 ^ e₁ * (m₂ * 2 ^ e₂))
      (UnpackedFloat.mul .binary64 (.finite s₁ m₁ e₁ h₁) (.finite s₂ m₂ e₂ h₂)) := by
  have hq : (m₁ * 2 ^ e₁ * (m₂ * 2 ^ e₂) : ℚ) = (m₁ * m₂ : ℕ) * 2 ^ (e₁ + e₂) := by
    rw [zpow_add₀ two_ne_zero]
    push_cast
    ring
  obtain ⟨t, hplace⟩ := exists_lastPlace (mul_pos (value_pos h₁ e₁) (value_pos h₂ e₂))
  have hlow : (2 : ℚ) ^ (52 + (e₁ + e₂)) ≤ m₁ * 2 ^ e₁ * (m₂ * 2 ^ e₂) := by
    rw [hq, zpow_add₀ two_ne_zero]
    refine mul_le_mul_of_nonneg_right ?_ (zpow_pos two_pos _).le
    exact_mod_cast hfull
  have hlast := (zpow_lt_zpow_iff_right₀ one_lt_two).1 (hlow.trans_lt hplace.high)
  refine rounds_roundWithAccuracy _ hplace (by omega) ?_
  rw [hq, mul_div_cancel_right₀ _ (zpow_pos two_pos _).ne']
  rfl

/-- The remainder of a division tells where the quotient lies. -/
theorem tells_accuracyOfFraction (m : ℕ) {d : ℕ} (hd : 0 < d) :
    Tells (m / d) (accuracyOfFraction (m % d) d) (m / d : ℚ) := by
  have hd' : (0 : ℚ) < d := Nat.cast_pos.2 hd
  have hsplit : (m / d : ℚ) = (m / d : ℕ) + (m % d : ℕ) / d := by
    rw [eq_comm, add_div' _ _ _ hd'.ne']
    congr 1
    exact_mod_cast Nat.div_add_mod' m d
  have hlt : ((m % d : ℕ) : ℚ) / d < 1 := (div_lt_one hd').2 (by exact_mod_cast Nat.mod_lt m hd)
  rw [hsplit, accuracyOfFraction]
  split
  · next hzero => simp [hzero, Tells]
  · next hne =>
    have hpos : (0 : ℚ) < (m % d : ℕ) / d := by
      exact div_pos (Nat.cast_pos.2 (Nat.pos_of_ne_zero hne)) hd'
    have hcompare : ∀ r : ℕ, ((r : ℚ) / d < 1 / 2 ↔ 2 * r < d) ∧
        ((r : ℚ) / d = 1 / 2 ↔ 2 * r = d) := by
      intro r
      rw [div_lt_div_iff₀ hd' two_pos, div_eq_div_iff hd'.ne' two_ne_zero]
      constructor <;> norm_cast <;> omega
    obtain ⟨hless, hequal⟩ := hcompare (m % d)
    rcases hord : compare (2 * (m % d)) d with _ | _ | _
    · have := hless.2 (Nat.compare_eq_lt.1 hord)
      constructor <;> linarith
    · have := hequal.2 (Nat.compare_eq_eq.1 hord)
      simp only [Tells]
      linarith
    · have hgt := Nat.compare_eq_gt.1 hord
      have hnot := (not_congr hless).2 (by omega)
      have hne' := (not_congr hequal).2 (by omega)
      have := lt_of_le_of_ne (not_lt.1 hnot) (Ne.symm hne')
      constructor <;> linarith

/-- A quotient has at most one binary digit less than the lengths of its parts tell. -/
theorem two_zpow_le_div (h₁ : 0 < m₁) (h₂ : 0 < m₂) :
    (2 : ℚ) ^ (m₁.log2 + e₁ - (m₂.log2 + 1 + e₂)) ≤ m₁ * 2 ^ e₁ / (m₂ * 2 ^ e₂) := by
  have hfirst : (2 : ℚ) ^ m₁.log2 ≤ m₁ := by exact_mod_cast Nat.log2_self_le h₁.ne'
  have hsecond : (m₂ : ℚ) ≤ 2 ^ (m₂.log2 + 1) := by exact_mod_cast Nat.lt_log2_self.le
  rw [zpow_sub₀ two_ne_zero, zpow_add₀ two_ne_zero, zpow_add₀ two_ne_zero]
  refine div_le_div₀ (value_pos h₁ e₁).le ?_ (value_pos h₂ e₂) ?_
  · exact mul_le_mul_of_nonneg_right (by exact_mod_cast hfirst) (zpow_pos two_pos _).le
  · exact mul_le_mul_of_nonneg_right (by exact_mod_cast hsecond) (zpow_pos two_pos _).le

/-- A quotient in units that are small enough is one of natural numbers. -/
theorem div_in_units {e : ℤ} (he : e ≤ e₁ - e₂) :
    (m₁ * 2 ^ e₁ / (m₂ * 2 ^ e₂) / 2 ^ e : ℚ) = (m₁ * 2 ^ (e₁ - e₂ - e).toNat : ℕ) / m₂ := by
  have hexp : ((e₁ - e₂ - e).toNat : ℤ) = e₁ - e₂ - e := by omega
  have hcast : ((2 ^ (e₁ - e₂ - e).toNat : ℕ) : ℚ) = 2 ^ e₁ / 2 ^ e₂ / 2 ^ e := by
    rw [← zpow_sub₀ two_ne_zero, ← zpow_sub₀ two_ne_zero, ← hexp, zpow_natCast]
    norm_cast
  rw [Nat.cast_mul, hcast]
  field_simp

/-- A quotient is rounded once. -/
theorem rounds_div :
    Rounds (s₁ / s₂) (m₁ * 2 ^ e₁ / (m₂ * 2 ^ e₂))
      (UnpackedFloat.div .binary64 (.finite s₁ m₁ e₁ h₁) (.finite s₂ m₂ e₂ h₂)) := by
  obtain ⟨t, hplace⟩ := exists_lastPlace (div_pos (value_pos h₁ e₁) (value_pos h₂ e₂))
  have hlow := (two_zpow_le_div h₁ h₂).trans_lt hplace.high
  have hlast := (zpow_lt_zpow_iff_right₀ one_lt_two).1 hlow
  have hleast := hplace.least
  simp only [UnpackedFloat.div, divCore, Nat.shiftLeft_eq]
  set e := min (e₁ - e₂)
    (Format.binary64.targetExponent (totalExponent m₁ e₁ - totalExponent m₂ e₂)) with he
  have hle : e ≤ t := by
    simp only [he, totalExponent, Format.targetExponent, Format.mantissaBits, Format.minExponent]
    norm_num
    omega
  refine rounds_roundWithAccuracy _ hplace hle ?_
  rw [div_in_units (min_le_left _ _)]
  exact tells_accuracyOfFraction _ h₂

end Operations

/-! ### Powers of ten -/

/-- The powers of ten in the table are exact. -/
theorem exactlyRepresentablePowersOfTen_eq :
    ∀ e : Fin Float.exactlyRepresentablePowersOfTen.size,
      (5 ^ e.val).log2 ≤ 52 ∧ Float.exactlyRepresentablePowersOfTen[e] =
        .ofModel (.pack (.finite .positive (5 ^ e.val * 2 ^ (52 - (5 ^ e.val).log2))
          (e - (52 - (5 ^ e.val).log2 : ℕ)) (by positivity))) := by
  decide +kernel

/-- A number is a positive natural number with a significand of 53 binary digits. -/
def Exact (x : Float) (n : ℕ) : Prop :=
  ∃ m k h, x.toModel.unpack = .finite .positive m k h ∧ 2 ^ 52 ≤ m ∧ (m * 2 ^ k : ℚ) = n

theorem exact_powerOfTen (e : Fin Float.exactlyRepresentablePowersOfTen.size) :
    Exact Float.exactlyRepresentablePowersOfTen[e] (10 ^ e.val) := by
  obtain ⟨hlog, htable⟩ := exactlyRepresentablePowersOfTen_eq e
  have hfull : (5 ^ e.val * 2 ^ (52 - (5 ^ e.val).log2)).log2 = 52 := by
    rw [log2_mul_two_pow (by positivity)]
    omega
  have hsize : e.val < 23 := e.isLt
  have hpos : 0 < 5 ^ e.val * 2 ^ (52 - (5 ^ e.val).log2) := by positivity
  refine ⟨_, e - (52 - (5 ^ e.val).log2 : ℕ), hpos, ?_, (Nat.le_log2 hpos.ne').1 hfull.ge, ?_⟩
  · rw [htable]
    exact unpack_pack_full hfull (by omega) (by omega) hpos
  · rw [zpow_sub₀ two_ne_zero, zpow_natCast, zpow_natCast]
    push_cast
    rw [show (10 : ℚ) = 5 * 2 by norm_num, mul_pow]
    field_simp

theorem exact_toUInt64 {m : ℕ} (hm : m ≠ 0) (hlt : m < 2 ^ 53) : Exact m.toUInt64.toFloat m := by
  have hlog : m.log2 ≤ 52 := Nat.le_of_lt_succ ((Nat.log2_lt hm).2 hlt)
  have hfull : (m * 2 ^ (52 - m.log2)).log2 = 52 := by
    rw [log2_mul_two_pow hm]
    omega
  obtain ⟨hpos, hround⟩ := round_short (s := .positive) hm hlog (e := 0) (by omega)
  have hnat : m.toUInt64.toNat = m := Nat.mod_eq_of_lt (hlt.trans (by norm_num))
  have hgt : compare (m : ℤ) 0 = .gt := Int.compare_eq_gt.2 (by omega)
  have hmodel : m.toUInt64.toFloat = .ofModel (.pack (.round .binary64 .positive m 0)) := by
    simp only [UInt64.toFloat, Float.Model.ofUInt64, UnpackedFloat.ofUInt64, UnpackedFloat.ofNat,
      UnpackedFloat.ofInt, UnpackedFloat.normalize, hnat, hgt, Int.toNat_natCast]
  refine ⟨_, 0 - (52 - m.log2 : ℕ), hpos, ?_, (Nat.le_log2 hpos.ne').1 hfull.ge, ?_⟩
  · rw [hmodel, hround]
    exact unpack_pack_full hfull (by omega) (by omega) hpos
  · rw [zpow_sub₀ two_ne_zero, zpow_natCast]
    push_cast
    field_simp

variable {m : ℕ} {e : ℤ}

theorem rounds_mul_exact {x y : Float} {n : ℕ} (hx : Exact x m) (hy : Exact y n) :
    ∃ f, Rounds .positive (m * n) f ∧ x * y = .ofModel (.pack f) := by
  obtain ⟨m₁, k₁, h₁, hunpack₁, hfull₁, hvalue₁⟩ := hx
  obtain ⟨m₂, k₂, h₂, hunpack₂, hfull₂, hvalue₂⟩ := hy
  refine ⟨UnpackedFloat.mul .binary64 x.toModel.unpack y.toModel.unpack, ?_, rfl⟩
  rw [hunpack₁, hunpack₂, ← hvalue₁, ← hvalue₂]
  exact rounds_mul (hfull₁.trans (Nat.le_mul_of_pos_right m₁ h₂))

theorem rounds_div_exact {x y : Float} {n : ℕ} (hx : Exact x m) (hy : Exact y n) :
    ∃ f, Rounds .positive (m / n) f ∧ x / y = .ofModel (.pack f) := by
  obtain ⟨m₁, k₁, h₁, hunpack₁, -, hvalue₁⟩ := hx
  obtain ⟨m₂, k₂, h₂, hunpack₂, -, hvalue₂⟩ := hy
  refine ⟨UnpackedFloat.div .binary64 x.toModel.unpack y.toModel.unpack, ?_, rfl⟩
  rw [hunpack₁, hunpack₂, ← hvalue₁, ← hvalue₂]
  exact rounds_div

/-- Within the range that is computed at all, a decimal is rounded once. -/
theorem rounds_model_ofScientific (hm : m ≠ 0) (hhigh : e ≤ 2048) (hlow : -(2048 + m.log2) ≤ e) :
    Rounds .positive (m * 10 ^ e) (UnpackedFloat.ofScientific .binary64 m e) := by
  rw [UnpackedFloat.ofScientific, dif_neg hm, if_neg (by norm_num; omega),
    if_neg (by norm_num; omega)]
  split
  · next hnonneg =>
    have hq : (m * 10 ^ e : ℚ) =
        (m <<< 53 : ℕ) * 2 ^ (-53 : ℤ) * ((10 ^ e.toNat : ℕ) * 2 ^ (0 : ℤ)) := by
      conv_lhs => rw [← Int.toNat_of_nonneg hnonneg, zpow_natCast]
      rw [Nat.shiftLeft_eq]
      push_cast
      norm_num
      ring
    rw [hq]
    refine rounds_mul ?_
    rw [Nat.shiftLeft_eq]
    calc 2 ^ 52 ≤ 1 * 2 ^ 53 * 1 := by norm_num
      _ ≤ m * 2 ^ 53 * 10 ^ e.toNat :=
        Nat.mul_le_mul (Nat.mul_le_mul_right _ (Nat.one_le_iff_ne_zero.2 hm))
          (Nat.one_le_pow _ _ (by norm_num))
  · next hneg =>
    have hq : (m * 10 ^ e : ℚ) = m * 2 ^ (0 : ℤ) / ((10 ^ (-e).toNat : ℕ) * 2 ^ (0 : ℤ)) := by
      conv_lhs => rw [show e = -((-e).toNat : ℤ) by omega, zpow_neg, zpow_natCast]
      push_cast
      norm_num
      rfl
    rw [hq]
    exact rounds_div

/-- A decimal of moderate size is rounded once, whichever way it is computed. -/
theorem rounds_ofScientific (hm : m ≠ 0) (hhigh : e ≤ 2048) (hlow : -(2048 + m.log2) ≤ e) :
    ∃ f, Rounds .positive (m * 10 ^ e) f ∧
      Float.ofScientific m (e < 0) e.natAbs = .ofModel (.pack f) := by
  rw [Float.ofScientific]
  split
  · next hfast =>
    let i : Fin Float.exactlyRepresentablePowersOfTen.size :=
      ⟨e.natAbs, Nat.lt_succ_of_le hfast.2⟩
    have hm' := exact_toUInt64 hm hfast.1
    have he' := exact_powerOfTen i
    by_cases hneg : e < 0
    · obtain ⟨f, hf, hdiv⟩ := rounds_div_exact hm' he'
      refine ⟨f, ?_, ?_⟩
      · convert hf using 1
        rw [show e = -(e.natAbs : ℤ) by omega, zpow_neg, zpow_natCast, div_eq_mul_inv]
        push_cast
        rfl
      · simpa [hneg] using hdiv
    · obtain ⟨f, hf, hmul⟩ := rounds_mul_exact hm' he'
      refine ⟨f, ?_, ?_⟩
      · convert hf using 1
        rw [show e = (e.natAbs : ℤ) by omega, zpow_natCast]
        push_cast
        rfl
      · simpa [hneg] using hmul
  · refine ⟨_, rounds_model_ofScientific hm hhigh hlow, ?_⟩
    have he' : (if e < 0 then Int.negOfNat e.natAbs else Int.ofNat e.natAbs) = e := by
      split
      · rw [Int.negOfNat_eq, Int.ofNat_eq_natCast]
        omega
      · rw [Int.ofNat_eq_natCast]
        omega
    simp only [decide_eq_true_eq, he']
    rfl

/-! ### Numerals -/

section Extremes

variable {s : Sign} {q : ℚ}

theorem two_zpow_le_ten_pow (k : ℕ) : (2 : ℚ) ^ (3 * k : ℤ) ≤ 10 ^ k := by
  rw [zpow_mul, zpow_natCast]
  exact pow_le_pow_left₀ (by norm_num) (by norm_num) k

/-- What is much less than the least positive number is rounded to zero. -/
theorem rounds_tiny (hpos : 0 < q) (hq : q < 10 ^ (-400 : ℤ)) : Rounds s q (.zero s) := by
  have hsmall : q < 2 ^ (-1200 : ℤ) := by
    refine hq.trans_le ?_
    rw [zpow_neg, zpow_neg, zpow_ofNat]
    exact inv_anti₀ (zpow_pos two_pos _) (two_zpow_le_ten_pow 400)
  have hhalf : q / 2 ^ (-1074 : ℤ) < 1 / 2 := by
    rw [div_lt_iff₀ (zpow_pos two_pos _)]
    have hle : (2 : ℚ) ^ (-1200 : ℤ) ≤ 2 ^ (-1075 : ℤ) :=
      zpow_le_zpow_right₀ one_le_two (by norm_num)
    refine hsmall.trans_le (hle.trans ?_)
    rw [show (-1075 : ℤ) = -1 + -1074 by norm_num, zpow_add₀ two_ne_zero]
    norm_num
  have habs : |q / 2 ^ (-1074 : ℤ) - (0 : ℕ)| = q / 2 ^ (-1074 : ℤ) := by
    rw [Nat.cast_zero, sub_zero]
    exact abs_of_pos (div_pos hpos (zpow_pos two_pos _))
  refine ⟨-1074, 0, ⟨le_refl _, .inl rfl, hsmall.trans ?_⟩, ⟨?_, fun _ => rfl⟩, rfl⟩
  · exact zpow_lt_zpow_right₀ one_lt_two (by norm_num)
  · rw [habs]
    exact hhalf.le

/-- What is much greater than the greatest number is rounded to an infinity. -/
theorem rounds_huge (hq : 10 ^ (400 : ℤ) ≤ q) :
    ∃ f, Rounds s q f ∧ Float.Model.pack f = Float.Model.pack (.infinity s) := by
  have hlarge : (2 : ℚ) ^ (1200 : ℤ) ≤ q := by
    rw [zpow_ofNat] at hq
    exact (two_zpow_le_ten_pow 400).trans hq
  have hpos : 0 < q := (zpow_pos two_pos _).trans_le hlarge
  obtain ⟨t, hplace⟩ := exists_lastPlace hpos
  obtain ⟨M, hnearest⟩ := exists_nearest (div_pos hpos (zpow_pos two_pos t)).le
  have ht := (zpow_lt_zpow_iff_right₀ one_lt_two).1 (hlarge.trans_lt hplace.high)
  have hfull := hnearest.le_of_le (hplace.le_div (by omega))
  refine ⟨_, ⟨t, M, hplace, hnearest, rfl⟩, ?_⟩
  rw [carried, dif_neg (by omega)]
  split
  · exact pack_of_large (by omega) _
  · exact pack_of_large (by omega) _

end Extremes

namespace Numeral

variable {n : Numeral}

/-- The size of the decimal that a numeral spells. -/
def magnitude (n : Numeral) : ℚ := n.digits * 10 ^ n.exponent

theorem magnitude_pos (hn : n.digits ≠ 0) : 0 < n.magnitude :=
  mul_pos (Nat.cast_pos.2 (Nat.pos_of_ne_zero hn)) (zpow_pos (by norm_num) _)

theorem ten_pow_le_two_pow (k : ℕ) : 10 ^ (k * 301 / 1000) ≤ 2 ^ k := by
  rw [← Nat.pow_le_pow_iff_left (by norm_num : 196 ≠ 0), ← pow_mul, ← pow_mul]
  calc 10 ^ (k * 301 / 1000 * 196) ≤ 10 ^ (59 * k) :=
        Nat.pow_le_pow_right (by norm_num) (by omega)
    _ = (10 ^ 59) ^ k := pow_mul _ _ _
    _ ≤ (2 ^ 196) ^ k := Nat.pow_le_pow_left (by norm_num) k
    _ = 2 ^ (k * 196) := by rw [← pow_mul, mul_comm]

theorem two_pow_le_ten_pow_succ (k : ℕ) : 2 ^ k ≤ 10 ^ (k * 302 / 1000 + 1) := by
  rw [← Nat.pow_le_pow_iff_left (by norm_num : 93 ≠ 0), ← pow_mul, ← pow_mul]
  calc 2 ^ (k * 93) = (2 ^ 93) ^ k := by rw [← pow_mul, mul_comm]
    _ ≤ (10 ^ 28) ^ k := Nat.pow_le_pow_left (by norm_num) k
    _ = 10 ^ (28 * k) := (pow_mul _ _ _).symm
    _ ≤ 10 ^ ((k * 302 / 1000 + 1) * 93) := Nat.pow_le_pow_right (by norm_num) (by omega)

theorem ten_pow_reached_le (hn : n.digits ≠ 0) : (10 : ℚ) ^ n.reached ≤ n.magnitude := by
  have hle := (ten_pow_le_two_pow n.digits.log2).trans (Nat.log2_self_le hn)
  have hreached : n.reached = (n.digits.log2 * 301 / 1000 : ℕ) + n.exponent := by
    rw [reached]
    push_cast
    rfl
  rw [hreached, zpow_add₀ (by norm_num), zpow_natCast, magnitude]
  exact mul_le_mul_of_nonneg_right (by exact_mod_cast hle) (zpow_pos (by norm_num) _).le

theorem magnitude_lt_ten_pow_unreached (n : Numeral) : n.magnitude < (10 : ℚ) ^ n.unreached := by
  have hlt := Nat.lt_log2_self.trans_le (two_pow_le_ten_pow_succ (n.digits.log2 + 1))
  have hunreached : n.unreached =
      ((n.digits.log2 + 1) * 302 / 1000 + 1 : ℕ) + n.exponent := by
    rw [unreached]
    push_cast
    rfl
  rw [hunreached, zpow_add₀ (by norm_num), zpow_natCast, magnitude]
  exact mul_lt_mul_of_pos_right (by exact_mod_cast hlt) (zpow_pos (by norm_num) _)

theorem zero_eq : (0.0 : Float) = .ofModel (.pack (.zero .positive)) := by
  decide +kernel

theorem infinity_eq : (1.0 / 0.0 : Float) = .ofModel (.pack (.infinity .positive)) := by
  decide +kernel

/-- A numeral is read as the number nearest to it, however large or small it is. -/
theorem rounds_toFloat (hn : n.digits ≠ 0) :
    ∃ f, Rounds .positive n.magnitude f ∧ n.toFloat =
      if n.negative then -.ofModel (.pack f) else .ofModel (.pack f) := by
  obtain ⟨f, hf, hmagnitude⟩ : ∃ f, Rounds .positive n.magnitude f ∧
      (if n.digits = 0 ∨ n.unreached < -400 then 0.0
        else if n.reached > 400 then 1.0 / 0.0
        else Float.ofScientific n.digits (n.exponent < 0) n.exponent.natAbs) =
      .ofModel (.pack f) := by
    split_ifs with hlow hhigh
    · have hlow := hlow.resolve_left hn
      refine ⟨_, rounds_tiny (magnitude_pos hn) ?_, zero_eq⟩
      exact n.magnitude_lt_ten_pow_unreached.trans (zpow_lt_zpow_right₀ (by norm_num) hlow)
    · obtain ⟨f, hf, hpack⟩ := rounds_huge (s := .positive)
        ((zpow_le_zpow_right₀ (by norm_num) (Int.le_of_lt hhigh)).trans (ten_pow_reached_le hn))
      exact ⟨f, hf, infinity_eq.trans (congrArg Float.ofModel hpack.symm)⟩
    · unfold unreached at hlow
      unfold reached at hhigh
      exact rounds_ofScientific hn (by omega) (by omega)
  exact ⟨f, hf, by rw [toFloat, hmagnitude]⟩

end Numeral
end Vibe
