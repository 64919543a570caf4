import Vibe.Decimal.Shortest
import Vibe.Proofs.Decimal.Packing

/-! The shortest decimal of a number lies among the rationals that are rounded to that number. -/

namespace Vibe

open Float.Model UnpackedFloat

/-! ### The rationals that are rounded to a number -/

/-- Half of the way from a number to the neighbour below, in units of the last place. -/
def reach (b : Binary) : ℚ :=
  if Shortest.narrowBelow b then 1 / 4 else 1 / 2

theorem reach_bounds (b : Binary) : 0 < reach b ∧ reach b ≤ 1 / 2 := by
  rw [reach]
  split <;> norm_num

/-- A rational is rounded to a number, both in units of the last place: it lies no farther than
half way to either neighbour, and half way only if the significand is even. -/
structure Around (b : Binary) (x : ℚ) : Prop where
  low : b.significand - reach b ≤ x
  high : x ≤ b.significand + 1 / 2
  odd : b.significand % 2 ≠ 0 → b.significand - reach b ≠ x ∧ x ≠ b.significand + 1 / 2

namespace Around

variable {b : Binary} {x q : ℚ}

theorem self (b : Binary) : Around b b.significand := by
  have hreach := reach_bounds b
  constructor
  · linarith
  · linarith
  · intro _
    constructor <;> intro heq <;> linarith

theorem low_half (h : Around b x) : b.significand - 1 / 2 ≤ x := by
  linarith [h.low, (reach_bounds b).2]

theorem pos (h : Around b x) (hb : 0 < b.significand) : 0 < x := by
  have hone : (1 : ℚ) ≤ b.significand := by exact_mod_cast hb
  linarith [h.low_half]

theorem nearest (h : Around b x) : Nearest x b.significand := by
  have hlow := h.low_half
  refine ⟨abs_le.2 ⟨by linarith, by linarith [h.high]⟩, fun hmid => ?_⟩
  by_contra hodd
  obtain ⟨hne, hne'⟩ := h.odd hodd
  obtain heq | heq := eq_or_eq_neg_of_abs_eq hmid
  · exact hne' (by linarith)
  · exact hne (le_antisymm h.low (by linarith [(reach_bounds b).2]))

/-- What lies below a power of two is nearest to twice that power, in units half as large. -/
theorem nearest_double (h : Around b x) (hnarrow : Shortest.narrowBelow b = true)
    (hb : b.significand = 2 ^ 52) (hx : x < b.significand) : Nearest (2 * x) (2 ^ 53) := by
  have hlow := h.low
  rw [reach, if_pos hnarrow, hb] at hlow
  rw [hb] at hx
  push_cast at hlow hx
  refine ⟨abs_le.2 ⟨?_, ?_⟩, fun _ => by norm_num⟩ <;> push_cast <;> linarith

section

variable {m : ℕ} {e : ℤ} {negative : Bool} (h : Around ⟨negative, m, e⟩ (q / 2 ^ e))
  (hc : Canonical m e)

include h

/-- What is around a number lies below the power of two that it stays below. -/
theorem lt_two_zpow (hm : m < 2 ^ 53) : q < 2 ^ (e + 53) := by
  have hunit : (0 : ℚ) < 2 ^ e := zpow_pos two_pos e
  have hm : (m : ℚ) + 1 ≤ 2 ^ 53 := by exact_mod_cast hm
  have hx : q / 2 ^ e < 2 ^ 53 := h.high.trans_lt (by dsimp only; linarith)
  rwa [div_lt_iff₀ hunit, mul_comm, ← zpow_natCast, ← zpow_add₀ two_ne_zero] at hx

theorem rounds_of_le (hplace : e = -1074 ∨ (2 : ℚ) ^ (e + 52) ≤ q) (s : Sign) :
    Rounds s q (.finite s m e hc.pos) := by
  refine ⟨e, m, ⟨hc.least, hplace, h.lt_two_zpow hc.lt⟩, h.nearest, ?_⟩
  rw [carried, dif_neg hc.pos.ne', if_neg hc.lt.ne]

/-- A rational below the power of two with which the number begins is rounded up to that power. -/
theorem rounds_of_lt (he : e ≠ -1074) (hbelow : q < 2 ^ (e + 52)) (s : Sign) :
    Rounds s q (.finite s m e hc.pos) := by
  have hunit : (0 : ℚ) < 2 ^ e := zpow_pos two_pos e
  have hlow : (m : ℚ) - 1 / 2 ≤ q / 2 ^ e := h.low_half
  have hx : q / 2 ^ e < 2 ^ 52 := by
    rwa [div_lt_iff₀ hunit, mul_comm, ← zpow_natCast, ← zpow_add₀ two_ne_zero]
  obtain rfl : m = 2 ^ 52 := by
    refine le_antisymm (Nat.le_of_lt_succ ?_) (hc.full.resolve_left he)
    have : (m : ℚ) < (2 ^ 52 + 1 : ℕ) := by push_cast; linarith
    exact_mod_cast this
  have hnarrow : Shortest.narrowBelow ⟨negative, 2 ^ 52, e⟩ = true := by
    simp [Shortest.narrowBelow, he]
  have hdouble : q / 2 ^ (e - 1) = 2 * (q / 2 ^ e) := by
    rw [zpow_sub₀ two_ne_zero]
    field_simp
  have hhalf : (2 : ℚ) ^ (e - 1 + 52) ≤ q := by
    rw [le_div_iff₀ hunit] at hlow
    refine le_trans ?_ hlow
    rw [show e - 1 + 52 = 51 + e by ring, zpow_add₀ two_ne_zero]
    refine mul_le_mul_of_nonneg_right ?_ hunit.le
    norm_num
  refine ⟨e - 1, 2 ^ 53, ⟨by have := hc.least; omega, .inr hhalf, ?_⟩, ?_, ?_⟩
  · rwa [show e - 1 + 53 = e + 52 by ring]
  · rw [hdouble]
    exact h.nearest_double hnarrow rfl (by exact_mod_cast hx)
  · rw [carried, dif_neg (by norm_num), if_pos rfl]
    simp

/-- A rational around a number is rounded to it. -/
theorem rounds (s : Sign) : Rounds s q (.finite s m e hc.pos) := by
  by_cases hplace : e = -1074 ∨ (2 : ℚ) ^ (e + 52) ≤ q
  · exact h.rounds_of_le hc hplace s
  · simp only [not_or, not_le] at hplace
    exact h.rounds_of_lt hc hplace.1 hplace.2 s

end

end Around

/-! ### The digits that are found -/

namespace Shortest

variable {b : Binary} {d : Shortest} {a n : ℕ} {i j : ℤ}

/-- The rational that a decimal stands for. -/
def value (d : Shortest) : ℚ := d.digits * 10 ^ d.exponent

theorem zpow_mul_toNat {x : ℚ} (hx : x ≠ 0) (i : ℤ) : x ^ i * x ^ (-i).toNat = x ^ i.toNat := by
  rw [← zpow_natCast, ← zpow_natCast, ← zpow_add₀ hx]
  congr 1
  omega

/-- The comparison is that of the rationals. -/
theorem compareScaled_iff (a : ℕ) (i : ℤ) (n : ℕ) (j : ℤ) :
    (compareScaled a i n j = .lt ↔ (a * 10 ^ i : ℚ) < n * 2 ^ j) ∧
      (compareScaled a i n j = .gt ↔ (n * 2 ^ j : ℚ) < a * 10 ^ i) := by
  have hscale : (0 : ℚ) < 10 ^ (-i).toNat * 2 ^ (-j).toNat := by positivity
  have hleft : (a * 10 ^ i * (10 ^ (-i).toNat * 2 ^ (-j).toNat) : ℚ) =
      (a * Nat.pow 10 i.toNat * Nat.pow 2 (-j).toNat : ℕ) := by
    rw [← mul_assoc, mul_assoc (a : ℚ), zpow_mul_toNat (by norm_num)]
    simp only [Nat.pow_eq]
    push_cast
    rfl
  have hright : (n * 2 ^ j * (10 ^ (-i).toNat * 2 ^ (-j).toNat) : ℚ) =
      (n * Nat.pow 2 j.toNat * Nat.pow 10 (-i).toNat : ℕ) := by
    rw [mul_comm (10 ^ _ : ℚ), ← mul_assoc, mul_assoc (n : ℚ), zpow_mul_toNat (by norm_num)]
    simp only [Nat.pow_eq]
    push_cast
    rfl
  refine ⟨Nat.compare_eq_lt.trans ?_, Nat.compare_eq_gt.trans ?_⟩
  · rw [← mul_lt_mul_iff_left₀ hscale, hleft, hright, Nat.cast_lt]
  · rw [← mul_lt_mul_iff_left₀ hscale, hleft, hright, Nat.cast_lt]

theorem zpow_sub_two_cast (e : ℤ) : (2 : ℚ) ^ (e - 2) = 2 ^ e / 4 := by
  rw [zpow_sub₀ two_ne_zero]
  norm_num

/-- The lower end of what reads back, in quarters of the last place. -/
theorem low_quarters (hb : 0 < b.significand) :
    ((if narrowBelow b then 4 * b.significand - 1 else 4 * b.significand - 2 : ℕ) *
      2 ^ (b.exponent - 2) : ℚ) = (b.significand - reach b) * 2 ^ b.exponent := by
  rw [zpow_sub_two_cast, reach]
  split
  · rw [Nat.cast_sub (by omega)]
    push_cast
    ring
  · rw [Nat.cast_sub (by omega)]
    push_cast
    ring

/-- The upper end. -/
theorem high_quarters (b : Binary) : ((4 * b.significand + 2 : ℕ) * 2 ^ (b.exponent - 2) : ℚ) =
    (b.significand + 1 / 2) * 2 ^ b.exponent := by
  rw [zpow_sub_two_cast]
  push_cast
  ring

/-- What reads back is rounded to the number. -/
theorem around_of_readsBack (hb : 0 < b.significand) (h : readsBack b d = true) :
    Around b (d.value / 2 ^ b.exponent) := by
  have hunit : (0 : ℚ) < 2 ^ b.exponent := zpow_pos two_pos _
  obtain ⟨hlow_lt, hlow_gt⟩ := compareScaled_iff d.digits d.exponent
    (if narrowBelow b then 4 * b.significand - 1 else 4 * b.significand - 2) (b.exponent - 2)
  obtain ⟨hhigh_lt, hhigh_gt⟩ := compareScaled_iff d.digits d.exponent (4 * b.significand + 2)
    (b.exponent - 2)
  rw [low_quarters hb] at hlow_lt hlow_gt
  rw [high_quarters] at hhigh_lt hhigh_gt
  change _ ↔ d.value < _ at hlow_lt hhigh_lt
  change _ ↔ _ < d.value at hlow_gt hhigh_gt
  simp only [readsBack] at h
  split at h
  · next heven =>
    simp only [Bool.and_eq_true, bne_iff_ne, ne_eq, hlow_lt, hhigh_gt, not_lt] at h
    exact ⟨(le_div_iff₀ hunit).2 h.1, (div_le_iff₀ hunit).2 h.2, fun hodd => absurd heven hodd⟩
  · simp only [Bool.and_eq_true, beq_iff_eq, hlow_gt, hhigh_lt] at h
    have hlt := (lt_div_iff₀ hunit).2 h.1
    have hgt := (div_lt_iff₀ hunit).2 h.2
    exact ⟨hlt.le, hgt.le, fun _ => ⟨hlt.ne, hgt.ne⟩⟩

theorem readsBack_of_onGrid {e : ℤ} (h : onGrid b e = some d) : readsBack b d = true := by
  simp only [onGrid] at h
  split at h
  · next hbelow habove =>
    obtain rfl := Option.some.inj h
    split
    · exact hbelow
    · exact habove
  · next hbelow _ =>
    obtain rfl := Option.some.inj h
    exact hbelow
  · next _ habove =>
    obtain rfl := Option.some.inj h
    exact habove
  · cases h

/-- Zeros that are moved into the exponent change nothing. -/
theorem value_strip (fuel : ℕ) (d : Shortest) : (strip fuel d).value = d.value := by
  induction fuel generalizing d with
  | zero => rfl
  | succ fuel ih =>
    rw [strip]
    split
    · next hzero =>
      have hdigits : d.digits = 10 * (d.digits / 10) := by omega
      rw [ih, value, value, zpow_add₀ (by norm_num)]
      conv_rhs => rw [hdigits]
      push_cast
      ring
    · rfl

theorem value_exact (b : Binary) : (exact b).value = b.significand * 2 ^ b.exponent := by
  have htwo := zpow_mul_toNat (x := 2) two_ne_zero b.exponent
  have hmin : min b.exponent 0 = -((-b.exponent).toNat : ℤ) := by omega
  simp only [exact, value, hmin, Nat.pow_eq]
  rw [zpow_neg, zpow_natCast, show (10 : ℚ) = 5 * 2 by norm_num, mul_pow]
  push_cast
  rw [← htwo]
  field_simp

/-- The decimal with which a number is written is rounded to that number. -/
theorem around_ofBinary (hb : 0 < b.significand) :
    Around b ((ofBinary b).value / 2 ^ b.exponent) := by
  rw [ofBinary, value_strip]
  cases hfound : (List.range 17).findSome? fun i : ℕ => onGrid b (scale b - (i + 1)) with
  | none =>
    rw [Option.getD_none, value_exact, mul_div_cancel_right₀ _ (zpow_pos two_pos _).ne']
    exact Around.self b
  | some d =>
    obtain ⟨i, -, hgrid⟩ := List.exists_of_findSome?_eq_some hfound
    exact around_of_readsBack hb (readsBack_of_onGrid hgrid)

end Shortest
end Vibe
