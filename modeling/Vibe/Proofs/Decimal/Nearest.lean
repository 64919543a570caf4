import Vibe.Proofs.Decimal.Whole

/-! Rounding to the nearest number. The significand is the natural number nearest to the rational in
units of its last place, and of two that are equally near the even one. -/

namespace Vibe

open Float.Model UnpackedFloat

/-- The natural number nearest to a rational; of two that are equally near it is the even one. -/
structure Nearest (x : ℚ) (m : ℕ) : Prop where
  near : |x - m| ≤ 1 / 2
  even : |x - m| = 1 / 2 → m % 2 = 0

namespace Nearest

variable {x : ℚ} {m n : ℕ}

theorem not_lt (h : Nearest x m) (h' : Nearest x n) : ¬ m < n := by
  intro hlt
  have hnext : (m : ℚ) + 1 ≤ n := by exact_mod_cast hlt
  have hm := abs_le.1 h.near
  have hn := abs_le.1 h'.near
  -- There is room for the rational only half way between two neighbours, and one of them is odd.
  have hhalf : x = m + 1 / 2 := by linarith
  have heq : (n : ℚ) = m + 1 := by linarith
  have hmid : |x - m| = 1 / 2 := by
    rw [hhalf, add_sub_cancel_left]
    norm_num
  have hmid' : |x - n| = 1 / 2 := by
    rw [hhalf, heq]
    norm_num
  have hsucc : n = m + 1 := by exact_mod_cast heq
  have heven := h.even hmid
  have heven' := h'.even hmid'
  omega

theorem unique (h : Nearest x m) (h' : Nearest x n) : m = n :=
  Nat.le_antisymm (Nat.le_of_not_lt (h'.not_lt h)) (Nat.le_of_not_lt (h.not_lt h'))

/-- What is at least a natural number is not rounded below it. -/
theorem le_of_le (h : Nearest x m) (hx : (n : ℚ) ≤ x) : n ≤ m := by
  have hm := abs_le.1 h.near
  have hlt : (n : ℚ) < m + 1 := by linarith
  exact Nat.le_of_lt_succ (by exact_mod_cast hlt)

/-- What is less than a natural number is not rounded above it. -/
theorem le_of_lt (h : Nearest x m) (hx : x < n) : m ≤ n := by
  have hm := abs_le.1 h.near
  have hlt : (m : ℚ) < n + 1 := by linarith
  exact Nat.le_of_lt_succ (by exact_mod_cast hlt)

end Nearest

/-! ### Residual bits -/

/-- What an accuracy tells about a rational of which the floor is `m`. -/
def Tells (m : ℕ) : Accuracy → ℚ → Prop
  | .exact, x => x = m
  | .inexact .lt, x => m < x ∧ x < m + 1 / 2
  | .inexact .eq, x => x = m + 1 / 2
  | .inexact .gt, x => m + 1 / 2 < x ∧ x < m + 1

section Residual

variable {m : ℕ} {acc : Accuracy} {em : ExtendedMantissa} {x : ℚ}

namespace Tells

theorem bounds (h : Tells m acc x) : m ≤ x ∧ x < m + 1 := by
  rcases acc with _ | _ | _ | _ <;> simp only [Tells] at h
  · simp [h]
  · constructor <;> linarith
  · constructor <;> linarith
  · constructor <;> linarith

/-- The accuracy is enough to find the nearest natural number. -/
theorem nearest (h : Tells m acc x) : Nearest x (acc.roundToNearestEven m) := by
  rcases acc with _ | _ | _ | _ <;> simp only [Tells] at h <;>
    simp only [Accuracy.roundToNearestEven]
  · subst h
    constructor <;> norm_num
  · have habs : |x - m| = x - m := abs_of_pos (by linarith)
    constructor <;> intros <;> linarith
  · subst h
    rcases Nat.mod_two_eq_zero_or_one m with hm | hm
    · constructor <;> norm_num [hm]
    · have hnext : (m + m % 2) % 2 = 0 := by omega
      refine ⟨?_, fun _ => hnext⟩
      rw [hm]
      push_cast
      norm_num
  · have habs : |x - (m + 1 : ℕ)| = m + 1 - x := by
      push_cast
      rw [abs_sub_comm]
      exact abs_of_pos (by linarith)
    constructor <;> intros <;> linarith

/-- A binary digit that is shifted out goes into the residual bits. -/
theorem shiftRightOne (h : Tells em.mantissa em.accuracy x) :
    Tells em.shiftRightOne.mantissa em.shiftRightOne.accuracy (x / 2) := by
  obtain ⟨m, r, s⟩ := em
  have hm : (m : ℚ) = 2 * (m / 2 : ℕ) + (m % 2 : ℕ) := by exact_mod_cast (Nat.div_add_mod m 2).symm
  rcases Nat.mod_two_eq_zero_or_one m with hmod | hmod <;> rw [hmod] at hm <;>
    cases r <;> cases s <;>
    simp only [ExtendedMantissa.accuracy, Tells, ExtendedMantissa.shiftRightOne, hmod] at h ⊢ <;>
    simp only [bne_self_eq_false, Nat.reduceBNe, Bool.or_self, Bool.or_true, Bool.or_false,
      Nat.cast_zero, Nat.cast_one] at hm ⊢ <;>
    first | linarith | (constructor <;> linarith)

theorem shiftRight (h : Tells em.mantissa em.accuracy x) (n : ℕ) :
    Tells (em >>> n).mantissa (em >>> n).accuracy (x / 2 ^ n) := by
  change Tells (n.repeat ExtendedMantissa.shiftRightOne em).mantissa
    (n.repeat ExtendedMantissa.shiftRightOne em).accuracy _
  induction n with
  | zero => simpa [Nat.repeat] using h
  | succ n ih =>
    rw [pow_succ, ← div_div]
    exact ih.shiftRightOne

theorem ofMantissaAndAccuracy (h : Tells m acc x) :
    Tells (ExtendedMantissa.ofMantissaAndAccuracy m acc).mantissa
      (ExtendedMantissa.ofMantissaAndAccuracy m acc).accuracy x := by
  rcases acc with _ | _ | _ | _ <;> exact h

end Tells

theorem exists_nearest (hx : 0 ≤ x) : ∃ m, Nearest x m := by
  have hfloor := Nat.floor_le hx
  have hnext := Nat.lt_floor_add_one x
  have htells : ∃ acc, Tells ⌊x⌋₊ acc x := by
    obtain heq | hgt := hfloor.eq_or_lt
    · exact ⟨.exact, heq.symm⟩
    · obtain hlt | hmid | hgt' := lt_trichotomy x (⌊x⌋₊ + 1 / 2)
      · exact ⟨.inexact .lt, hgt, hlt⟩
      · exact ⟨.inexact .eq, hmid⟩
      · exact ⟨.inexact .gt, hgt', hnext⟩
  obtain ⟨acc, hacc⟩ := htells
  exact ⟨_, hacc.nearest⟩

end Residual

/-! ### The last place -/

/-- The last place of the number nearest to a rational stands for `2 ^ t`: the significand has 53
binary digits, or fewer where the exponent is the least that there is. -/
structure LastPlace (q : ℚ) (t : ℤ) : Prop where
  least : -1074 ≤ t
  low : t = -1074 ∨ (2 : ℚ) ^ (t + 52) ≤ q
  high : q < 2 ^ (t + 53)

theorem exists_lastPlace {q : ℚ} (hq : 0 < q) : ∃ t, LastPlace q t := by
  obtain ⟨n, hle, hlt⟩ := exists_mem_Ico_zpow hq (one_lt_two : (1 : ℚ) < 2)
  obtain hsmall | hlarge := Int.le_total (n - 52) (-1074)
  · refine ⟨-1074, le_refl _, .inl rfl, hlt.trans_le ?_⟩
    exact zpow_le_zpow_right₀ one_le_two (by omega)
  · refine ⟨n - 52, hlarge, .inr ?_, ?_⟩
    · rwa [sub_add_cancel]
    · rwa [show n - 52 + 53 = n + 1 by omega]

namespace LastPlace

variable {q : ℚ} {t e : ℤ} {m : ℕ} {acc : Accuracy} {s : Sign}

theorem div_lt (h : LastPlace q t) : q / 2 ^ t < (2 ^ 53 : ℕ) := by
  rw [div_lt_iff₀ (zpow_pos two_pos t)]
  refine h.high.trans_le (le_of_eq ?_)
  rw [add_comm, zpow_add₀ two_ne_zero]
  norm_cast

theorem le_div (h : LastPlace q t) (ht : t ≠ -1074) : ((2 ^ 52 : ℕ) : ℚ) ≤ q / 2 ^ t := by
  rw [le_div_iff₀ (zpow_pos two_pos t)]
  refine le_trans (le_of_eq ?_) (h.low.resolve_left ht)
  rw [add_comm t, zpow_add₀ two_ne_zero]
  norm_cast

/-- A rational has one last place. -/
theorem not_lt {t' : ℤ} (h : LastPlace q t) (h' : LastPlace q t') : ¬ t < t' := by
  intro hlt
  have hleast := h.least
  have hlow := h'.low.resolve_left (by omega)
  have := (zpow_lt_zpow_iff_right₀ one_lt_two).1 (hlow.trans_lt h.high)
  omega

theorem unique {t' : ℤ} (h : LastPlace q t) (h' : LastPlace q t') : t = t' :=
  le_antisymm (Int.not_lt.1 (h'.not_lt h)) (Int.not_lt.1 (h.not_lt h'))

/-- The floor in finer units tells where the last place is. -/
theorem targetExponent_eq (h : LastPlace q t) (he : e ≤ t) (hle : m ≤ q / 2 ^ e)
    (hlt : q / 2 ^ e < m + 1) : Format.binary64.targetExponent (totalExponent m e) = t := by
  rw [Vibe.targetExponent_eq]
  have hpos : (0 : ℚ) < 2 ^ e := zpow_pos two_pos e
  rw [le_div_iff₀ hpos] at hle
  rw [div_lt_iff₀ hpos] at hlt
  have hleast := h.least
  obtain rfl | hm := Nat.eq_zero_or_pos m
  · have hq : q < 2 ^ e := by simpa using hlt
    obtain rfl | hlow := h.low
    · rw [show (Nat.log2 0 : ℤ) = 0 from rfl]
      omega
    · have := (zpow_lt_zpow_iff_right₀ one_lt_two).1 (hlow.trans_lt hq)
      omega
  · obtain ⟨hlog, hlog'⟩ := (Nat.log2_eq_iff (Nat.ne_of_gt hm)).1 rfl
    have hlow : (2 : ℚ) ^ (m.log2 + e) ≤ q := by
      rw [zpow_add₀ two_ne_zero, zpow_natCast]
      exact (mul_le_mul_of_nonneg_right (by exact_mod_cast hlog) hpos.le).trans hle
    have hhigh : q < (2 : ℚ) ^ (m.log2 + 1 + e) := by
      rw [zpow_add₀ two_ne_zero]
      refine hlt.trans_le (mul_le_mul_of_nonneg_right ?_ hpos.le)
      exact_mod_cast hlog'
    have hfirst := (zpow_lt_zpow_iff_right₀ one_lt_two).1 (hlow.trans_lt h.high)
    obtain rfl | hplace := h.low
    · omega
    · have hlast := (zpow_lt_zpow_iff_right₀ one_lt_two).1 (hplace.trans_lt hhigh)
      omega

end LastPlace

/-- A significand that has been rounded, in units of `2 ^ t`. One that has got a binary digit too
much is carried over. -/
def carried (s : Sign) (m : ℕ) (t : ℤ) : UnpackedFloat :=
  if h : m = 0 then .zero s
  else if m = 2 ^ 53 then .finite s (2 ^ 52) (t + 1) (by decide)
  else .finite s m t (Nat.pos_of_ne_zero h)

/-- The second shift of a rounding takes the binary digit that is too much. -/
theorem shiftToTargetExponent_exact {m : ℕ} {t : ℤ} (hle : m ≤ 2 ^ 53)
    (hge : t = -1074 ∨ 2 ^ 52 ≤ m) (ht : -1074 ≤ t) :
    shiftToTargetExponent .binary64 m t .exact =
      if m = 2 ^ 53 then (⟨2 ^ 52, false, false⟩, t + 1) else (⟨m, false, false⟩, t) := by
  split
  · next heq =>
    subst heq
    have htarget : Format.binary64.targetExponent (totalExponent (2 ^ 53) t) = t + 1 := by
      rw [targetExponent_eq, Nat.log2_two_pow]
      omega
    have hshift : (t + 1 - t).toNat = 1 := by omega
    simp only [shiftToTargetExponent, shiftToExponent, htarget, hshift]
    rfl
  · next hne =>
    have hlog : m.log2 ≤ 52 := by
      obtain rfl | hm := eq_or_ne m 0
      · exact Nat.zero_le _
      · exact Nat.le_of_lt_succ ((Nat.log2_lt hm).2 (by omega))
    refine shiftToTargetExponent_of_eq ?_
    rw [targetExponent_eq]
    obtain rfl | hfull := hge
    · omega
    · have hlow := (Nat.le_log2 (Nat.ne_of_gt (by omega))).2 hfull
      omega

/-- An unpacked number is a positive rational, rounded and given a sign. -/
def Rounds (s : Sign) (q : ℚ) (f : UnpackedFloat) : Prop :=
  ∃ t M, LastPlace q t ∧ Nearest (q / 2 ^ t) M ∧ f = carried s M t

/-- A rational is rounded to one number. -/
theorem Rounds.unique {s : Sign} {q : ℚ} {f f' : UnpackedFloat} (h : Rounds s q f)
    (h' : Rounds s q f') : f = f' := by
  obtain ⟨t, M, hplace, hnearest, rfl⟩ := h
  obtain ⟨t', M', hplace', hnearest', rfl⟩ := h'
  obtain rfl := hplace.unique hplace'
  rw [hnearest.unique hnearest']

/-- Rounding finds the nearest significand for the last place. -/
theorem rounds_roundWithAccuracy {q : ℚ} {t e : ℤ} {m : ℕ} {acc : Accuracy} (s : Sign)
    (hplace : LastPlace q t) (he : e ≤ t) (hacc : Tells m acc (q / 2 ^ e)) :
    Rounds s q (roundWithAccuracy .binary64 s m e acc) := by
  have htarget := hplace.targetExponent_eq he hacc.bounds.1 hacc.bounds.2
  have hshift : e + (t - e).toNat = t := by omega
  have hfirst : shiftToTargetExponent .binary64 m e acc =
      (ExtendedMantissa.ofMantissaAndAccuracy m acc >>> (t - e).toNat, t) := by
    rw [shiftToTargetExponent, htarget, shiftToExponent, hshift]
  have hunits : q / 2 ^ e / 2 ^ (t - e).toNat = q / 2 ^ t := by
    rw [div_div, ← zpow_natCast, ← zpow_add₀ two_ne_zero, hshift]
  have hnearest := (hacc.ofMantissaAndAccuracy.shiftRight (t - e).toNat).nearest
  rw [hunits] at hnearest
  have hsecond := shiftToTargetExponent_exact (hnearest.le_of_lt hplace.div_lt)
    (or_iff_not_imp_left.2 fun ht => hnearest.le_of_le (hplace.le_div ht)) hplace.least
  refine ⟨t, _, hplace, hnearest, ?_⟩
  simp only [roundWithAccuracy, carried, hfirst, ExtendedMantissa.roundedMantissa, hsecond]
  split_ifs <;> simp_all

end Vibe
