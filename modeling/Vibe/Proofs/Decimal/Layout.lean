import Vibe.Decimal.Layout
import Vibe.Text.Blank
import Vibe.Proofs.Decimal.Reading
import Vibe.Proofs.Decimal.Shortest
import Vibe.Proofs.Decimal.Spelling

/-! Numbers as they are printed: digits with a point among them, which are read as the same number
again. -/

namespace Vibe

open Float.Model UnpackedFloat

/-- Digits, or digits with a point among them, and the numeral that they spell. -/
inductive Plain : List Char → Numeral → Prop
  | whole {whole : List Char} : whole ≠ [] → (∀ c ∈ whole, c.isDigit = true) →
      Plain whole (.ofDigits whole [])
  | decimal {whole fraction : List Char} : whole ≠ [] → (∀ c ∈ whole, c.isDigit = true) →
      fraction ≠ [] → (∀ c ∈ fraction, c.isDigit = true) →
      Plain (whole ++ '.' :: fraction) (.ofDigits whole fraction)

namespace Plain

variable {cs : List Char} {n : Numeral}

/-- Such a text is a numeral, with or without a minus sign before it. -/
theorem exists_spelling (h : Plain cs n) (negative : Bool) : ∃ sp : Spelling,
    sp.text = (if negative then '-' :: cs else cs) ∧ sp.numeral = { n with negative } := by
  let sign : Option Bool := if negative then some true else none
  cases h with
  | whole hne hdigit =>
    refine ⟨⟨sign, cs, none, none, by simpa using hdigit, by simpa using hne⟩, ?_, ?_⟩
    · cases negative <;> simp [Spelling.text, Spelling.signText, Spelling.fractionText,
        Spelling.powerText, sign]
    · cases negative <;> simp [Spelling.numeral, Spelling.digits, Spelling.powerBy,
        Numeral.ofDigits, sign]
  | @decimal whole fraction hne hdigit hne' hdigit' =>
    refine ⟨⟨sign, whole, some fraction, none, ?_, by simp [hne]⟩, ?_, ?_⟩
    · exact fun c hc => (List.mem_append.1 hc).elim (hdigit c) (hdigit' c)
    · cases negative <;> simp [Spelling.text, Spelling.signText, Spelling.fractionText,
        Spelling.powerText, sign]
    · cases negative <;> simp [Spelling.numeral, Spelling.digits, Spelling.powerBy,
        Numeral.ofDigits, sign]

theorem negative_eq (h : Plain cs n) : n.negative = false := by
  cases h <;> rfl

end Plain

namespace Layout

variable {digits : List Char} {point : ℤ}

theorem magnitude_ofDigits (whole fraction : List Char) :
    (Numeral.ofDigits whole fraction).magnitude =
      Nat.ofDigitChars 10 (whole ++ fraction) 0 * 10 ^ (-fraction.length : ℤ) := by
  rw [Numeral.magnitude, Numeral.ofDigits, Spelling.valueOf_eq]

/-- A text spells digits with the point behind as many of them as are said. -/
def Spells (cs digits : List Char) (point : ℤ) : Prop :=
  ∃ n, Plain cs n ∧ n.magnitude = Nat.ofDigitChars 10 digits 0 * 10 ^ (point - digits.length)

theorem isDigit_of_mem_zeros {k : ℕ} {c : Char} (hc : c ∈ List.replicate k '0') :
    c.isDigit = true := by
  rw [List.eq_of_mem_replicate hc]
  decide

section

variable (hne : digits ≠ []) (hdigit : ∀ c ∈ digits, c.isDigit = true)

include hne hdigit

/-- The point stands before the digits, with zeros between. -/
theorem spells_before (hpoint : point ≤ 0) :
    Spells ('0' :: '.' :: List.replicate (-point).toNat '0' ++ digits) digits point := by
  have hfraction : ∀ c ∈ List.replicate (-point).toNat '0' ++ digits, c.isDigit = true := by
    intro c hc
    rcases List.mem_append.1 hc with hzero | hc
    · exact isDigit_of_mem_zeros hzero
    · exact hdigit c hc
  have hplain : Plain (['0'] ++ '.' :: (List.replicate (-point).toNat '0' ++ digits)) _ :=
    .decimal (by simp) (fun c => isDigit_of_mem_zeros (k := 1)) (by simp [hne]) hfraction
  refine ⟨_, hplain, ?_⟩
  rw [magnitude_ofDigits]
  congr 2
  · simp [Nat.ofDigitChars_cons, Nat.ofDigitChars_append]
  · rw [List.length_append, List.length_replicate]
    omega

/-- The point stands among the digits. -/
theorem spells_among (hpos : 0 < point) (hlt : point < digits.length) :
    Spells (digits.take point.toNat ++ '.' :: digits.drop point.toNat) digits point := by
  have htake : digits.take point.toNat ≠ [] := by
    simp only [ne_eq, List.take_eq_nil_iff, hne, or_false]
    omega
  have hdrop : digits.drop point.toNat ≠ [] := by
    simp only [ne_eq, List.drop_eq_nil_iff]
    omega
  refine ⟨_, .decimal htake (fun c hc => hdigit c (List.mem_of_mem_take hc)) hdrop
    (fun c hc => hdigit c (List.mem_of_mem_drop hc)), ?_⟩
  rw [magnitude_ofDigits, List.take_append_drop, List.length_drop]
  congr 2
  omega

/-- Zeros fill up the place between the digits and the point, which is left out. -/
theorem spells_behind (hge : digits.length ≤ point) :
    Spells (digits ++ List.replicate (point.toNat - digits.length) '0') digits point := by
  have hall : ∀ c ∈ digits ++ List.replicate (point.toNat - digits.length) '0',
      c.isDigit = true := by
    intro c hc
    rcases List.mem_append.1 hc with hc | hzero
    · exact hdigit c hc
    · exact isDigit_of_mem_zeros hzero
  have hsplit : point - digits.length = (point.toNat - digits.length : ℕ) := by omega
  refine ⟨_, .whole (by simp [hne]) hall, ?_⟩
  rw [magnitude_ofDigits, List.append_nil, Nat.ofDigitChars_append,
    Nat.ofDigitChars_replicate_zero, hsplit, zpow_natCast, List.length_nil]
  push_cast
  rw [mul_one, mul_comm]

/-- In positional notation digits stand for what they are with the point at its place. -/
theorem spells_positional (point : ℤ) :
    Spells (positional false digits point) digits point := by
  rw [positional]
  split
  · next hpoint => exact spells_before hne hdigit hpoint
  · next hpoint =>
    split
    · next hlt => exact spells_among hne hdigit (by omega) hlt
    · next hge =>
      simp only [Bool.false_eq_true, if_false, List.append_nil]
      exact spells_behind hne hdigit (by omega)

end

/-- A finite number is printed as digits that spell its shortest decimal. -/
theorem exists_magnitude {b : Binary} (hb : b.significand ≠ 0) :
    ∃ n, Plain (printed.magnitude b) n ∧ n.magnitude = (Shortest.ofBinary b).value := by
  obtain ⟨n, hplain, hn⟩ := spells_positional Nat.toDigits_ne_nil
    (fun c => Nat.isDigit_of_mem_toDigits (b := 10) (by norm_num) (by norm_num))
    ((Nat.toDigits 10 (Shortest.ofBinary b).digits).length + (Shortest.ofBinary b).exponent)
  refine ⟨n, ?_, ?_⟩
  · rw [magnitude, if_neg hb]
    exact hplain
  · rw [hn, Nat.ofDigitChars_ten_toDigits, add_sub_cancel_left, Shortest.value]

/-- The positive number that the printed digits are read as. -/
theorem toFloat_of_printed {m : ℕ} {e : ℤ} {negative : Bool} {n : Numeral} (hc : Canonical m e)
    (hn : n.magnitude = (Shortest.ofBinary ⟨negative, m, e⟩).value) (hsign : n.negative = false) :
    n.toFloat = .ofModel (.pack (.finite .positive m e hc.pos)) := by
  have haround := Shortest.around_ofBinary (b := ⟨negative, m, e⟩) hc.pos
  have hpos : 0 < n.magnitude := by
    have := mul_pos (haround.pos hc.pos) (zpow_pos two_pos e)
    rwa [div_mul_cancel₀ _ (zpow_pos two_pos e).ne', ← hn] at this
  have hdigits : n.digits ≠ 0 := by
    intro hzero
    simp [Numeral.magnitude, hzero] at hpos
  obtain ⟨f, hf, hread⟩ := Numeral.rounds_toFloat hdigits
  have hrounds := haround.rounds hc .positive
  rw [← hn] at hrounds
  rw [hread, hsign, hf.unique hrounds]
  rfl

theorem isFinite_nan : Float.nan.isFinite = false := by
  decide +kernel

/-- A finite number is printed as its magnitude, with a minus sign before it or not. -/
theorem write_of_unpack {x : Float} {s : Sign} {m : ℕ} {e : ℤ} {hpos : 0 < m}
    (h : x.toModel.unpack = .finite s m e hpos) : (printed.write x).toList =
      if s == .negative then '-' :: printed.magnitude ⟨s == .negative, m, e⟩
      else printed.magnitude ⟨s == .negative, m, e⟩ := by
  have hsigned : (s == .negative && (printed.signedZero || m != 0)) = (s == .negative) := by
    rw [bne_iff_ne.2 hpos.ne', Bool.or_true, Bool.and_true]
  simp only [write, Binary.ofFloat?, h, String.toList_ofList]
  rw [hsigned]

theorem beq_self_of_isFinite {x : Float} (hx : x.isFinite = true) : (x == x) = true := by
  refine Float.beq_self_iff.2 ?_
  rintro rfl
  rw [isFinite_nan] at hx
  cases hx

/-- What is printed of a finite number is digits, with a minus sign before them or not, that are
read as a number equal to it. -/
theorem exists_printed {x : Float} (hx : x.isFinite = true) :
    ∃ (cs : List Char) (n : Numeral) (negative : Bool), Plain cs n ∧
      (printed.write x).toList = (if negative then '-' :: cs else cs) ∧
      (if negative then -n.toFloat else n.toFloat).isFinite = true ∧
      ((if negative then -n.toFloat else n.toFloat) == x) = true := by
  have hmodel := ofModel_pack_unpack x
  rcases hunpack : x.toModel.unpack with s | _ | s | ⟨s, m, e, hpos⟩
  · rw [Float.isFinite, Float.Model.isFinite, hunpack] at hx
    cases hx
  · rw [Float.isFinite, Float.Model.isFinite, hunpack] at hx
    cases hx
  · refine ⟨['0'], .ofDigits ['0'] [], false, .whole (by simp) (by simp), ?_, ?_, ?_⟩
    · simp [write, Binary.ofFloat?, hunpack, magnitude, printed]
    · decide +kernel
    · rw [← hmodel, hunpack]
      cases s <;> decide +kernel
  · have hc := canonical_of_unpack hunpack
    obtain ⟨n, hplain, hn⟩ := exists_magnitude (b := ⟨s == .negative, m, e⟩) hc.pos.ne'
    have hread := toFloat_of_printed hc hn hplain.negative_eq
    have heq : (if s == .negative then -n.toFloat else n.toFloat) = x := by
      rw [← hmodel, hunpack, hread]
      cases s
      · exact hc.neg_pack .positive
      · rfl
    refine ⟨_, n, s == .negative, hplain, write_of_unpack hunpack, ?_, ?_⟩
    · rw [heq]
      exact hx
    · rw [heq]
      exact beq_self_of_isFinite hx

/-- What is not finite is printed as words. -/
theorem parse?_write {x : Float} (hx : x.isFinite = false) :
    Numeral.parse? (Text.trim (printed.write x).toList) = none := by
  have hmodel := ofModel_pack_unpack x
  rw [Float.isFinite, Float.Model.isFinite] at hx
  rcases hunpack : x.toModel.unpack with s | _ | s | ⟨s, m, e, hpos⟩ <;> rw [hunpack] at hx hmodel
  · rw [← hmodel]
    cases s <;> decide +kernel
  · rw [← hmodel]
    decide +kernel
  · cases hx
  · cases hx

end Layout
end Vibe
