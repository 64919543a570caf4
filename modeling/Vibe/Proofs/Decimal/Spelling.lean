import Mathlib
import Vibe.Decimal.Numeral

/-! The grammar of decimal numerals: what is read as a numeral is exactly what it describes. -/

namespace Vibe

/-- The exponent of a numeral: a mark, a sign that may be missing, and digits. The sign is `true`
for a minus. -/
structure Power where
  mark : Char
  sign : Option Bool
  digits : List Char
  isMark : mark = 'e' ∨ mark = 'E'
  isDigit : ∀ c ∈ digits, c.isDigit = true
  nonempty : digits ≠ []

/-- A decimal numeral: a sign, digits with a point before, among or behind them, and an exponent.
Only one of the digits must be there. -/
structure Spelling where
  sign : Option Bool
  whole : List Char
  fraction : Option (List Char)
  power : Option Power
  isDigit : ∀ c ∈ whole ++ fraction.getD [], c.isDigit = true
  nonempty : whole ++ fraction.getD [] ≠ []

namespace Spelling

/-! ### Texts and values -/

def signText : Option Bool → List Char
  | none => []
  | some negative => [if negative then '-' else '+']

def fractionText : Option (List Char) → List Char
  | none => []
  | some ds => '.' :: ds

def powerText : Option Power → List Char
  | none => []
  | some p => p.mark :: (signText p.sign ++ p.digits)

/-- The numeral as it is written. -/
def text (n : Spelling) : List Char :=
  signText n.sign ++ (n.whole ++ (fractionText n.fraction ++ powerText n.power))

/-- The digits before and after the point. -/
def digits (n : Spelling) : List Char :=
  n.whole ++ n.fraction.getD []

/-- The number that an exponent stands for, by a way to read its digits. -/
def powerBy (read : List Char → ℕ) : Option Power → ℤ
  | none => 0
  | some p => if p.sign = some true then -read p.digits else read p.digits

/-- What is read of the numeral. -/
def numeral (n : Spelling) : Numeral :=
  { negative := n.sign == some true
    digits := Numeral.valueOf n.digits
    exponent := -(n.fraction.getD []).length + powerBy Numeral.exponentOf n.power }

/-! ### Digits -/

theorem valueOf_eq (ds : List Char) : Numeral.valueOf ds = Nat.ofDigitChars 10 ds 0 := by
  induction ds using List.reverseRecOn with
  | nil => rfl
  | append_singleton ds c ih =>
    rw [Numeral.valueOf_concat, ih, Nat.ofDigitChars_append, Nat.ofDigitChars_cons,
      Nat.ofDigitChars_nil]
    rfl

theorem takeWhile_digits {ds r : List Char} (hds : ∀ c ∈ ds, c.isDigit = true)
    (hr : ∀ c ∈ r.head?, c.isDigit = false) : (ds ++ r).takeWhile Char.isDigit = ds := by
  rw [List.takeWhile_append_of_pos hds]
  cases r with
  | nil => simp
  | cons c r => simp [hr c rfl]

theorem dropWhile_digits {ds r : List Char} (hds : ∀ c ∈ ds, c.isDigit = true)
    (hr : ∀ c ∈ r.head?, c.isDigit = false) : (ds ++ r).dropWhile Char.isDigit = r := by
  rw [List.dropWhile_append_of_pos hds]
  cases r with
  | nil => simp
  | cons c r => simp [hr c rfl]

/-! ### Signs -/

variable {cs r : List Char} {sign : Option Bool} {negative : Bool}

theorem takeSign_signText (hr : ∀ c ∈ r.head?, c ≠ '-' ∧ c ≠ '+') :
    Numeral.takeSign (signText sign ++ r) = (sign == some true, r) := by
  cases sign with
  | none =>
    cases r with
    | nil => rfl
    | cons c r =>
      obtain ⟨hminus, hplus⟩ := hr c rfl
      unfold Numeral.takeSign
      split
      · next h => exact absurd (List.cons.inj h).1 hminus
      · next h => exact absurd (List.cons.inj h).1 hplus
      · rfl
  | some negative => cases negative <;> rfl

theorem ne_sign_of_isDigit {c : Char} (h : c.isDigit = true) : c ≠ '-' ∧ c ≠ '+' := by
  constructor <;> rintro rfl <;> exact absurd h (by decide)

/-! ### Exponents -/

theorem head?_powerText {p : Option Power} {c : Char} (h : c ∈ (powerText p).head?) :
    c = 'e' ∨ c = 'E' := by
  cases p with
  | none => cases h
  | some p => cases h; exact p.isMark

theorem takeExponent_powerText (p : Option Power) :
    Numeral.takeExponent (powerText p) = some (powerBy Numeral.exponentOf p) := by
  cases p with
  | none => rfl
  | some p =>
    obtain ⟨mark, sign, digits, hmark, hdigits, hne⟩ := p
    have hsign : Numeral.takeSign (signText sign ++ digits) = (sign == some true, digits) := by
      refine takeSign_signText fun c hc => ne_sign_of_isDigit (hdigits c ?_)
      exact List.mem_of_mem_head? hc
    have hall : digits.all Char.isDigit = true := List.all_eq_true.2 hdigits
    simp only [powerText, Numeral.takeExponent, powerBy, hsign]
    rw [if_pos (by simpa using hmark), if_neg (by simp [hall, hne])]
    simp

theorem head?_text {n : Spelling} {c : Char}
    (h : c ∈ (n.whole ++ (fractionText n.fraction ++ powerText n.power)).head?) :
    c ≠ '-' ∧ c ≠ '+' := by
  obtain ⟨sign, whole, fraction, power, hdigit, hne⟩ := n
  cases whole with
  | cons d ds =>
    obtain rfl : d = c := by simpa using h
    exact ne_sign_of_isDigit (hdigit d (by simp))
  | nil =>
    cases fraction with
    | none => exact absurd rfl hne
    | some ds =>
      cases h
      decide

theorem not_isDigit_fractionText {fraction : Option (List Char)} {p : Option Power} {c : Char}
    (h : c ∈ (fractionText fraction ++ powerText p).head?) : c.isDigit = false := by
  cases fraction with
  | none =>
    obtain rfl | rfl := head?_powerText h
    · decide
    · decide
  | some ds =>
    cases h
    decide

theorem takeDecimal_text (n : Spelling) :
    Numeral.takeDecimal (n.whole ++ (fractionText n.fraction ++ powerText n.power)) =
      some (.ofDigits n.whole (n.fraction.getD []), powerText n.power) := by
  obtain ⟨sign, whole, fraction, power, hdigit, hne⟩ := n
  have hwhole : ∀ c ∈ whole, c.isDigit = true := fun c hc => hdigit c (List.mem_append_left _ hc)
  have hpower : ∀ c ∈ (powerText power).head?, c.isDigit = false := fun c =>
    @not_isDigit_fractionText none power c
  simp only [Numeral.takeDecimal, takeWhile_digits hwhole fun c hc => not_isDigit_fractionText hc,
    dropWhile_digits hwhole fun c hc => not_isDigit_fractionText hc]
  cases fraction with
  | none =>
    have hne' : ¬ (whole.isEmpty && ([] : List Char).isEmpty) = true := by simpa using hne
    -- No exponent begins with a point.
    obtain _ | ⟨mark, sign', ds, rfl | rfl, _, _⟩ := power
    · exact if_neg hne'
    · exact if_neg hne'
    · exact if_neg hne'
  | some ds =>
    have hds : ∀ c ∈ ds, c.isDigit = true := fun c hc => hdigit c (List.mem_append_right _ hc)
    have hne' : ¬ (whole.isEmpty && ds.isEmpty) = true := by simpa using hne
    simp only [fractionText, List.cons_append, takeWhile_digits hds hpower,
      dropWhile_digits hds hpower, Option.getD_some, if_neg hne']

/-- The text of a numeral is read as that numeral. -/
theorem parse?_text (n : Spelling) : Numeral.parse? n.text = some n.numeral := by
  have hsign : Numeral.takeSign n.text = (n.sign == some true, _) :=
    takeSign_signText fun c hc => head?_text hc
  simp only [Numeral.parse?, hsign, takeDecimal_text, takeExponent_powerText,
    Option.bind_eq_bind, Option.bind_some]
  rfl

end Spelling
end Vibe
