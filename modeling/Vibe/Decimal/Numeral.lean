import Vibe.Decimal.Binary

/-! Decimal numerals: how numbers are spelled, and the numbers that they spell. -/

namespace Vibe

/-- The decimal ±digits · 10^exponent. -/
structure Numeral where
  negative : Bool := false
  digits : Nat
  exponent : Int := 0
  deriving DecidableEq

/-- A number of which the digits come one by one: those that are set down, and the last few, which
are kept apart so that the large part is multiplied seldom. -/
structure Tally where
  high : Nat := 0
  low : Nat := 0
  scale : Nat := 1

namespace Tally

/-- The number of which all digits so far are the spelling. -/
def value (t : Tally) : Nat :=
  t.high * t.scale + t.low

/-- One more digit. -/
def push (t : Tally) (digit : Nat) : Tally :=
  if t.scale < 1000000000000000000 then
    { t with low := 10 * t.low + digit, scale := 10 * t.scale }
  else { high := t.value, low := digit, scale := 10 }

/-- One more digit stands for ten times what was there, and itself. -/
theorem value_push (t : Tally) (digit : Nat) : (t.push digit).value = 10 * t.value + digit := by
  unfold push value
  split <;> grind

end Tally

namespace Numeral

/-- The number that a decimal digit stands for. -/
def digitOf (c : Char) : Nat :=
  c.toNat - '0'.toNat

/-- The value of a list of decimal digits. -/
def valueOf (digits : List Char) : Nat :=
  (digits.foldl (fun t c => t.push (digitOf c)) ({} : Tally)).value

theorem valueOf_nil : valueOf [] = 0 := rfl

/-- The last digit counts once, and the digits before it ten times. -/
theorem valueOf_concat (digits : List Char) (c : Char) :
    valueOf (digits ++ [c]) = 10 * valueOf digits + digitOf c := by
  simp [valueOf, Tally.value_push]

/-- An unsigned numeral from the digits before and after the point. -/
def ofDigits (whole fraction : List Char) : Numeral :=
  { digits := valueOf (whole ++ fraction), exponent := -fraction.length }

/-- Takes an optional sign: whether it is a minus, and what follows. -/
def takeSign : List Char → Bool × List Char
  | '-' :: r => (true, r)
  | '+' :: r => (false, r)
  | r => (false, r)

/-- Reads digits with an optional point among them, and at least one digit in all. -/
def takeDecimal (cs : List Char) : Option (Numeral × List Char) :=
  let whole := cs.takeWhile Char.isDigit
  let rest := cs.dropWhile Char.isDigit
  let (fraction, rest) := match rest with
    | '.' :: r => (r.takeWhile Char.isDigit, r.dropWhile Char.isDigit)
    | r => ([], r)
  if whole.isEmpty && fraction.isEmpty then none else some (ofDigits whole fraction, rest)

/-- The bound up to which the digits of an exponent count. -/
def exponentBound : Nat := 65536

/-- The size of an exponent: its digits are read until the bound is reached, and those that are
left are passed over. An exponent of that size decides the number alone, unless tens of thousands
of digits stand before it. -/
def exponentOf (digits : List Char) : Nat :=
  digits.foldl (fun e c => if e < exponentBound then 10 * e + digitOf c else e) 0

/-- Reads what may follow the digits: nothing, or an exponent and nothing after it. -/
def takeExponent : List Char → Option Int
  | [] => some 0
  | c :: r =>
    if c = 'e' || c = 'E' then
      let (negative, r) := takeSign r
      if r.isEmpty || !r.all Char.isDigit then none
      else some (if negative then -exponentOf r else exponentOf r)
    else none

/-- Reads a whole text as a numeral: a sign, digits with a point, an exponent; sign, point and
exponent may be missing. -/
def parse? (cs : List Char) : Option Numeral := do
  let (negative, cs) := takeSign cs
  let (n, cs) ← takeDecimal cs
  let e ← takeExponent cs
  return { n with negative, exponent := n.exponent + e }

/-- A power of ten that a numeral other than zero reaches, found without forming one: the logarithm
of 2 to the base ten is at least 0.301. -/
def reached (n : Numeral) : Int :=
  n.digits.log2 * 301 / 1000 + n.exponent

/-- A power of ten that a numeral stays below: the logarithm of 2 to the base ten is at
most 0.302. -/
def unreached (n : Numeral) : Int :=
  (n.digits.log2 + 1) * 302 / 1000 + 1 + n.exponent

/-- The number nearest to a numeral. Well beyond the range of numbers it is an infinity or a zero;
the powers of ten around the numeral tell this before any large power is formed. -/
def toFloat (n : Numeral) : Float :=
  let magnitude : Float :=
    if n.digits = 0 ∨ n.unreached < -400 then 0.0
    else if n.reached > 400 then 1.0 / 0.0
    else Float.ofScientific n.digits (n.exponent < 0) n.exponent.natAbs
  if n.negative then -magnitude else magnitude

end Numeral
end Vibe
