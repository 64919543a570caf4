import Vibe.Decimal.Binary

/-! The shortest decimal that reads back as a given number. -/

namespace Vibe

/-- The decimal digits · 10^exponent. -/
structure Shortest where
  digits : Nat
  exponent : Int
  deriving DecidableEq

namespace Shortest

/-- Compares a · 10^i with n · 2^j. -/
def compareScaled (a : Nat) (i : Int) (n : Nat) (j : Int) : Ordering :=
  compare (a * Nat.pow 10 i.toNat * Nat.pow 2 (-j).toNat)
    (n * Nat.pow 2 j.toNat * Nat.pow 10 (-i).toNat)

/-- Whether the neighbour below is half as far away as the one above: so at a power of two,
unless the gap cannot shrink any more. -/
def narrowBelow (b : Binary) : Bool :=
  b.significand == Nat.pow 2 52 && b.exponent != -1074

/-- Whether a decimal lies among the reals that round to `b`. They reach half way to either
neighbour, the ends included when the significand is even. -/
def readsBack (b : Binary) (d : Shortest) : Bool :=
  let low := if narrowBelow b then 4 * b.significand - 1 else 4 * b.significand - 2
  let fromLow := compareScaled d.digits d.exponent low (b.exponent - 2)
  let toHigh := compareScaled d.digits d.exponent (4 * b.significand + 2) (b.exponent - 2)
  if b.significand % 2 = 0 then fromLow != .lt && toHigh != .gt
  else fromLow == .gt && toHigh == .lt

/-- The number of decimal digits before the point, negative for zeros after it: the least `k`
with `b` below 10^k. -/
def scale (b : Binary) : Int :=
  let (n, d) := b.fraction
  if d ≤ n then (Nat.toDigits 10 (n / d)).length
  else 1 - (Nat.toDigits 10 ((d - 1) / n)).length

/-- The better of the two neighbours of `b` on the grid 10^e, if one of them reads back. Of two
that do, the nearer one is taken, and the upper one if both are equally near. -/
def onGrid (b : Binary) (e : Int) : Option Shortest :=
  let (n, d) := b.fraction
  let n' := n * Nat.pow 10 (-e).toNat
  let d' := d * Nat.pow 10 e.toNat
  let below : Shortest := ⟨n' / d', e⟩
  let above : Shortest := ⟨n' / d' + 1, e⟩
  match readsBack b below, readsBack b above with
  | true, true => some (if 2 * (n' % d') < d' then below else above)
  | true, false => some below
  | false, true => some above
  | false, false => none

/-- Moves zeros at the end of the digits into the exponent. -/
def strip : Nat → Shortest → Shortest
  | 0, d => d
  | fuel + 1, d =>
    if d.digits % 10 = 0 ∧ d.digits ≠ 0 then strip fuel ⟨d.digits / 10, d.exponent + 1⟩ else d

/-- The exact value: halving n times takes n decimal places. -/
def exact (b : Binary) : Shortest :=
  ⟨b.significand * Nat.pow 2 b.exponent.toNat * Nat.pow 5 (-b.exponent).toNat, min b.exponent 0⟩

/-- The decimal with the fewest digits that reads back as the positive number `b`, and the nearest
to `b` among those. Seventeen digits are enough for every number. -/
def ofBinary (b : Binary) : Shortest :=
  let found := (List.range 17).findSome? fun (i : Nat) => onGrid b (scale b - (i + 1))
  let d := found.getD (exact b)
  strip 800 d

end Shortest
end Vibe
