import Vibe.Decimal.Binary

/-! Whole parts of numbers and the remainder of a division, computed exactly. -/

namespace Vibe.Rounding

/-- Replaces a finite number by a whole one of the same sign: `choose` gets the sign and the
magnitude as a fraction and gives the new magnitude. Other numbers stay. -/
def integral (choose : Bool → Nat → Nat → Nat) (x : Float) : Float :=
  match Binary.ofFloat? x with
  | none => x
  | some b => Binary.toFloat ⟨b.negative, choose b.negative b.fraction.1 b.fraction.2, 0⟩

/-- The quotient rounded up. -/
def divUp (n d : Nat) : Nat :=
  (n + d - 1) / d

/-- The greatest whole number that is not greater. -/
def floor : Float → Float :=
  integral fun negative n d => if negative then divUp n d else n / d

/-- The floor as a natural number, for finite numbers that have one. -/
def floorNat? (x : Float) : Option Nat := do
  let b ← Binary.ofFloat? x
  if b.negative && b.significand != 0 then none
  else return b.fraction.1 / b.fraction.2

/-- The least whole number that is not less. -/
def ceil : Float → Float :=
  integral fun negative n d => if negative then n / d else divUp n d

/-- The nearest whole number, a half going away from zero. -/
def nearest : Float → Float :=
  integral fun _ n d => (2 * n + d) / (2 * d)

/-- The nearest whole number, a half going up. The half is found by subtracting the floor, which
is exact where halves exist; adding a half first would round up numbers just below one. -/
def halfUp (x : Float) : Float :=
  if x - floor x == 0.5 then floor x + 1.0 else nearest x

/-- The remainder of the division that rounds its quotient toward zero. It is exact and has the
sign of the dividend. -/
def remainder (x y : Float) : Float :=
  match Binary.ofFloat? x, Binary.ofFloat? y with
  | some a, some b =>
    if b.significand = 0 then 0.0 / 0.0
    else
      let e := min a.exponent b.exponent
      let scaled (c : Binary) : Nat := c.significand * Nat.pow 2 (c.exponent - e).toNat
      Binary.toFloat ⟨a.negative, scaled a % scaled b, e⟩
  | some _, none => if y.isNaN then y else x
  | none, _ => 0.0 / 0.0

/-- The lesser number; one that is no number is passed over, and of two equal ones the first
is taken. -/
def least (x y : Float) : Float :=
  if x.isNaN then y else if y < x then y else x

/-- The greater number; one that is no number is passed over, and of two equal ones the first
is taken. -/
def greatest (x y : Float) : Float :=
  if x.isNaN then y else if y > x then y else x

end Vibe.Rounding
