/-! Finite binary numbers as a sign, a whole significand and a power of two. -/

namespace Vibe

/-- The number ±significand · 2^exponent. -/
structure Binary where
  negative : Bool
  significand : Nat
  exponent : Int

namespace Binary

/-- The exact value of a number; `none` for an infinity and for what is no number. -/
def ofFloat? (x : Float) : Option Binary :=
  match x.toModel.unpack with
  | .infinity _ => none
  | .notANumber => none
  | .zero s => some ⟨s == .negative, 0, 0⟩
  | .finite s m e _ => some ⟨s == .negative, m, e⟩

/-- The number nearest to the value, a tie going to the even significand; a zero keeps the sign. -/
def toFloat (b : Binary) : Float :=
  let sign := if b.negative then .negative else .positive
  if b.significand = 0 then .ofModel (.pack (.zero sign))
  else .ofModel (.pack (.round .binary64 sign b.significand b.exponent))

/-- The value as a fraction of naturals, without the sign. -/
def fraction (b : Binary) : Nat × Nat :=
  (b.significand * Nat.pow 2 b.exponent.toNat, Nat.pow 2 (-b.exponent).toNat)

end Binary
end Vibe
