import Vibe.Decimal.Shortest

/-! Writing numbers: the shortest digits that read back, laid out for different readers. -/

namespace Vibe

/-- The decisions of a number format. -/
structure Layout where
  /-- What stands for infinity; a minus sign goes before it. -/
  infinity : String
  /-- Whether a negative zero keeps its sign. -/
  signedZero : Bool
  /-- Whether a whole number in positional notation ends in a point and a zero. -/
  pointZero : Bool
  /-- Whether a number whose leading digit stands for the given power of ten is written with an
  exponent. -/
  scientific : Int → Bool

namespace Layout

/-- How `say` and `str` write numbers: positionally whatever the size, without a sign at zero. -/
def printed : Layout := ⟨"Infinity", false, false, fun _ => false⟩

/-- How tokens and messages show numbers: positionally whatever the size. -/
def plain : Layout := ⟨"inf", true, false, fun _ => false⟩

/-- How listings of tokens and trees show numbers: always with a point or an exponent, the latter
below 0.0001 and from 10^16 on. -/
def listed : Layout := ⟨"inf", true, true, fun e => e < -4 || 16 ≤ e⟩

/-- Digits with the point after the first `point` of them; zeros fill up where there are none. -/
def positional (pointZero : Bool) (digits : List Char) (point : Int) : List Char :=
  if point ≤ 0 then '0' :: '.' :: List.replicate (-point).toNat '0' ++ digits
  else if point < digits.length then
    digits.take point.toNat ++ '.' :: digits.drop point.toNat
  else
    digits ++ List.replicate (point.toNat - digits.length) '0' ++
      if pointZero then ['.', '0'] else []

/-- Digits with the point after the first one, and the power of ten that the first one
stands for. -/
def withExponent (digits : List Char) (power : Int) : List Char :=
  let mantissa := match digits with
    | c :: d :: ds => c :: '.' :: d :: ds
    | ds => ds
  mantissa ++ 'e' :: (toString power).toList

/-- Writes the magnitude of a finite number. -/
def magnitude (l : Layout) (b : Binary) : List Char :=
  if b.significand = 0 then if l.pointZero then ['0', '.', '0'] else ['0']
  else
    let d := Shortest.ofBinary b
    let digits := Nat.toDigits 10 d.digits
    let point := digits.length + d.exponent
    if l.scientific (point - 1) then withExponent digits (point - 1)
    else positional l.pointZero digits point

/-- Writes a number. -/
def write (l : Layout) (x : Float) : String :=
  match Binary.ofFloat? x with
  | some b =>
    let signed := b.negative && (l.signedZero || b.significand != 0)
    String.ofList (if signed then '-' :: l.magnitude b else l.magnitude b)
  | none => if x.isNaN then "NaN" else if x < 0.0 then "-" ++ l.infinity else l.infinity

end Layout
end Vibe
