/-! Random numbers. They come from outside: all that is known of them is their range. -/

namespace Vibe

/-- A number that may be drawn: at least zero and less than one. -/
structure Draw where
  number : Float
  nonnegative : 0 ≤ number
  less : number < 1

/-- The numbers to be drawn, one after the other, and how many of them have been. -/
structure Dice where
  draws : Nat → Draw
  drawn : Nat := 0

instance : OfNat Draw 0 :=
  ⟨⟨0, by decide, by decide⟩⟩

/-- With these dice nothing but zero is drawn. -/
instance : OfNat Dice 0 :=
  ⟨{ draws := fun _ => 0 }⟩

/-- Draws the next number. -/
def Dice.roll (d : Dice) : Float × Dice :=
  ((d.draws d.drawn).number, { d with drawn := d.drawn + 1 })

end Vibe
