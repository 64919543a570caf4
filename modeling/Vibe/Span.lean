/-! Places in a program text. -/

namespace Vibe

/-- A place between two characters: the bytes before it, its line, and its column counted in
characters; lines and columns start at one. -/
structure Position where
  offset : Nat := 0
  line : Nat := 1
  column : Nat := 1
  deriving DecidableEq

/-- The place after one more character. -/
def Position.next (p : Position) (c : Char) : Position :=
  if c = '\n' then ⟨p.offset + c.utf8Size, p.line + 1, 1⟩
  else ⟨p.offset + c.utf8Size, p.line, p.column + 1⟩

/-- The place after a run of characters. -/
def Position.after (p : Position) (cs : List Char) : Position :=
  cs.foldl Position.next p

/-- A stretch of a program text: its bytes from `start` up to `stop`, and the line and column
of its start. -/
structure Span where
  start : Nat
  stop : Nat
  line : Nat
  column : Nat
  deriving DecidableEq

/-- The stretch between two places. -/
def Span.between (p q : Position) : Span :=
  ⟨p.offset, q.offset, p.line, p.column⟩

/-- The place of what stands in no text. -/
def Span.nowhere : Span := ⟨0, 0, 1, 1⟩

end Vibe
