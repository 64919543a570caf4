/-! Cutting a text into lines. -/

namespace Vibe.Text

/-- Cuts a text after every line feed; what follows the last line feed is a piece if it is
not empty. -/
def pieces (cs : List Char) : List (List Char) :=
  cs.foldr (fun c ps =>
    if c = '\n' then [c] :: ps
    else match ps with
      | [] => [[c]]
      | p :: ps => (c :: p) :: ps) []

/-- Nothing is lost by cutting. -/
theorem flatten_pieces (cs : List Char) : (pieces cs).flatten = cs := by
  induction cs with
  | nil => rfl
  | cons c cs ih =>
    simp only [pieces, List.foldr_cons] at ih ⊢
    split
    · simp [ih]
    · split <;> simp_all

/-- A piece without its line ending: a line feed, or a carriage return and a line feed. A carriage
return that no line feed follows belongs to the line. -/
def withoutEnding (p : List Char) : List Char :=
  match p.reverse with
  | '\n' :: '\r' :: r => r.reverse
  | '\n' :: r => r.reverse
  | _ => p

/-- A piece without any line feeds and carriage returns at its end. -/
def withoutEndings (p : List Char) : List Char :=
  (p.reverse.dropWhile fun c => c = '\n' || c = '\r').reverse

/-- The line with the given number, counted from one, without its ending. -/
def line? (s : String) (number : Nat) : Option String :=
  if number = 0 then none
  else (pieces s.toList)[number - 1]?.map fun p => String.ofList (withoutEnding p)

end Vibe.Text
