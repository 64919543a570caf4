import Vibe.Store
import Vibe.Decimal.Layout
import Vibe.Text.Quoted

/-! How values are written. -/

namespace Vibe.Store

/-- Texts with commas between them. -/
def commaSeparated (texts : List String) : String :=
  ", ".intercalate texts

/-- Writes a value that stands inside the arrays in `within`. An array inside itself is written as
three dots in brackets. The fuel bounds how many more arrays may be entered. -/
def printWithin (st : Store) : (fuel : Nat) → (within : List Nat) → Value → String
  | 0, _, _ => ""
  | _ + 1, _, .number x => Layout.printed.write x
  | _ + 1, _, .string s => s
  | _ + 1, _, .bool b => (if b then Keyword.bet else Keyword.cap).text
  | _ + 1, _, .null => Keyword.null.text
  | n + 1, within, .array id =>
    if within.contains id then "[...]"
    else "[" ++ commaSeparated ((st.items id).toList.map (st.printWithin n (id :: within))) ++ "]"
  | _ + 1, _, .skill id => "<skill " ++ (st.skills[id]?.map Skill.name).getD "" ++ ">"
  | _ + 1, _, .builtin b => "<native skill " ++ b.name ++ ">"

/-- A value as text. Each array is entered at most once on the way to a value. -/
def print (st : Store) : Value → String :=
  st.printWithin (st.arrays.size + 2) []

/-- A value as text, quoted if it is a text itself. -/
def describe (st : Store) : Value → String
  | .string s => Text.quote s
  | v => st.print v

end Vibe.Store
