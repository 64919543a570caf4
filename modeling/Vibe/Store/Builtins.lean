import Vibe.Store.Printing
import Vibe.Decimal.Numeral
import Vibe.Decimal.Rounding
import Vibe.Error
import Vibe.Text.Blank

/-! What the built-in skills do. -/

namespace Vibe.Builtin

/-- A natural number as a value. -/
def count (n : Nat) : Value :=
  .number (Binary.toFloat ⟨false, n, 0⟩)

/-- The number that a text spells, white space around it aside: a decimal numeral within the range
of numbers. -/
def numberOf? (text : String) : Option Float := do
  let x := (← Numeral.parse? (Text.trim text.toList)).toFloat
  if x.isFinite then some x else none

/-- The functions of one number. -/
def ofNumber? : Builtin → Option (Float → Float)
  | abs => some Float.abs
  | floor => some Rounding.floor
  | ceil => some Rounding.ceil
  | round => some Rounding.halfUp
  | _ => none

/-- The functions of two numbers. -/
def ofNumbers? : Builtin → Option (Float → Float → Float)
  | min => some Rounding.least
  | max => some Rounding.greatest
  | _ => none

/-- Calls a built-in skill: gives its result or says why it fails, and the store afterwards. -/
def call (b : Builtin) (args : List Value) (st : Store) : Except RuntimeCause Value × Store :=
  match b, args with
  | size, [v] => (sizeOf st v, st)
  | push, [.array id, v] => (.ok .null, st.modifyArray id (·.push v))
  | push, [v, _] => (fail ("push() expects an array as first argument, got " ++ v.typeName), st)
  | pop, [.array id] =>
    let last := (st.items id).back?
    (.ok (last.getD .null), st.modifyArray id Array.pop)
  | pop, [v] => (fail ("pop() expects an array, got " ++ v.typeName), st)
  | type, [v] => (.ok (.string v.typeName), st)
  | num, [v] => (asNumber v, st)
  | str, [v] => (.ok (.string (st.print v)), st)
  | random, [] =>
    let (x, dice) := st.dice.roll
    (.ok (.number x), { st with dice })
  | b, [v] =>
    match b.ofNumber?, v with
    | some f, .number x => (.ok (.number (f x)), st)
    | some _, v => (fail (b.name ++ "() expects a number, got " ++ v.typeName), st)
    | none, _ => (.error (.wrongArity b.arity 1), st)
  | b, [v, w] =>
    match b.ofNumbers?, v, w with
    | some f, .number x, .number y => (.ok (.number (f x y)), st)
    | some _, _, _ => (fail (b.name ++ "() expects two numbers"), st)
    | none, _, _ => (.error (.wrongArity b.arity 2), st)
  | b, args => (.error (.wrongArity b.arity args.length), st)
where
  /-- Fails with a message of its own. -/
  fail (message : String) : Except RuntimeCause Value := .error (.builtin message)
  /-- How many items an array has, or characters a text. -/
  sizeOf (st : Store) : Value → Except RuntimeCause Value
    | .array id => .ok (count (st.items id).size)
    | .string s => .ok (count s.length)
    | v => fail ("size() expects an array or string, got " ++ v.typeName)
  /-- A value read as a number. -/
  asNumber : Value → Except RuntimeCause Value
    | .number x => .ok (.number x)
    | .string s =>
      match numberOf? s with
      | some x => .ok (.number x)
      | none => fail ("cannot convert \"" ++ s ++ "\" to number")
    | .bool b => .ok (.number (if b then 1.0 else 0.0))
    | v => fail ("cannot convert " ++ v.typeName ++ " to number")

end Vibe.Builtin
