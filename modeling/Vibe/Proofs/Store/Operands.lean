import Mathlib.Data.List.Basic
import Vibe.Store.Builtins
import Vibe.Store.Operators

/-! What built-in skills and operators look at. A built-in skill that reads its arguments by their
places finds them all among as many as it takes, and an operator that is taken up in stages is dealt
with in one of them. -/

namespace Vibe

namespace Builtin

/-- Calls a built-in skill that reads its arguments by their places, and comes to nothing where it
reads one that is not there. -/
def callBy (b : Builtin) (arg : Nat → Option Value) (st : Store) :
    Option (Except RuntimeCause Value × Store) :=
  match b with
  | size => do return (call.sizeOf st (← arg 0), st)
  | push => do
    match ← arg 0 with
    | .array id =>
      let v ← arg 1
      return (.ok .null, st.modifyArray id (·.push v))
    | v =>
      return (call.fail ("push() expects an array as first argument, got " ++ v.typeName), st)
  | pop => do
    match ← arg 0 with
    | .array id =>
      return (.ok ((st.items id).back?.getD .null), st.modifyArray id Array.pop)
    | v => return (call.fail ("pop() expects an array, got " ++ v.typeName), st)
  | type => do return (.ok (.string (← arg 0).typeName), st)
  | num => do return (call.asNumber (← arg 0), st)
  | str => do return (.ok (.string (st.print (← arg 0))), st)
  | abs => ofNumber Float.abs
  | floor => ofNumber Rounding.floor
  | ceil => ofNumber Rounding.ceil
  | round => ofNumber Rounding.halfUp
  | min => ofNumbers Rounding.least
  | max => ofNumbers Rounding.greatest
  | random =>
    let (x, dice) := st.dice.roll
    some (.ok (.number x), { st with dice })
where
  /-- A function of one number. -/
  ofNumber (f : Float → Float) : Option (Except RuntimeCause Value × Store) := do
    match ← arg 0 with
    | .number x => return (.ok (.number (f x)), st)
    | v => return (call.fail (b.name ++ "() expects a number, got " ++ v.typeName), st)
  /-- A function of two numbers. -/
  ofNumbers (f : Float → Float → Float) : Option (Except RuntimeCause Value × Store) := do
    match ← arg 0, ← arg 1 with
    | .number x, .number y => return (.ok (.number (f x y)), st)
    | _, _ => return (call.fail (b.name ++ "() expects two numbers"), st)

/-- What is read of as many arguments as a built-in skill takes is there, and what stands behind
them is not read. -/
theorem callBy_eq_call (b : Builtin) {args : List Value} (h : args.length = b.arity)
    (more : List Value) (st : Store) :
    b.callBy (fun i => (args ++ more)[i]?) st = some (b.call args st) := by
  cases b with
  | random =>
    obtain rfl := List.eq_nil_of_length_eq_zero h
    rfl
  | push =>
    obtain ⟨v, w, rfl⟩ := List.length_eq_two.1 h
    cases v <;> rfl
  | min | max =>
    obtain ⟨v, w, rfl⟩ := List.length_eq_two.1 h
    cases v with
    | number x => cases w <;> rfl
    | _ => rfl
  | size | type | num | str =>
    obtain ⟨v, rfl⟩ := List.length_eq_one_iff.1 h
    rfl
  | pop | abs | floor | ceil | round =>
    obtain ⟨v, rfl⟩ := List.length_eq_one_iff.1 h
    cases v <;> rfl

end Builtin

namespace Store

/-- What operators that are for numbers only make of two numbers. -/
def ofNumbers? : BinaryOp → Float → Float → Option (Except RuntimeCause Value)
  | .sub, x, y => some (.ok (.number (x - y)))
  | .mul, x, y => some (.ok (.number (x * y)))
  | .div, x, y => some (if y == 0.0 then .error .divisionByZero else .ok (.number (x / y)))
  | .mod, x, y =>
    some (if y == 0.0 then .error .divisionByZero else .ok (.number (Rounding.remainder x y)))
  | .lt, x, y => some (.ok (.bool (x < y)))
  | .le, x, y => some (.ok (.bool (x ≤ y)))
  | .gt, x, y => some (.ok (.bool (x > y)))
  | .ge, x, y => some (.ok (.bool (x ≥ y)))
  | .add, _, _ | .eq, _, _ | .ne, _, _ => none

/-- Applies a binary operator in stages: those that are not for numbers only come first, then both
operands have to be numbers. It comes to nothing where no stage deals with the operator. -/
def operateInStages (st : Store) (op : BinaryOp) (left right : Value) :
    Option (Except RuntimeCause Value) :=
  match op with
  | .add => some <|
    match left, right with
    | .number x, .number y => .ok (.number (x + y))
    | .string s, v => .ok (.string (s ++ st.print v))
    | v, .string s => .ok (.string (st.print v ++ s))
    | v, w => .error (.cannotAdd v.typeName w.typeName)
  | .eq => some (.ok (.bool (st.equal left right)))
  | .ne => some (.ok (.bool (!st.equal left right)))
  | op =>
    match left, right with
    | .number x, .number y => ofNumbers? op x y
    | _, _ => some (.error (.operandNotNumber op.symbol.text))

/-- Every operator is dealt with. -/
theorem operateInStages_eq_operate (st : Store) (op : BinaryOp) (left right : Value) :
    st.operateInStages op left right = some (st.operate op left right) := by
  cases op with
  | eq | ne => rfl
  | _ =>
    cases left with
    | number x => cases right <;> rfl
    | _ => cases right <;> rfl

end Store
end Vibe
