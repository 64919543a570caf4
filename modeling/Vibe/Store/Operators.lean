import Vibe.Store.Equality
import Vibe.Store.Printing
import Vibe.Decimal.Rounding
import Vibe.Error

/-! What operators and indexing make of values. -/

namespace Vibe.Store

/-- Applies a binary operator. -/
def operate (st : Store) (op : BinaryOp) (left right : Value) : Except RuntimeCause Value :=
  match op, left, right with
  | .add, .number x, .number y => .ok (.number (x + y))
  | .add, .string s, v => .ok (.string (s ++ st.print v))
  | .add, v, .string s => .ok (.string (st.print v ++ s))
  | .add, v, w => .error (.cannotAdd v.typeName w.typeName)
  | .eq, v, w => .ok (.bool (st.equal v w))
  | .ne, v, w => .ok (.bool (!st.equal v w))
  | .sub, .number x, .number y => .ok (.number (x - y))
  | .mul, .number x, .number y => .ok (.number (x * y))
  | .div, .number x, .number y =>
    if y == 0.0 then .error .divisionByZero else .ok (.number (x / y))
  | .mod, .number x, .number y =>
    if y == 0.0 then .error .divisionByZero else .ok (.number (Rounding.remainder x y))
  | .lt, .number x, .number y => .ok (.bool (x < y))
  | .le, .number x, .number y => .ok (.bool (x ≤ y))
  | .gt, .number x, .number y => .ok (.bool (x > y))
  | .ge, .number x, .number y => .ok (.bool (x ≥ y))
  | op, _, _ => .error (.operandNotNumber op.symbol.text)

/-- Applies a sign. -/
def operateUnary (st : Store) (op : UnaryOp) (operand : Value) : Except RuntimeCause Value :=
  match op, operand with
  | .neg, .number x => .ok (.number (-x))
  | .neg, _ => .error (.operandNotNumber Symbol.minus.text)
  | .not, v => .ok (.bool (!st.truthy v))

/-- The place that an index means: the floor of a number that is not negative. -/
def position (index : Value) : Except RuntimeCause (Option Nat) :=
  match index with
  | .number x => .ok (Rounding.floorNat? x)
  | v => .error (.indexNotNumber v.typeName)

/-- The item of an array or the character of a text at an index; `null` where there is none. -/
def index (st : Store) (object index : Value) : Except RuntimeCause Value :=
  match object with
  | .array id => do
    return (← position index).bind ((st.items id)[·]?) |>.getD .null
  | .string s => do
    return (← position index).bind (s.toList[·]?) |>.map Value.ofChar |>.getD .null
  | v => .error (.cannotIndex v.typeName)

/-- The values that a loop over the items of a value runs through. -/
def sweepItems (st : Store) (v : Value) : Except RuntimeCause (List Value) :=
  match v with
  | .array id => .ok (st.items id).toList
  | .string s => .ok (s.toList.map Value.ofChar)
  | v => .error (.cannotIterate v.typeName)

end Vibe.Store
