import Vibe.Syntax

/-! The values that programs compute with. -/

namespace Vibe

/-- The skills that every program starts with. -/
inductive Builtin where
  | size | push | pop | type | num | str | abs | floor | ceil | round | min | max | random
  deriving DecidableEq

namespace Builtin

/-- All of them, in the order in which they are defined. -/
def all : List Builtin :=
  [size, push, pop, type, num, str, abs, floor, ceil, round, min, max, random]

def name : Builtin → String
  | size => "size" | push => "push" | pop => "pop" | type => "type" | num => "num" | str => "str"
  | abs => "abs" | floor => "floor" | ceil => "ceil" | round => "round" | min => "min"
  | max => "max" | random => "random"

/-- How many arguments it takes. -/
def arity : Builtin → Nat
  | random => 0
  | push | min | max => 2
  | _ => 1

end Builtin

/-- A value. Arrays and the skills of programs live in a store and are shared: the value is the
number of the one meant. -/
inductive Value where
  | number (x : Float)
  | string (s : String)
  | bool (b : Bool)
  | null
  | array (id : Nat)
  | skill (id : Nat)
  | builtin (b : Builtin)
  deriving DecidableEq

namespace Value

/-- The name of the kind of value. -/
def typeName : Value → String
  | number _ => "number"
  | string _ => "string"
  | bool _ => "boolean"
  | null => "null"
  | array _ => "array"
  | skill _ | builtin _ => "skill"

/-- The text of one character. -/
def ofChar (c : Char) : Value :=
  string (String.singleton c)

end Value

/-- The value that a literal stands for. -/
def Literal.value : Literal → Value
  | number x => .number x
  | string s => .string s
  | bool b => .bool b
  | null => .null

end Vibe
