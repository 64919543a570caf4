import Vibe.Dice
import Vibe.Value

/-! The store: the scopes, arrays and skills that values and other scopes refer to by number. -/

namespace Vibe

/-- A name with its value, and whether it may be assigned to. -/
structure Binding where
  name : String
  value : Value
  binder : Binder

/-- The bindings of one region of a program, each name once and in the order of definition, and
the scope around it. The root scope has none around it. -/
structure Scope where
  bindings : List Binding := []
  parent : Option Nat := none
  distinct : (bindings.map Binding.name).Nodup := by exact List.nodup_nil

/-- A skill of a program and the scope that it was defined in. -/
structure Skill where
  name : String
  params : List String
  body : List Stmt
  home : Nat

/-- All scopes, arrays and skills, numbered in the order of their creation, and the dice that
random numbers are drawn with. -/
structure Store where
  scopes : Array Scope := #[]
  arrays : Array (Array Value) := #[]
  skills : Array Skill := #[]
  dice : Dice := 0

namespace Store

/-- The items of an array. -/
def items (st : Store) (id : Nat) : Array Value :=
  st.arrays[id]?.getD #[]

/-- Makes a new array. -/
def newArray (items : Array Value) (st : Store) : Value × Store :=
  (.array st.arrays.size, { st with arrays := st.arrays.push items })

/-- Changes the items of an array. -/
@[inline] def modifyArray (id : Nat) (change : Array Value → Array Value) (st : Store) : Store :=
  { st with arrays := st.arrays.modify id change }

/-- Makes a new skill. -/
def newSkill (s : Skill) (st : Store) : Value × Store :=
  (.skill st.skills.size, { st with skills := st.skills.push s })

/-- Makes a new scope. -/
def newScope (parent : Option Nat) (st : Store) : Nat × Store :=
  (st.scopes.size, { st with scopes := st.scopes.push { parent } })

/-- How many arguments a value takes when it is called, if it can be. -/
def arity? (st : Store) : Value → Option Nat
  | .skill id => st.skills[id]?.map (·.params.length)
  | .builtin b => some b.arity
  | _ => none

/-- Whether a value counts as true in a condition. -/
def truthy (st : Store) : Value → Bool
  | .null => false
  | .bool b => b
  | .number x => x != 0.0
  | .string s => !s.isEmpty
  | .array id => !(st.items id).isEmpty
  | .skill _ | .builtin _ => true

end Store
end Vibe
