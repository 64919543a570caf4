import Vibe.Store

/-! Equality of values. Arrays are equal when their items are, and arrays may contain themselves. -/

namespace Vibe.Store

/-- Whether two lists of equal length have related items in every place. -/
def allPairs (related : Value → Value → Bool) : List Value → List Value → Bool
  | x :: xs, y :: ys => related x y && allPairs related xs ys
  | [], [] => true
  | _, _ => false

/-- Compares two values while the pairs of arrays in `pending` are being compared. Such a pair
counts as equal, since a difference would be found where the comparison of it goes on. The fuel
bounds how many more pairs may become pending. -/
def equalWithin (st : Store) : (fuel : Nat) → (pending : List (Nat × Nat)) → Value → Value → Bool
  | 0, _, _, _ => true
  | _ + 1, _, .number x, .number y => x == y
  | _ + 1, _, .string s, .string t => s == t
  | _ + 1, _, .bool a, .bool b => a == b
  | _ + 1, _, .null, .null => true
  | n + 1, pending, .array a, .array b =>
    a == b || pending.contains (a, b) ||
      ((st.items a).size == (st.items b).size &&
        allPairs (st.equalWithin n ((a, b) :: pending)) (st.items a).toList (st.items b).toList)
  | _ + 1, _, .skill a, .skill b => a == b
  | _ + 1, _, .builtin a, .builtin b => a == b
  | _ + 1, _, _, _ => false

/-- Whether two values are equal. No more pairs can be pending than there are pairs of arrays. -/
def equal (st : Store) : Value → Value → Bool :=
  st.equalWithin (st.arrays.size * st.arrays.size + 2) []

end Vibe.Store
