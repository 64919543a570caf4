import Vibe.Proofs.Store.Equality
import Vibe.Session

/-! Arrays with the same items. Only NaN tells a copy from the array that it was made of: it differs
from itself, and an array that holds it does not. -/

namespace Vibe

namespace Store

variable {st : Store} {related : Value → Value → Prop} {v w : Value} {a b : Nat}

/-- Two values match item by item: nothing tells them apart but, perhaps, what is inside the arrays
that they are. One array is compared with itself as two arrays are. -/
def MatchesByItems (st : Store) (related : Value → Value → Prop) : Value → Value → Prop
  | .array a, .array b => List.Forall₂ related (st.items a).toList (st.items b).toList
  | v, w => st.Matches (fun _ _ => False) v w

theorem MatchesByItems.mono {related' : Value → Value → Prop}
    (h : ∀ v w, related v w → related' v w) (hm : st.MatchesByItems related v w) :
    st.MatchesByItems related' v w := by
  cases v <;> cases w <;> try exact hm
  case array.array a b => exact List.Forall₂.imp h hm

theorem MatchesByItems.matches (hm : st.MatchesByItems related v w) : st.Matches related v w := by
  cases v <;> cases w <;> try exact hm
  case array.array a b => exact .inr hm

/-- Matching item by item as an operator on relations between values. -/
def matchingByItems (st : Store) : (Value → Value → Prop) →o (Value → Value → Prop) where
  toFun := st.MatchesByItems
  monotone' _ _ h _ _ := MatchesByItems.mono h

/-- The greatest relation under which related values match item by item: comparing by structure
alone, whichever arrays are meant. -/
def Alike (st : Store) : Value → Value → Prop :=
  st.matchingByItems.gfp

/-- NaN can be reached from the value. -/
inductive LeadsToNaN (st : Store) : Value → Prop
  | number {x : Float} (h : x.isNaN = true) : LeadsToNaN st (.number x)
  | item {id : Nat} {v : Value} (hv : v ∈ (st.items id).toList) (h : LeadsToNaN st v) :
      LeadsToNaN st (.array id)

/-- NaN is an item of the array itself. -/
def HoldsNaN (st : Store) (id : Nat) : Prop :=
  ∃ x, .number x ∈ (st.items id).toList ∧ x.isNaN = true

/-! ### Structure alone -/

theorem Alike.dest (h : st.Alike v w) : st.MatchesByItems st.Alike v w := by
  have hfix : st.matchingByItems st.Alike = st.Alike := st.matchingByItems.map_gfp
  change st.matchingByItems st.Alike v w
  rwa [hfix]

theorem Alike.coind (related : Value → Value → Prop)
    (h : ∀ v w, related v w → st.MatchesByItems related v w) (hvw : related v w) :
    st.Alike v w :=
  st.matchingByItems.le_gfp h v w hvw

theorem Alike.same (h : st.Alike v w) : st.Same v w :=
  Same.coind st.Alike (fun _ _ h => h.dest.matches) h

/-- What leads to NaN is like nothing: the way there would have to be gone in the other value
too. -/
theorem LeadsToNaN.not_alike (h : st.LeadsToNaN v) : ¬ st.Alike v w := by
  induction h generalizing w with
  | @number x hx =>
    intro halike
    cases w with
    | number y =>
      have hxy : (x == y) = true := halike.dest
      have hne := (Float.beq_iff_ne_nan_and_eq.1 hxy).1
      rw [Float.isNaN_eq_decide_eq_nan, decide_eq_true_iff] at hx
      exact hne hx
    | _ => exact halike.dest
  | @item id v hv _ ih =>
    intro halike
    cases w with
    | array b =>
      have hitems : List.Forall₂ st.Alike (st.items id).toList (st.items b).toList := halike.dest
      obtain ⟨i, rfl⟩ := List.mem_iff_get.1 hv
      exact ih (hitems.get i.isLt (hitems.length_eq ▸ i.isLt))
    | _ => exact halike.dest

theorem same_self (h : ¬ st.LeadsToNaN v) : st.Same v v := by
  refine .refl fun x hx => ?_
  subst hx
  exact Bool.eq_false_iff.2 fun hnan => h (.number hnan)

/-- Comparing by structure alone finds equal what is equal and does not lead to NaN. Only on the way
to NaN does it matter that an array is equal to itself without a look at its items. -/
theorem alike_iff : st.Alike v w ↔ st.Same v w ∧ ¬ st.LeadsToNaN v := by
  constructor
  · exact fun h => ⟨h.same, fun hnan => hnan.not_alike h⟩
  · rintro ⟨hsame, hnan⟩
    refine Alike.coind (fun v w => ¬ st.LeadsToNaN v ∧ st.Same v w) ?_ ⟨hnan, hsame⟩
    rintro v w ⟨hnan, hsame⟩
    have hm := hsame.dest
    cases v <;> cases w <;> try exact hm
    case array.array a b =>
      have hitem : ∀ v ∈ (st.items a).toList, ¬ st.LeadsToNaN v :=
        fun v hv h => hnan (.item hv h)
      rcases hm with rfl | hitems
      · exact List.forall₂_same.2 fun v hv => ⟨hitem v hv, same_self (hitem v hv)⟩
      · exact (List.forall₂_and_left _ _).2 ⟨hitem, hitems⟩

/-! ### Copies -/

theorem same_array_iff (hne : a ≠ b) : st.Same (.array a) (.array b) ↔
    List.Forall₂ st.Same (st.items a).toList (st.items b).toList :=
  ⟨fun h => h.dest.resolve_left hne, fun h => .of_matches (.inr h)⟩

/-- Only if NaN is one of them do the items of an array tell it from itself: the arrays among them
are equal to themselves. -/
theorem same_items_iff : List.Forall₂ st.Same (st.items a).toList (st.items a).toList ↔
    ¬ st.HoldsNaN a := by
  rw [List.forall₂_same]
  constructor
  · rintro h ⟨x, hx, hnan⟩
    have hxx : (x == x) = true := (h _ hx).dest
    rw [Float.isNaN_eq_decide_eq_nan, decide_eq_true_iff] at hnan
    exact Float.beq_self_iff.1 hxx hnan
  · intro h v hv
    refine .refl fun x hx => ?_
    subst hx
    exact Bool.eq_false_iff.2 fun hnan => h ⟨x, hv, hnan⟩

theorem same_copy_iff (hne : a ≠ b) (hitems : st.items a = st.items b) :
    st.Same (.array b) (.array a) ↔ ¬ st.HoldsNaN a := by
  rw [same_array_iff hne.symm, ← hitems, same_items_iff]

/-- What is neither of two arrays with the same items is equal to one exactly if it is to the
other. -/
theorem same_copy_other (ha : v ≠ .array a) (hb : v ≠ .array b)
    (hitems : st.items a = st.items b) : st.Same (.array b) v ↔ st.Same (.array a) v := by
  cases v with
  | array c =>
    have hac : a ≠ c := fun h => ha (h ▸ rfl)
    have hbc : b ≠ c := fun h => hb (h ▸ rfl)
    rw [same_array_iff hac, same_array_iff hbc, hitems]
  | _ => exact ⟨fun h => h.dest.elim, fun h => h.dest.elim⟩

theorem same_array_self (a : Nat) : st.Same (.array a) (.array a) :=
  .refl nofun

/-- Two arrays with the same items are equal to the same values, except that one that holds NaN is
equal to itself and not to the other. -/
theorem same_copy (hne : a ≠ b) (hitems : st.items a = st.items b) :
    (st.Same (.array b) v ↔ st.Same (.array a) v) ↔
      (v = .array a ∨ v = .array b → ¬ st.HoldsNaN a) := by
  by_cases ha : v = .array a
  · subst ha
    simp [same_copy_iff hne hitems, same_array_self]
  by_cases hb : v = .array b
  · subst hb
    have hswap : st.Same (.array a) (.array b) ↔ ¬ st.HoldsNaN a :=
      ⟨fun h => (same_copy_iff hne hitems).1 h.symm, fun h => ((same_copy_iff hne hitems).2 h).symm⟩
    simp [hswap, same_array_self]
  · simp [ha, hb, same_copy_other ha hb hitems]

theorem equal_comm (st : Store) (v w : Value) : st.equal v w = st.equal w v := by
  rw [Bool.eq_iff_iff, equal_eq_true_iff, equal_eq_true_iff]
  exact ⟨Same.symm, Same.symm⟩

/-- Equality sees the items of arrays only, apart from NaN. Two arrays with the same items, of which
one may be a new copy of the other, are equal to the same values on either side; only when one of
the two is the value that they are compared with does NaN among its items make a difference. And
what is equal is equal by structure alone, unless NaN can be reached from it. -/
theorem equal_structural (st : Store) :
    (∀ a b, a ≠ b → st.items a = st.items b → ∀ v,
      (st.equal (.array b) v = st.equal (.array a) v ↔
        (v = .array a ∨ v = .array b → ¬ st.HoldsNaN a)) ∧
      (st.equal v (.array b) = st.equal v (.array a) ↔
        (v = .array a ∨ v = .array b → ¬ st.HoldsNaN a))) ∧
    ∀ v w, st.matchingByItems.gfp v w ↔ st.equal v w = true ∧ ¬ st.LeadsToNaN v := by
  constructor
  · intro a b hne hitems v
    have hcopy : st.equal (.array b) v = st.equal (.array a) v ↔
        (v = .array a ∨ v = .array b → ¬ st.HoldsNaN a) := by
      rw [Bool.eq_iff_iff, equal_eq_true_iff, equal_eq_true_iff]
      exact same_copy hne hitems
    rw [equal_comm st v, equal_comm st v]
    exact ⟨hcopy, hcopy⟩
  · intro v w
    rw [equal_eq_true_iff]
    exact alike_iff

/-- Arrays that hold themselves and each other, and a copy of the first one. -/
def doubled : Store :=
  (knot.newArray (knot.items 0)).2

theorem doubled_not_leadsToNaN (h : doubled.LeadsToNaN v) : ∃ x, v = .number x := by
  induction h with
  | @number x _ => exact ⟨x, rfl⟩
  | @item id v hv _ ih =>
    obtain ⟨x, rfl⟩ := ih
    match id with
    | 0 | 1 | 2 | 3 => simp [doubled, knot, newArray, items] at hv
    | id + 4 => simp [doubled, knot, newArray, items] at hv

theorem equal_structural_doubled :
    (knot.newArray (knot.items 0)).1 = .array 3 ∧ doubled.items 0 = doubled.items 3 ∧
    doubled.equal (.array 3) (.array 0) = doubled.equal (.array 0) (.array 0) ∧
    doubled.equal (.array 0) (.array 3) = doubled.equal (.array 0) (.array 0) ∧
    doubled.matchingByItems.gfp (.array 3) (.array 0) := by
  obtain ⟨hcopies, hstructure⟩ := doubled.equal_structural
  have hitems : doubled.items 0 = doubled.items 3 := by decide
  have hnone : ¬ doubled.HoldsNaN 0 := by
    rintro ⟨x, hx, -⟩
    simp [doubled, knot, newArray, items] at hx
  have hleads : ¬ doubled.LeadsToNaN (.array 3) := by
    intro h
    obtain ⟨x, hx⟩ := doubled_not_leadsToNaN h
    cases hx
  obtain ⟨hleft, hright⟩ := hcopies 0 3 (by decide) hitems (.array 0)
  exact ⟨rfl, hitems, hleft.2 fun _ => hnone, hright.2 fun _ => hnone,
    (hstructure _ _).2 ⟨by decide, hleads⟩⟩

/-- `[NaN]`, and a copy of it. -/
def copied : Store :=
  (Store.newArray #[.number Float.nan] { arrays := #[#[.number Float.nan]] }).2

/-- A number grows beyond all range, so that its difference from itself is NaN. -/
def copying : String :=
  "hold x = 9999999999999999 keep (x - x == 0) x = x * x " ++
    "hold a = [x - x] say a == a say [x - x] == a"

/-- An array that holds NaN is equal to itself, although its items are not, and its copy is not
equal to it. -/
theorem equal_copied : copied.items 1 = copied.items 0 ∧
    copied.equal (.array 1) (.array 0) ≠ copied.equal (.array 0) (.array 0) ∧
    copied.equal (.array 0) (.array 0) = true ∧
    ¬ copied.matchingByItems.gfp (.array 0) (.array 0) ∧
    (execute copying {} 0).1 = ["bet", "cap"] := by
  have hitem : .number Float.nan ∈ (copied.items 0).toList := by decide
  have hleads : copied.LeadsToNaN (.array 0) := .item hitem (.number (by decide))
  exact ⟨rfl, by decide, by decide, hleads.not_alike, by decide +kernel⟩

end Store

end Vibe
