import Mathlib
import Vibe.Store.Equality

/-! Equality on heaps with sharing and cycles: comparing two values comes to an end, and exactly
those are found equal that the greatest relation of its kind relates. -/

namespace Vibe

/-- The name of a built-in skill tells which one it is. -/
theorem Builtin.find?_name (b : Builtin) : all.find? (·.name == b.name) = some b := by
  cases b <;> decide

theorem Builtin.name_inj {a b : Builtin} : a.name = b.name ↔ a = b := by
  constructor
  · intro h
    have ha := a.find?_name
    rw [h, b.find?_name] at ha
    exact (Option.some.inj ha).symm
  · rintro rfl
    rfl

namespace Store

variable {st : Store} {related : Value → Value → Prop} {pending : List (Nat × Nat)}
  {u v w : Value} {r : Bool}

/-- Two values match when nothing tells them apart but, perhaps, what is inside the arrays that they
are: the items have to be related place by place, unless it is one array. -/
def Matches (st : Store) (related : Value → Value → Prop) : Value → Value → Prop
  | .number x, .number y => (x == y) = true
  | .string s, .string t => s = t
  | .bool a, .bool b => a = b
  | .null, .null => True
  | .array a, .array b => a = b ∨ List.Forall₂ related (st.items a).toList (st.items b).toList
  | .skill a, .skill b => a = b
  | .builtin a, .builtin b => a.name = b.name
  | _, _ => False

theorem Matches.mono {related' : Value → Value → Prop} (h : ∀ v w, related v w → related' v w)
    (hm : st.Matches related v w) : st.Matches related' v w := by
  cases v <;> cases w <;> try exact hm
  case array.array a b =>
    rcases hm with rfl | hitems
    · exact .inl rfl
    · exact .inr (hitems.imp h)

theorem Matches.symm (hm : st.Matches related v w) :
    st.Matches (fun v w => related w v) w v := by
  cases v <;> cases w <;> try exact hm.elim
  case number.number x y => exact BEq.symm hm
  case array.array a b =>
    rcases hm with rfl | hitems
    · exact .inl rfl
    · exact .inr hitems.flip
  all_goals simp_all [Matches]

/-- Matching as an operator on relations between values. -/
def matching (st : Store) : (Value → Value → Prop) →o (Value → Value → Prop) where
  toFun := st.Matches
  monotone' _ _ h _ _ := Matches.mono h

/-- The greatest relation under which related values match. -/
def Same (st : Store) : Value → Value → Prop :=
  st.matching.gfp

/-! ### The greatest relation -/

theorem Same.dest (h : st.Same v w) : st.Matches st.Same v w := by
  have hfix : st.matching st.Same = st.Same := st.matching.map_gfp
  change st.matching st.Same v w
  rwa [hfix]

theorem Same.of_matches (h : st.Matches st.Same v w) : st.Same v w := by
  have hfix : st.matching st.Same = st.Same := st.matching.map_gfp
  rw [← hfix]
  exact h

/-- What is related by any relation under which related values match is the same. -/
theorem Same.coind (related : Value → Value → Prop)
    (h : ∀ v w, related v w → st.Matches related v w) (hvw : related v w) : st.Same v w :=
  st.matching.le_gfp h v w hvw

theorem Same.symm (h : st.Same v w) : st.Same w v :=
  Same.coind (fun v w => st.Same w v) (fun _ _ h => h.dest.symm) h

theorem forall₂_comp {α : Type} {R S : α → α → Prop} {as bs cs : List α}
    (h : List.Forall₂ R as bs) (h' : List.Forall₂ S bs cs) :
    List.Forall₂ (fun a c => ∃ b, R a b ∧ S b c) as cs := by
  induction h generalizing cs with
  | nil =>
    cases h'
    exact .nil
  | cons hab _ ih =>
    cases h' with
    | cons hbc h' => exact .cons ⟨_, hab, hbc⟩ (ih h')

/-- Matching in two steps. Where one of them stays with one array, the other is all there is. -/
theorem Matches.comp {related' : Value → Value → Prop} (h : st.Matches related u v)
    (h' : st.Matches related' v w) :
    st.Matches (fun u w => related u w ∨ related' u w ∨ ∃ v, related u v ∧ related' v w) u w := by
  cases u <;> cases v <;> (try exact h.elim) <;> cases w <;> try exact h'.elim
  case number.number.number x y z => exact BEq.trans h h'
  case array.array.array a b c =>
    rcases h with rfl | h
    · exact h'.mono fun _ _ hr => .inr (.inl hr)
    rcases h' with rfl | h'
    · exact .inr (h.imp fun _ _ hr => .inl hr)
    · exact .inr ((forall₂_comp h h').imp fun _ _ hr => .inr (.inr hr))
  case null.null.null => trivial
  all_goals exact Eq.trans h h'

theorem Same.trans (h : st.Same u v) (h' : st.Same v w) : st.Same u w := by
  let steps : Value → Value → Prop := fun u w => st.Same u w ∨ ∃ v, st.Same u v ∧ st.Same v w
  refine Same.coind steps ?_ (.inr ⟨v, h, h'⟩)
  rintro u w (h | ⟨v, h, h'⟩)
  · exact h.dest.mono fun _ _ => .inl
  · refine (h.dest.comp h'.dest).mono ?_
    rintro u w (h | h | h)
    · exact .inl h
    · exact .inl h
    · exact .inr h

/-- Only a number that is no number is not the same as itself. -/
theorem Same.refl (h : ∀ x, v = .number x → x.isNaN = false) : st.Same v v := by
  apply Same.of_matches
  cases v with
  | number x =>
    have hx := h x rfl
    rw [Float.isNaN_eq_decide_eq_nan, decide_eq_false_iff_not] at hx
    exact Float.beq_self_iff.2 hx
  | array a => exact .inl rfl
  | null => trivial
  | _ => rfl

/-! ### Comparisons without a bound -/

mutual

/-- How two values are compared while the pairs in `pending` are, and what comes of it. As many
pairs as need be may become pending, so a comparison that does not come to an end has no result. -/
inductive Compares (st : Store) : List (Nat × Nat) → Value → Value → Bool → Prop
  | atOnce {pending : List (Nat × Nat)} {v w : Value} {r : Bool}
      (flat : ∀ a b, v = .array a → w ≠ .array b)
      (hr : r = true ↔ st.Matches (fun _ _ => False) v w) : Compares st pending v w r
  | known {pending : List (Nat × Nat)} {a b : Nat} (h : a = b ∨ (a, b) ∈ pending) :
      Compares st pending (.array a) (.array b) true
  | sizes {pending : List (Nat × Nat)} {a b : Nat} (new : ¬ (a = b ∨ (a, b) ∈ pending))
      (hsize : (st.items a).size ≠ (st.items b).size) :
      Compares st pending (.array a) (.array b) false
  | items {pending : List (Nat × Nat)} {a b : Nat} {r : Bool} (new : ¬ (a = b ∨ (a, b) ∈ pending))
      (hsize : (st.items a).size = (st.items b).size)
      (h : ComparesAll st ((a, b) :: pending) (st.items a).toList (st.items b).toList r) :
      Compares st pending (.array a) (.array b) r

/-- How two lists of one length are compared, up to the first difference. -/
inductive ComparesAll (st : Store) : List (Nat × Nat) → List Value → List Value → Bool → Prop
  | nil {pending : List (Nat × Nat)} : ComparesAll st pending [] [] true
  | stop {pending : List (Nat × Nat)} {v w : Value} {vs ws : List Value}
      (h : Compares st pending v w false) : ComparesAll st pending (v :: vs) (w :: ws) false
  | next {pending : List (Nat × Nat)} {v w : Value} {vs ws : List Value} {r : Bool}
      (h : Compares st pending v w true) (hs : ComparesAll st pending vs ws r) :
      ComparesAll st pending (v :: vs) (w :: ws) r

end

/-- The pairs in a comparison: different ones of arrays that there are. -/
structure Pending (st : Store) (pending : List (Nat × Nat)) : Prop where
  nodup : pending.Nodup
  bounded : ∀ p ∈ pending, p.1 < st.arrays.size ∧ p.2 < st.arrays.size

theorem Pending.length_le (h : st.Pending pending) :
    pending.length ≤ st.arrays.size * st.arrays.size := by
  have hsub : pending.toFinset ⊆
      Finset.range st.arrays.size ×ˢ Finset.range st.arrays.size := by
    intro p hp
    have hb := h.bounded p (List.mem_toFinset.1 hp)
    simp [hb]
  have hcard := Finset.card_le_card hsub
  rwa [List.toFinset_card_of_nodup h.nodup, Finset.card_product, Finset.card_range] at hcard

/-- An array with something in it is one that there is. -/
theorem lt_size_of_mem_items {a : Nat} (h : v ∈ (st.items a).toList) : a < st.arrays.size := by
  by_contra hlt
  rw [items, Array.getElem?_eq_none (Nat.le_of_not_lt hlt)] at h
  simp at h

theorem comparesAll_iff {compare : Value → Value → Bool} {vs ws : List Value}
    (hlen : vs.length = ws.length)
    (h : ∀ v ∈ vs, ∀ w ∈ ws, ∀ r, st.Compares pending v w r ↔ r = compare v w) (r : Bool) :
    st.ComparesAll pending vs ws r ↔ r = allPairs compare vs ws := by
  induction vs generalizing ws r with
  | nil =>
    cases ws with
    | nil =>
      constructor
      · rintro ⟨⟩
        rfl
      · rintro rfl
        exact .nil
    | cons w ws => simp at hlen
  | cons v vs ih =>
    cases ws with
    | nil => simp at hlen
    | cons w ws =>
      have hhead := h v (by simp) w (by simp)
      have htail := @ih ws (by simpa using hlen) fun v hv w hw =>
        h v (by simp [hv]) w (by simp [hw])
      change _ ↔ r = (compare v w && allPairs compare vs ws)
      constructor
      · rintro (_ | hfalse | ⟨htrue, hs⟩)
        · simp [← (hhead false).1 hfalse]
        · simpa [← (hhead true).1 htrue] using (htail r).1 hs
      · rintro rfl
        cases hr : compare v w with
        | false => exact .stop ((hhead false).2 hr.symm)
        | true =>
          rw [Bool.true_and]
          exact .next ((hhead true).2 hr.symm) ((htail _).2 rfl)

theorem compares_iff_of_flat {r' : Bool} (flat : ∀ a b, v = .array a → w ≠ .array b)
    (h : r' = true ↔ st.Matches (fun _ _ => False) v w) : st.Compares pending v w r ↔ r = r' := by
  constructor
  · intro hc
    cases hc with
    | atOnce _ hr => exact Bool.eq_iff_iff.2 (hr.trans h.symm)
    | known | sizes | items => exact (flat _ _ rfl rfl).elim
  · rintro rfl
    exact .atOnce flat h

theorem compares_array_iff {compare : Value → Value → Bool} {a b : Nat}
    (h : (a, b) ∉ pending → ∀ v ∈ (st.items a).toList, ∀ w ∈ (st.items b).toList, ∀ r,
      st.Compares ((a, b) :: pending) v w r ↔ r = compare v w) :
    st.Compares pending (.array a) (.array b) r ↔
      r = (a == b || pending.contains (a, b) || ((st.items a).size == (st.items b).size &&
        allPairs compare (st.items a).toList (st.items b).toList)) := by
  by_cases hknown : a = b ∨ (a, b) ∈ pending
  · have htrue : (a == b || pending.contains (a, b)) = true := by simpa using hknown
    rw [htrue, Bool.true_or]
    constructor
    · intro hc
      cases hc with
      | atOnce flat => exact (flat _ _ rfl rfl).elim
      | known => rfl
      | sizes new | items new => exact (new hknown).elim
    · rintro rfl
      exact .known hknown
  have hfalse : (a == b || pending.contains (a, b)) = false := by simpa using hknown
  rw [hfalse, Bool.false_or]
  by_cases hsize : (st.items a).size = (st.items b).size
  · have hall := comparesAll_iff (by simpa using hsize) (h fun hm => hknown (.inr hm)) r
    rw [beq_iff_eq.2 hsize, Bool.true_and, ← hall]
    constructor
    · intro hc
      cases hc with
      | atOnce flat => exact (flat _ _ rfl rfl).elim
      | known h => exact (hknown h).elim
      | sizes _ hne => exact (hne hsize).elim
      | items _ _ hitems => exact hitems
    · exact .items hknown hsize
  · rw [beq_false_of_ne hsize, Bool.false_and]
    constructor
    · intro hc
      cases hc with
      | atOnce flat => exact (flat _ _ rfl rfl).elim
      | known h => exact (hknown h).elim
      | sizes => rfl
      | items _ heq => exact (hsize heq).elim
    · rintro rfl
      exact .sizes hknown hsize

/-- With enough fuel the bound is not reached: a comparison without it has the same result, and no
other. -/
theorem compares_iff (n : Nat) (h : st.Pending pending)
    (hn : st.arrays.size * st.arrays.size + 1 < n + pending.length) :
    st.Compares pending v w r ↔ r = st.equalWithin n pending v w := by
  induction n generalizing pending v w r with
  | zero =>
    have hlen := h.length_le
    omega
  | succ n ih =>
    cases v <;> cases w
    case array.array a b =>
      apply compares_array_iff
      intro new v hv w hw r
      refine ih ⟨List.nodup_cons.2 ⟨new, h.nodup⟩, ?_⟩ ?_
      · intro p hp
        rcases List.mem_cons.1 hp with rfl | hp
        · exact ⟨lt_size_of_mem_items hv, lt_size_of_mem_items hw⟩
        · exact h.bounded p hp
      · rw [List.length_cons]
        omega
    case builtin.builtin a b =>
      exact compares_iff_of_flat (by simp) (by simp [equalWithin, Matches, Builtin.name_inj])
    all_goals exact compares_iff_of_flat (by simp) (by simp [equalWithin, Matches])

/-- Where lists with related items are found different there is a pair of items found so. -/
theorem exists_of_allPairs_eq_false {compare : Value → Value → Bool} {vs ws : List Value}
    (h : List.Forall₂ related vs ws) (hfalse : allPairs compare vs ws = false) :
    ∃ v w, related v w ∧ compare v w = false := by
  induction h with
  | nil => cases hfalse
  | @cons v w _ _ hvw _ ih =>
    rcases Bool.and_eq_false_iff.1 hfalse with hhead | htail
    · exact ⟨v, w, hvw, hhead⟩
    · exact ih htail

/-- What is found different is not the same. -/
theorem not_same_of_equalWithin (n : Nat) (h : st.equalWithin n pending v w = false) :
    ¬ st.Same v w := by
  induction n generalizing pending v w with
  | zero => cases h
  | succ n ih =>
    intro hsame
    have hm := hsame.dest
    cases v <;> cases w <;> try exact hm.elim
    case array.array a b =>
      rcases hm with rfl | hitems
      · simp [equalWithin] at h
      have hsize : (st.items a).size = (st.items b).size := by
        simpa using hitems.length_eq
      have hall : allPairs (st.equalWithin n ((a, b) :: pending)) (st.items a).toList
          (st.items b).toList = false := by
        simp only [equalWithin, Bool.or_eq_false_iff] at h
        simpa [hsize] using h.2
      obtain ⟨v, w, hvw, hfalse⟩ := exists_of_allPairs_eq_false hitems hall
      exact ih hfalse hvw
    case builtin.builtin a b => simp_all [equalWithin, Matches, Builtin.name_inj]
    all_goals simp_all [equalWithin, Matches]

/-- How far two values match when arrays are entered at most so often. -/
def SameTo (st : Store) : Nat → Value → Value → Prop
  | 0 => fun _ _ => True
  | n + 1 => st.Matches (st.SameTo n)

theorem SameTo.pred {n : Nat} (h : st.SameTo (n + 1) v w) : st.SameTo n v w := by
  induction n generalizing v w with
  | zero => trivial
  | succ n ih => exact Matches.mono (fun _ _ => ih) h

theorem forall₂_of_comparesAll {vs ws : List Value} (h : st.ComparesAll pending vs ws true)
    (hr : ∀ v w, st.Compares pending v w true → related v w) : List.Forall₂ related vs ws := by
  induction vs generalizing ws with
  | nil =>
    cases h
    exact .nil
  | cons v vs ih =>
    cases h with
    | next hhead htail => exact .cons (hr _ _ hhead) (ih htail)

/-- What is found equal matches as far as the pairs in comparison do. Where the pair of two arrays
becomes pending, it is enough that they match one array less deep, which they do by induction. -/
theorem sameTo_of_compares (n : Nat) (h : st.Compares pending v w true)
    (hp : ∀ p ∈ pending, st.SameTo n (.array p.1) (.array p.2)) : st.SameTo n v w := by
  induction n generalizing pending v w with
  | zero => trivial
  | succ n ih =>
    have hp' : ∀ p ∈ pending, st.SameTo n (.array p.1) (.array p.2) := fun p hm => (hp p hm).pred
    have hvw := ih h hp'
    cases h with
    | atOnce _ hr => exact (hr.1 rfl).mono fun _ _ => False.elim
    | known h =>
      rcases h with rfl | hm
      · exact .inl rfl
      · exact hp _ hm
    | items _ _ hitems =>
      refine .inr (forall₂_of_comparesAll hitems fun v w h => ih h ?_)
      intro p hm
      rcases List.mem_cons.1 hm with rfl | hm
      · exact hvw
      · exact hp' p hm

/-- What matches however deep one looks is the same. -/
theorem same_of_sameTo (h : ∀ n, st.SameTo n v w) : st.Same v w := by
  refine Same.coind (fun v w => ∀ n, st.SameTo n v w) ?_ h
  intro v w h
  have hm : ∀ n, st.Matches (st.SameTo n) v w := fun n => h (n + 1)
  cases v <;> cases w <;> try exact hm 0
  case array.array a b =>
    by_cases hab : a = b
    · exact .inl hab
    have hitems : ∀ n, List.Forall₂ (st.SameTo n) (st.items a).toList (st.items b).toList :=
      fun n => (hm n).resolve_left hab
    refine .inr (List.forall₂_iff_get.2 ⟨(hitems 0).length_eq, ?_⟩)
    intro i hi hi' n
    exact (hitems n).get hi hi'

theorem compares_iff_eq_equal : st.Compares [] v w r ↔ r = st.equal v w :=
  compares_iff _ ⟨.nil, by simp⟩ (by simp)

theorem equal_eq_true_iff : st.equal v w = true ↔ st.Same v w := by
  constructor
  · intro h
    have hc := compares_iff_eq_equal.2 h.symm
    exact same_of_sameTo fun n => sameTo_of_compares n hc (by simp)
  · intro h
    cases hr : st.equal v w with
    | true => rfl
    | false => exact (not_same_of_equalWithin _ hr h).elim

/-- On every heap, comparing two values comes to an end, and finds them equal exactly if they are
related by the greatest relation under which related values match. So equality is symmetric and
transitive, and every value but NaN is equal to itself. -/
theorem equal_exact (st : Store) :
    (∀ v w r, st.Compares [] v w r ↔ r = st.equal v w) ∧
    (∀ v w, st.equal v w = true ↔ st.matching.gfp v w) ∧
    (∀ v w, st.equal v w = st.equal w v) ∧
    (∀ u v w, st.equal u v = true → st.equal v w = true → st.equal u w = true) ∧
    ∀ v, (∀ x, v = .number x → x.isNaN = false) → st.equal v v = true := by
  refine ⟨fun v w r => compares_iff_eq_equal, fun v w => equal_eq_true_iff, fun v w => ?_,
    fun u v w h h' => ?_, fun v h => equal_eq_true_iff.2 (.refl h)⟩
  · rw [Bool.eq_iff_iff, equal_eq_true_iff, equal_eq_true_iff]
    exact ⟨Same.symm, Same.symm⟩
  · exact equal_eq_true_iff.2 ((equal_eq_true_iff.1 h).trans (equal_eq_true_iff.1 h'))

/-- Three arrays: two that hold themselves, and one that holds another. -/
def knot : Store where
  arrays := #[#[.null, .array 0], #[.null, .array 1], #[.null, .array 0]]

theorem equal_exact_knot :
    knot.equal (.array 0) (.array 1) = true ∧ knot.equal (.array 1) (.array 2) = true ∧
      knot.equal (.array 0) (.array 2) = true ∧ knot.matching.gfp (.array 0) (.array 2) ∧
      knot.equal (.array 1) (.array 1) = true := by
  obtain ⟨-, hsame, -, htrans, hrefl⟩ := knot.equal_exact
  have h : knot.equal (.array 0) (.array 1) = true := by decide
  have h' : knot.equal (.array 1) (.array 2) = true := by decide
  have h'' := htrans _ _ _ h h'
  exact ⟨h, h', h'', (hsame _ _).1 h'', hrefl (.array 1) nofun⟩

end Store
end Vibe
