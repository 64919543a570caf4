import Vibe.Proofs.Machine.Instructions
import Vibe.Proofs.Machine.Rules
import Vibe.Store.Builtins
import Vibe.Store.Operators
import Vibe.Store.Scopes

/-! Stores that follow rules. What is read from them follows the rules, and what follows the rules
may be written to them. -/

namespace Vibe

/-- What may come of something: a result as it is asked for, or a failure that there may be. -/
def Rules.Allows (R : Rules) {α : Type} (k : Asked α) : Except RuntimeCause α → Prop
  | .ok a => R.Meets k a
  | .error cause => R.mayFail cause

/-- Whatever a scope refers to there may be. -/
structure Scope.Lawful (R : Rules) (s : Scope) : Prop where
  parent : ∀ p ∈ s.parent, R.home p
  bindings : ∀ b ∈ s.bindings, R.value b.value

/-- Whatever there may be in a store refers only to what there may be, and there may be all that is
still to be made. -/
structure Store.Lawful (R : Rules) (st : Store) : Prop where
  scopes : ∀ {id : Nat} {s : Scope}, R.home id → st.scopes[id]? = some s → s.Lawful R
  arrays : ∀ {id : Nat} {vs : Array Value}, R.value (.array id) → st.arrays[id]? = some vs →
    ∀ v ∈ vs, R.value v
  skills : ∀ {id : Nat} {s : Skill}, R.value (.skill id) → st.skills[id]? = some s →
    R.Meets .skill s
  newScope : ∀ {id : Nat}, st.scopes.size ≤ id → R.home id
  newArray : ∀ {id : Nat}, st.arrays.size ≤ id → R.value (.array id)
  newSkill : ∀ {id : Nat}, st.skills.size ≤ id → R.value (.skill id)

/-- Whatever the scopes and arrays that there may be refer to there may be. This is enough for
reading. -/
structure Store.Readable (R : Rules) (st : Store) : Prop where
  scopes : ∀ {id : Nat} {s : Scope}, R.home id → st.scopes[id]? = some s → s.Lawful R
  arrays : ∀ {id : Nat} {vs : Array Value}, R.value (.array id) → st.arrays[id]? = some vs →
    ∀ v ∈ vs, R.value v

variable {R : Rules} {st : Store} {v w : Value}

theorem Store.Lawful.readable (h : st.Lawful R) : st.Readable R :=
  ⟨h.scopes, h.arrays⟩

namespace Scope.Lawful

variable {s : Scope} {b : Binding}

theorem define (h : s.Lawful R) (hb : R.value b.value) : (s.define b).Lawful R where
  parent := h.parent
  bindings c hc := by
    rcases List.mem_append.1 hc with hold | hnew
    · exact h.bindings c (List.mem_filter.1 hold).1
    · obtain rfl := List.mem_singleton.1 hnew
      exact hb

theorem update (h : s.Lawful R) (name : String) (hv : R.value v) :
    (s.update name v).Lawful R where
  parent := h.parent
  bindings c hc := by
    obtain ⟨b, hb, rfl⟩ := List.mem_map.1 hc
    split
    · exact hv
    · exact h.bindings b hb

end Scope.Lawful

/-- Where there may be anything, only the bodies of skills have to follow the rules. -/
theorem Store.lawful_of_skills (hvalue : ∀ v, R.value v) (hhome : ∀ id, R.home id)
    (h : ∀ (id : Nat) (s : Skill), st.skills[id]? = some s → ∀ b ∈ s.body, R.fits .skill b) :
    st.Lawful R where
  scopes _ _ := ⟨fun _ _ => hhome _, fun _ _ => hvalue _⟩
  arrays _ _ _ _ := hvalue _
  skills _ hs := ⟨hhome _, h _ _ hs⟩
  newScope _ := hhome _
  newArray _ := hvalue _
  newSkill _ := hvalue _

namespace Store.Lawful

variable {name : String} {scope : Nat}

/-! ### Writing -/

theorem modifyScope {change : Scope → Scope} (h : st.Lawful R)
    (hchange : ∀ s : Scope, s.Lawful R → (change s).Lawful R) (target : Nat) :
    Lawful R { st with scopes := st.scopes.modify target change } where
  scopes {id s} hid hs := by
    rw [Array.getElem?_modify] at hs
    split at hs
    · obtain ⟨r, hr, rfl⟩ := Option.map_eq_some_iff.1 hs
      exact hchange r (h.scopes hid hr)
    · exact h.scopes hid hs
  arrays := h.arrays
  skills := h.skills
  newScope hid := h.newScope (by simpa using hid)
  newArray := h.newArray
  newSkill := h.newSkill

theorem modifyArray {change : Array Value → Array Value} (h : st.Lawful R)
    (hchange : ∀ vs : Array Value, (∀ v ∈ vs, R.value v) → ∀ v ∈ change vs, R.value v)
    (target : Nat) : (st.modifyArray target change).Lawful R where
  scopes := h.scopes
  arrays {id vs} hid hvs := by
    rw [Store.modifyArray, Array.getElem?_modify] at hvs
    split at hvs
    · obtain ⟨ws, hws, rfl⟩ := Option.map_eq_some_iff.1 hvs
      exact hchange ws (h.arrays hid hws)
    · exact h.arrays hid hvs
  skills := h.skills
  newScope := h.newScope
  newArray hid := h.newArray (by simpa [Store.modifyArray] using hid)
  newSkill := h.newSkill

theorem pushScope {home : Nat} (h : st.Lawful R) (hhome : R.home home) :
    (st.newScope (some home)).2.Lawful R where
  scopes {id s} hid hs := by
    rw [Store.newScope, Array.getElem?_push] at hs
    split at hs
    · cases hs
      refine ⟨fun p hp => ?_, fun b hb => (List.not_mem_nil hb).elim⟩
      cases hp
      exact hhome
    · exact h.scopes hid hs
  arrays := h.arrays
  skills := h.skills
  newScope hid := h.newScope (Nat.le_of_succ_le (by simpa [Store.newScope] using hid))
  newArray := h.newArray
  newSkill := h.newSkill

theorem pushArray {items : Array Value} (h : st.Lawful R) (hitems : ∀ v ∈ items, R.value v) :
    (st.newArray items).2.Lawful R where
  scopes := h.scopes
  arrays {id vs} hid hvs := by
    rw [Store.newArray, Array.getElem?_push] at hvs
    split at hvs
    · cases hvs
      exact hitems
    · exact h.arrays hid hvs
  skills := h.skills
  newScope := h.newScope
  newArray hid := h.newArray (Nat.le_of_succ_le (by simpa [Store.newArray] using hid))
  newSkill := h.newSkill

theorem pushSkill {s : Skill} (h : st.Lawful R) (hs : R.Meets .skill s) :
    (st.newSkill s).2.Lawful R where
  scopes := h.scopes
  arrays := h.arrays
  skills {id r} hid hr := by
    rw [Store.newSkill, Array.getElem?_push] at hr
    split at hr
    · cases hr
      exact hs
    · exact h.skills hid hr
  newScope := h.newScope
  newArray := h.newArray
  newSkill hid := h.newSkill (Nat.le_of_succ_le (by simpa [Store.newSkill] using hid))

theorem define (h : st.Lawful R) (name : String) (hv : R.value v) (binder : Binder)
    (scope : Nat) : (st.define name v binder scope).Lawful R :=
  h.modifyScope (fun _ hs => hs.define hv) scope

theorem assign (h : st.Lawful R) (name : String) (hv : R.value v) (scope : Nat) :
    (st.assign name v scope).2.Lawful R := by
  unfold Store.assign
  split
  · exact h
  · exact h.modifyScope (fun _ hs => hs.update name hv) _

end Store.Lawful

/-! ### Reading -/

namespace Store.Readable

variable {name : String} {scope : Nat}

theorem home_of_mem_chain (h : st.Readable R) (hscope : R.home scope) :
    ∀ i ∈ st.chain scope, R.home i := by
  induction scope using Nat.strongRecOn with
  | ind scope ih =>
    intro i hi
    rw [Store.chain] at hi
    split at hi
    · cases hi
    · next s hs =>
      rcases List.mem_cons.1 hi with rfl | hi
      · exact hscope
      · split at hi
        · cases hi
        · next p hp =>
          split at hi
          · next hlt => exact ih p hlt ((h.scopes hscope hs).parent p hp) i hi
          · cases hi

theorem value_of_lookup (h : st.Readable R) (hscope : R.home scope) {b : Binding}
    (hb : st.lookup? name scope = some b) : R.value b.value := by
  obtain ⟨near, hnear, hbinding⟩ := Option.bind_eq_some_iff.1 hb
  obtain ⟨s, hs, hfind⟩ := Option.bind_eq_some_iff.1 hbinding
  have hhome := h.home_of_mem_chain hscope near (List.mem_of_find?_eq_some hnear)
  exact (h.scopes hhome hs).bindings b (List.mem_of_find?_eq_some hfind)

theorem allows_get (h : st.Readable R) (hscope : R.home scope) (name : String) :
    R.Allows .value (st.get name scope) := by
  unfold Store.get
  split
  · next b hb => exact h.value_of_lookup hscope hb
  · trivial

theorem value_of_mem_items (h : st.Readable R) {id : Nat} (hid : R.value (.array id)) :
    ∀ v ∈ st.items id, R.value v := by
  intro v hv
  rw [Store.items] at hv
  cases hvs : st.arrays[id]? with
  | none =>
    simp [hvs] at hv
  | some vs =>
    rw [hvs] at hv
    exact h.arrays hid hvs v hv

theorem allows_index (h : st.Readable R) (hv : R.value v) (position : Value) :
    R.Allows .value (st.index v position) := by
  cases v with
  | array id =>
    rw [Store.index]
    cases hplace : Store.position position with
    | error cause => cases position <;> cases hplace <;> trivial
    | ok place =>
      change R.value ((place.bind ((st.items id)[·]?)).getD .null)
      cases hitem : place.bind ((st.items id)[·]?) with
      | none => exact R.value_of_not_shared _ rfl
      | some item =>
        obtain ⟨i, -, hi⟩ := Option.bind_eq_some_iff.1 hitem
        exact h.value_of_mem_items hv item (Array.mem_of_getElem? hi)
  | string s =>
    rw [Store.index]
    cases hplace : Store.position position with
    | error cause => cases position <;> cases hplace <;> trivial
    | ok place =>
      change R.value (((place.bind (s.toList[·]?)).map Value.ofChar).getD .null)
      cases place.bind (s.toList[·]?) <;> exact R.value_of_not_shared _ rfl
  | _ => trivial

theorem allows_sweepItems (h : st.Readable R) (hv : R.value v) :
    R.Allows .values (st.sweepItems v) := by
  cases v with
  | array id =>
    intro item hitem
    exact h.value_of_mem_items hv item (Array.mem_toList_iff.1 hitem)
  | string s =>
    intro item hitem
    obtain ⟨c, -, rfl⟩ := List.mem_map.1 hitem
    exact R.value_of_not_shared _ rfl
  | _ => trivial

end Store.Readable

theorem Store.allows_assign (st : Store) (name : String) (v : Value) (scope : Nat) :
    R.Allows .nothing (st.assign name v scope).1 := by
  unfold Store.assign Store.assignable
  split
  · next cause hcause =>
    split at hcause
    · cases hcause
      trivial
    · split at hcause <;> cases hcause
      trivial
  · trivial

theorem Store.allows_operate (st : Store) (op : BinaryOp) (v w : Value) :
    R.Allows .value (st.operate op v w) := by
  fun_cases Store.operate st op v w <;> first | trivial | exact R.value_of_not_shared _ rfl

theorem Store.allows_operateUnary (st : Store) (op : UnaryOp) (v : Value) :
    R.Allows .value (st.operateUnary op v) := by
  fun_cases Store.operateUnary st op v <;> first | trivial | exact R.value_of_not_shared _ rfl

namespace Builtin

theorem allows_asNumber (v : Value) : R.Allows .value (call.asNumber v) := by
  fun_cases call.asNumber v <;> first | trivial | exact R.value_of_not_shared _ rfl

theorem allows_sizeOf (st : Store) (v : Value) : R.Allows .value (call.sizeOf st v) := by
  fun_cases call.sizeOf st v <;> first | trivial | exact R.value_of_not_shared _ rfl

/-- A built-in skill gives an item of an array that it is given, or a value that is not shared. -/
theorem allows_call (h : st.Readable R) (b : Builtin) {args : List Value}
    (hargs : ∀ v ∈ args, R.value v) : R.Allows .value (b.call args st).1 := by
  fun_cases Builtin.call b args st with
  | case1 v => exact allows_sizeOf st v
  | case4 id last =>
    change R.value (last.getD .null)
    cases hlast : last with
    | none => exact R.value_of_not_shared _ rfl
    | some v =>
      have hid : R.value (.array id) := hargs _ (List.mem_singleton.2 rfl)
      exact h.value_of_mem_items hid v (Array.mem_of_back? hlast)
  | case7 v => exact allows_asNumber v
  | _ => first | trivial | exact R.value_of_not_shared _ rfl

/-- Nothing in the store is changed but an item more or less of an array. -/
theorem lawful_call (h : st.Lawful R) (b : Builtin) {args : List Value}
    (hargs : ∀ v ∈ args, R.value v) : (b.call args st).2.Lawful R := by
  fun_cases Builtin.call b args st with
  | case2 id v =>
    have hv : R.value v := hargs _ (by simp)
    refine h.modifyArray (fun vs hvs w hw => ?_) id
    rcases Array.mem_push.1 hw with hold | rfl
    · exact hvs w hold
    · exact hv
  | case4 id last =>
    refine h.modifyArray (fun vs hvs w hw => hvs w ?_) id
    rw [← Array.mem_toList_iff, Array.toList_pop] at hw
    exact Array.mem_toList_iff.1 ((List.dropLast_sublist vs.toList).subset hw)
  | case9 => exact ⟨h.scopes, h.arrays, h.skills, h.newScope, h.newArray, h.newSkill⟩
  | _ => exact h

end Builtin
end Vibe
