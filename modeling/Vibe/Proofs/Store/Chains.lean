import Vibe.Store.Scopes

/-! Names seen from scopes. A scope has its own bindings, and the others are those of the scope
around it. -/

namespace Vibe

namespace Scope

/-- An assignment gives a name another value, if it is bound. -/
theorem find?_update (s : Scope) (name other : String) (value : Value) :
    (s.update name value).find? other =
      (s.find? other).map fun c => if c.name == name then { c with value } else c := by
  have hname : ((·.name == other) ∘
      fun c : Binding => if c.name == name then { c with value } else c) = (·.name == other) := by
    funext c
    by_cases hc : c.name = name <;> simp [hc]
  rw [find?, update, List.find?_map, hname, find?]

theorem name_of_find? {s : Scope} {name : String} {b : Binding} (h : s.find? name = some b) :
    b.name = name := by
  simpa using List.find?_some h

end Scope

namespace Store

variable {st st' : Store} {name : String} {scope target p : Nat} {b : Binding}

/-- The scope around a scope. -/
def parent? (st : Store) (scope : Nat) : Option Nat :=
  st.scopes[scope]? >>= (·.parent)

/-- A scope is in older ones only. -/
def Nested (st : Store) : Prop :=
  ∀ scope p, st.parent? scope = some p → p < scope

/-- The chain of a scope reaches the target before another binding of the name. -/
inductive Reaches (st : Store) (name : String) (target : Nat) : Nat → Prop
  | here : Reaches st name target target
  | around {scope p : Nat} : st.binding? name scope = none → st.parent? scope = some p →
      Reaches st name target p → Reaches st name target scope

/-- The target is among the scopes around a scope, and from there the name means what it is bound to
in the target, unless a scope within the target binds it too. -/
def Sees (st : Store) (name : String) (target scope : Nat) : Prop :=
  target ∈ st.chain scope ∧ (st.nearest? name scope = some target ∨
    ∃ inner ∈ st.chain scope, target < inner ∧ (st.binding? name inner).isSome = true)

/-! ### Walking outwards -/

theorem chain_of_parent (h : st.parent? scope = some p) (hlt : p < scope) :
    st.chain scope = scope :: st.chain p := by
  obtain ⟨s, hs, hp⟩ := Option.bind_eq_some_iff.1 h
  rw [chain, hs]
  simp only [hp, if_pos hlt]

theorem chain_of_top (h : st.parent? scope = none) (hscope : scope < st.scopes.size) :
    st.chain scope = [scope] := by
  have hs := Array.getElem?_eq_getElem hscope
  rw [parent?, hs] at h
  have hparent : st.scopes[scope].parent = none := h
  rw [chain, hs]
  simp only [hparent]

/-- In the chain of a scope are that scope and what is in the chain of the scope around it. -/
theorem mem_chain_iff : target ∈ st.chain scope ↔ scope < st.scopes.size ∧ (target = scope ∨
    ∃ p, st.parent? scope = some p ∧ p < scope ∧ target ∈ st.chain p) := by
  by_cases hsize : scope < st.scopes.size
  · have hs := Array.getElem?_eq_getElem hsize
    have hparent : st.parent? scope = st.scopes[scope].parent := by rw [parent?, hs]; rfl
    rw [chain, hs, hparent]
    cases hp : st.scopes[scope].parent with
    | none => simp [hp, hsize]
    | some p => by_cases hlt : p < scope <;> simp [hp, hsize, hlt]
  · rw [chain, Array.getElem?_eq_none (Nat.le_of_not_lt hsize)]
    simp [hsize]

theorem mem_chain_self (h : scope < st.scopes.size) : scope ∈ st.chain scope :=
  mem_chain_iff.2 ⟨h, .inl rfl⟩

theorem mem_chain_of_parent (h : st.parent? scope = some p) (hlt : p < scope)
    (htarget : target ∈ st.chain p) : target ∈ st.chain scope := by
  rw [chain_of_parent h hlt]
  exact List.mem_cons_of_mem _ htarget

theorem le_of_mem_chain (h : target ∈ st.chain scope) : target ≤ scope := by
  induction scope using Nat.strongRecOn with
  | ind scope ih =>
    obtain ⟨-, rfl | ⟨p, -, hlt, htarget⟩⟩ := mem_chain_iff.1 h
    · exact Nat.le_refl _
    · exact Nat.le_trans (ih p hlt htarget) (Nat.le_of_lt hlt)

theorem mem_chain_trans {i : Nat} (h : i ∈ st.chain target) (htarget : target ∈ st.chain scope) :
    i ∈ st.chain scope := by
  induction scope using Nat.strongRecOn with
  | ind scope ih =>
    obtain ⟨-, rfl | ⟨p, hp, hlt, htarget⟩⟩ := mem_chain_iff.1 htarget
    · exact h
    · exact mem_chain_of_parent hp hlt (ih p hlt htarget)

theorem lt_size_of_parent (h : st.parent? scope = some p) : scope < st.scopes.size := by
  obtain ⟨s, hs, -⟩ := Option.bind_eq_some_iff.1 h
  exact (Array.getElem?_eq_some_iff.1 hs).1

theorem lt_size_of_binding (h : st.binding? name scope = some b) : scope < st.scopes.size := by
  obtain ⟨s, hs, -⟩ := Option.bind_eq_some_iff.1 h
  exact (Array.getElem?_eq_some_iff.1 hs).1

theorem nearest?_of_binding (h : st.binding? name scope = some b) :
    st.nearest? name scope = some scope := by
  rw [nearest?, chain, Array.getElem?_eq_getElem (lt_size_of_binding h)]
  exact List.find?_cons_of_pos (by simp [h])

theorem lookup?_of_binding (h : st.binding? name scope = some b) :
    st.lookup? name scope = some b := by
  rw [lookup?, nearest?_of_binding h]
  exact h

theorem bound_of_nearest? (h : st.nearest? name scope = some target) :
    (st.binding? name target).isSome = true := by
  simpa using List.find?_some h

/-- What a scope does not bind is looked for around it. -/
theorem nearest?_of_parent (hp : st.parent? scope = some p) (hlt : p < scope)
    (h : st.binding? name scope = none) : st.nearest? name scope = st.nearest? name p := by
  rw [nearest?, chain_of_parent hp hlt]
  exact List.find?_cons_of_neg (by simp [h])

theorem nearest?_of_unbound (hst : st.Nested) (h : st.binding? name scope = none) :
    st.nearest? name scope = st.parent? scope >>= st.nearest? name := by
  cases hp : st.parent? scope with
  | none =>
    refine List.find?_eq_none.2 fun i hi => ?_
    obtain ⟨-, rfl | ⟨p, hp', -⟩⟩ := mem_chain_iff.1 hi
    · simp [h]
    · cases hp.symm.trans hp'
  | some p => exact nearest?_of_parent hp (hst scope p hp) h

theorem sees_of_mem_chain (h : target ∈ st.chain scope)
    (hb : (st.binding? name target).isSome = true) : st.Sees name target scope := by
  refine ⟨h, ?_⟩
  induction scope using Nat.strongRecOn with
  | ind scope ih =>
    cases hhere : st.binding? name scope with
    | some b =>
      obtain rfl | hlt := Nat.eq_or_lt_of_le (le_of_mem_chain h)
      · exact .inl (nearest?_of_binding hhere)
      · have hmem := mem_chain_self (lt_size_of_binding hhere)
        exact .inr ⟨scope, hmem, hlt, by rw [hhere]; rfl⟩
    | none =>
      obtain ⟨-, rfl | ⟨p, hp, hlt, h⟩⟩ := mem_chain_iff.1 h
      · rw [hhere] at hb
        cases hb
      · rw [nearest?_of_parent hp hlt hhere]
        obtain hnear | ⟨inner, hinner, hbound⟩ := ih p hlt h
        · exact .inl hnear
        · exact .inr ⟨inner, mem_chain_of_parent hp hlt hinner, hbound⟩

/-- A name means something where one of the scopes around binds it. -/
theorem contains_iff : st.contains name scope = true ↔
    ∃ target ∈ st.chain scope, (st.binding? name target).isSome = true := by
  rw [contains, lookup?]
  constructor
  · intro h
    obtain ⟨b, hb⟩ := Option.isSome_iff_exists.1 h
    obtain ⟨target, hnear, hb⟩ := Option.bind_eq_some_iff.1 hb
    exact ⟨target, List.mem_of_find?_eq_some hnear, by rw [hb]; rfl⟩
  · rintro ⟨target, htarget, hbound⟩
    have hfound : (st.nearest? name scope).isSome = true :=
      List.find?_isSome.2 ⟨target, htarget, hbound⟩
    obtain ⟨near, hnear⟩ := Option.isSome_iff_exists.1 hfound
    have hnearest := bound_of_nearest? hnear
    rwa [hnear]

/-- A name means what it is bound to here, or else what it means around here. -/
theorem lookup?_walk (hst : st.Nested) (name : String) (scope : Nat) :
    st.lookup? name scope =
      (st.binding? name scope).or (st.parent? scope >>= st.lookup? name) := by
  cases hb : st.binding? name scope with
  | some b => rw [lookup?_of_binding hb, Option.some_or]
  | none =>
    rw [lookup?, nearest?_of_unbound hst hb, Option.none_or]
    cases st.parent? scope <;> rfl

/-! ### Reaching -/

namespace Reaches

/-- What is bound in a scope that is reached is what the name means. -/
theorem lookup? (hst : st.Nested) (h : st.Reaches name target scope)
    (hb : st.binding? name target = some b) : st.lookup? name scope = some b := by
  induction h with
  | here => rw [lookup?_walk hst, hb, Option.some_or]
  | around hnone hp _ ih =>
    rw [lookup?_walk hst, hnone, hp, Option.none_or]
    exact ih

theorem nearest? (hst : st.Nested) (h : st.Reaches name target scope)
    (hb : st.binding? name target = some b) : st.nearest? name scope = some target := by
  induction h with
  | here => exact nearest?_of_binding hb
  | around hnone hp _ ih =>
    rw [nearest?_of_unbound hst hnone, hp]
    exact ih

end Reaches

/-- What a name means is bound in a scope that is reached. -/
theorem exists_reaches (hst : st.Nested) (h : st.lookup? name scope = some b) :
    ∃ target, st.Reaches name target scope ∧ st.binding? name target = some b := by
  induction scope using Nat.strongRecOn with
  | ind scope ih =>
    rw [lookup?_walk hst] at h
    cases hb : st.binding? name scope with
    | some c =>
      rw [hb, Option.some_or] at h
      exact ⟨scope, .here, hb.trans h⟩
    | none =>
      rw [hb, Option.none_or] at h
      obtain ⟨p, hp, hlookup⟩ := Option.bind_eq_some_iff.1 h
      obtain ⟨target, hreaches, htarget⟩ := ih p (hst scope p hp) hlookup
      exact ⟨target, .around hb hp hreaches, htarget⟩

/-! ### Changing one scope -/

section Modify

variable {change : Scope → Scope} (hscopes : st'.scopes = st.scopes.modify target change)
include hscopes

theorem parent?_modify (hchange : ∀ s, (change s).parent = s.parent) (s : Nat) :
    st'.parent? s = st.parent? s := by
  rw [parent?, parent?, hscopes, Array.getElem?_modify]
  split
  · cases st.scopes[s]? with
    | none => rfl
    | some r => exact hchange r
  · rfl

theorem binding?_modify_self {s : Scope} (hs : st.scopes[target]? = some s) (name : String) :
    st'.binding? name target = (change s).find? name := by
  rw [binding?, hscopes, Array.getElem?_modify, if_pos rfl, hs]
  rfl

theorem binding?_modify_of_ne {s : Nat} (hs : s ≠ target) (name : String) :
    st'.binding? name s = st.binding? name s := by
  rw [binding?, binding?, hscopes, Array.getElem?_modify, if_neg hs.symm]

end Modify

theorem binding?_of_getElem? {s : Scope} (hs : st.scopes[target]? = some s) (name : String) :
    st.binding? name target = s.find? name := by
  rw [binding?, hs]
  rfl

theorem scopes_define (st : Store) (name : String) (value : Value) (binder : Binder)
    (scope : Nat) : (st.define name value binder scope).scopes =
      st.scopes.modify scope (·.define ⟨name, value, binder⟩) :=
  rfl

/-- An assignment changes nothing, or what a name is bound to in one scope. -/
theorem assign_cases (st : Store) (name : String) (value : Value) (scope : Nat) :
    (st.assign name value scope).2 = st ∨ ∃ target,
      (st.assign name value scope).2.scopes = st.scopes.modify target (·.update name value) ∧
      (st.assign name value scope).2.skills = st.skills := by
  rw [assign]
  split
  · exact .inl rfl
  · next target _ => exact .inr ⟨target, rfl, rfl⟩

end Store
end Vibe
