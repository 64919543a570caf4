import Mathlib.Data.List.Forall2
import Mathlib.Data.List.Nodup
import Mathlib.Logic.Relation
import Vibe.Proofs.Store.Chains

/-! What assignments leave of a scope: everything but the values of what may be assigned to. -/

namespace Vibe

/-- A binding that is the same, up to its value if it may be assigned to. -/
structure Binding.Kept (b b' : Binding) : Prop where
  name : b'.name = b.name
  binder : b'.binder = b.binder
  value : b.binder = .lock → b'.value = b.value

namespace Binding.Kept

variable {b b' b'' : Binding}

theorem refl (b : Binding) : b.Kept b :=
  ⟨rfl, rfl, fun _ => rfl⟩

theorem trans (h : b.Kept b') (h' : b'.Kept b'') : b.Kept b'' where
  name := h'.name.trans h.name
  binder := h'.binder.trans h.binder
  value hb := (h'.value (h.binder.trans hb)).trans (h.value hb)

end Binding.Kept

namespace Scope

/-- One assignment: a name whose binding is not locked gets another value. -/
inductive Assigned (s : Scope) : Scope → Prop
  | update {name : String} {b : Binding} (value : Value) (bound : s.find? name = some b)
      (free : b.binder = .hold) : Assigned s (s.update name value)

/-- Any number of assignments, one after the other. -/
def Reassigned : Scope → Scope → Prop :=
  Relation.ReflTransGen Assigned

/-- What a scope keeps: the scope around it, its names in their order with their binders, and the
values of what is locked. It differs by assignments only. -/
structure Kept (s s' : Scope) : Prop where
  parent : s'.parent = s.parent
  bindings : List.Forall₂ Binding.Kept s.bindings s'.bindings
  reassigned : s.Reassigned s'

variable {s s' : Scope} {b c : Binding} {name : String} {value : Value}

/-- A name has one binding in a scope. -/
theorem eq_of_find? (h : s.find? name = some b) (hc : c ∈ s.bindings) (hn : c.name = name) :
    c = b := by
  have hb := name_of_find? h
  exact List.inj_on_of_nodup_map s.distinct hc (List.mem_of_find?_eq_some h) (hn.trans hb.symm)

theorem find?_of_mem (h : b ∈ s.bindings) : s.find? b.name = some b := by
  cases hfound : s.find? b.name with
  | none =>
    have hother := List.find?_eq_none.1 hfound b h
    simp at hother
  | some c => rw [eq_of_find? hfound h rfl]

theorem Assigned.parent (h : s.Assigned s') : s'.parent = s.parent := by
  cases h
  rfl

theorem Assigned.bindings (h : s.Assigned s') :
    List.Forall₂ Binding.Kept s.bindings s'.bindings := by
  obtain @⟨name, b, value, bound, free⟩ := h
  have kept : ∀ c ∈ s.bindings, c.Kept (if c.name == name then { c with value } else c) := by
    intro c hc
    by_cases hn : c.name = name
    · obtain rfl := eq_of_find? bound hc hn
      refine ⟨by simp [hn], by simp [hn], ?_⟩
      simp [free]
    · simpa [hn] using Binding.Kept.refl c
  change List.Forall₂ Binding.Kept s.bindings (s.bindings.map _)
  rw [List.forall₂_map_right_iff, List.forall₂_same]
  exact kept

theorem Reassigned.parent (h : s.Reassigned s') : s'.parent = s.parent := by
  induction h with
  | refl => rfl
  | tail _ h ih => exact h.parent.trans ih

theorem forall₂_kept_trans {as bs cs : List Binding} (h : List.Forall₂ Binding.Kept as bs)
    (h' : List.Forall₂ Binding.Kept bs cs) : List.Forall₂ Binding.Kept as cs := by
  induction h generalizing cs with
  | nil => exact h'
  | cons hab _ ih =>
    cases h' with
    | cons hbc h' => exact .cons (hab.trans hbc) (ih h')

theorem Reassigned.bindings (h : s.Reassigned s') :
    List.Forall₂ Binding.Kept s.bindings s'.bindings := by
  induction h with
  | refl => exact List.forall₂_same.2 fun b _ => .refl b
  | tail _ h ih => exact forall₂_kept_trans ih h.bindings

/-- Assignments keep all that a scope can keep. -/
theorem Reassigned.kept (h : s.Reassigned s') : s.Kept s' :=
  ⟨h.parent, h.bindings, h⟩

end Scope

namespace Store

variable {st : Store} {name : String} {value : Value} {scope target : Nat} {s : Scope}

theorem nearest?_of_assignable (h : st.assignable name scope = .ok target) :
    st.nearest? name scope = some target := by
  unfold assignable at h
  split at h
  · cases h
  · next near hnear =>
    split at h
    · cases h
    · cases h
      exact hnear

/-- What may be assigned to is bound, and not locked. -/
theorem assignable_eq_ok (h : st.assignable name scope = .ok target) :
    ∃ s b, st.scopes[target]? = some s ∧ s.find? name = some b ∧ b.binder = .hold := by
  have hnear := nearest?_of_assignable h
  obtain ⟨b, hb⟩ := Option.isSome_iff_exists.1 (bound_of_nearest? hnear)
  obtain ⟨s, hs, hfind⟩ := Option.bind_eq_some_iff.1 hb
  refine ⟨s, b, hs, hfind, ?_⟩
  have hlookup : st.lookup? name scope = some b := by
    rw [lookup?, hnear]
    exact hb
  rw [assignable, hnear] at h
  cases hbinder : b.binder with
  | hold => rfl
  | lock => simp [isConstant, hlookup, hbinder] at h

end Store
end Vibe
