import Vibe.Proofs.Store.Chains

/-! What no instruction takes from a store: its scopes where they are, the names bound in them, and
its skills. So what is seen from a scope stays within reach of it. -/

namespace Vibe.Store

variable {st st' st'' : Store} {name : String} {scope target : Nat}

/-- The scopes are still there, in the same scopes and with at least the same names, and so are the
skills. -/
structure Keeps (st st' : Store) : Prop where
  size : st.scopes.size ≤ st'.scopes.size
  parents : ∀ scope < st.scopes.size, st'.parent? scope = st.parent? scope
  names : ∀ name scope, (st.binding? name scope).isSome → (st'.binding? name scope).isSome
  skills : ∀ (id : Nat) (s : Skill), st.skills[id]? = some s → st'.skills[id]? = some s

namespace Keeps

theorem refl (st : Store) : st.Keeps st :=
  ⟨Nat.le_refl _, fun _ _ => rfl, fun _ _ => id, fun _ _ => id⟩

theorem trans (h : st.Keeps st') (h' : st'.Keeps st'') : st.Keeps st'' where
  size := Nat.le_trans h.size h'.size
  parents scope hscope :=
    (h'.parents scope (Nat.lt_of_lt_of_le hscope h.size)).trans (h.parents scope hscope)
  names name scope hbound := h'.names name scope (h.names name scope hbound)
  skills id s hs := h'.skills id s (h.skills id s hs)

/-- What is in the chain of a scope stays there. -/
theorem mem_chain (h : st.Keeps st') (htarget : target ∈ st.chain scope) :
    target ∈ st'.chain scope := by
  induction scope using Nat.strongRecOn with
  | ind scope ih =>
    obtain ⟨hscope, rfl | ⟨p, hp, hlt, htarget⟩⟩ := mem_chain_iff.1 htarget
    · exact mem_chain_self (Nat.lt_of_lt_of_le hscope h.size)
    · exact mem_chain_of_parent ((h.parents scope hscope).trans hp) hlt (ih p hlt htarget)

/-- A name that means something goes on doing so. -/
theorem contains (h : st.Keeps st') (hname : st.contains name scope = true) :
    st'.contains name scope = true := by
  obtain ⟨target, htarget, hbound⟩ := contains_iff.1 hname
  exact contains_iff.2 ⟨target, h.mem_chain htarget, h.names name target hbound⟩

theorem size_skills (h : st.Keeps st') : st.skills.size ≤ st'.skills.size := by
  apply Nat.le_of_not_lt
  intro hlt
  have hlast := Array.getElem?_eq_getElem hlt
  have hkept := h.skills _ _ hlast
  rw [Array.getElem?_eq_none (Nat.le_refl _)] at hkept
  cases hkept

/-! ### Changes -/

theorem of_eq (hscopes : st'.scopes = st.scopes)
    (hskills : ∀ (id : Nat) (s : Skill), st.skills[id]? = some s → st'.skills[id]? = some s) :
    st.Keeps st' where
  size := Nat.le_of_eq (by rw [hscopes])
  parents scope _ := by rw [parent?, parent?, hscopes]
  names name scope hbound := by rwa [binding?, hscopes]
  skills := hskills

theorem of_modify {change : Scope → Scope}
    (hscopes : st'.scopes = st.scopes.modify target change) (hskills : st'.skills = st.skills)
    (hparent : ∀ s, (change s).parent = s.parent)
    (hnames : ∀ s name, (Scope.find? s name).isSome → ((change s).find? name).isSome) :
    st.Keeps st' where
  size := Nat.le_of_eq (by rw [hscopes, Array.size_modify])
  parents scope _ := parent?_modify hscopes hparent scope
  names name scope hbound := by
    by_cases htarget : scope = target
    · subst htarget
      obtain ⟨b, hb⟩ := Option.isSome_iff_exists.1 hbound
      obtain ⟨s, hs, hfind⟩ := Option.bind_eq_some_iff.1 hb
      rw [binding?_modify_self hscopes hs]
      exact hnames s name (by rw [hfind]; rfl)
    · rwa [binding?_modify_of_ne hscopes htarget]
  skills id s hs := by rwa [hskills]

theorem define (st : Store) (name : String) (value : Value) (binder : Binder) (scope : Nat) :
    st.Keeps (st.define name value binder scope) := by
  refine of_modify (scopes_define st name value binder scope) rfl (fun _ => rfl) fun s other h => ?_
  by_cases hname : other = name
  · subst hname
    have hself := Scope.find?_define_self (s := s) (b := ⟨other, value, binder⟩)
    rw [hself]
    rfl
  · rwa [Scope.find?_define_of_ne hname]

theorem assign (st : Store) (name : String) (value : Value) (scope : Nat) :
    st.Keeps (st.assign name value scope).2 := by
  obtain hsame | ⟨target, hscopes, hskills⟩ := assign_cases st name value scope
  · rw [hsame]
    exact refl st
  · refine of_modify hscopes hskills (fun _ => rfl) fun s other h => ?_
    rwa [Scope.find?_update, Option.isSome_map]

theorem newScope (st : Store) (parent : Option Nat) : st.Keeps (st.newScope parent).2 := by
  have hold : ∀ s < st.scopes.size, (st.newScope parent).2.scopes[s]? = st.scopes[s]? := by
    intro s hs
    rw [Store.newScope, Array.getElem?_push_lt hs, Array.getElem?_eq_getElem hs]
  refine ⟨?_, fun s hs => ?_, fun name s hbound => ?_, fun _ _ => id⟩
  · rw [Store.newScope, Array.size_push]
    exact Nat.le_succ _
  · rw [parent?, parent?, hold s hs]
  · obtain ⟨b, hb⟩ := Option.isSome_iff_exists.1 hbound
    rwa [binding?, hold s (lt_size_of_binding hb)]

theorem newSkill (st : Store) (s : Skill) : st.Keeps (st.newSkill s).2 :=
  of_eq rfl fun id r hr => by
    rw [Store.newSkill, Array.getElem?_push_lt (Array.getElem?_eq_some_iff.1 hr).1]
    exact congrArg some (Array.getElem?_eq_some_iff.1 hr).2

end Keeps

/-- The new scope is in the given one. -/
theorem parent?_newScope (st : Store) (parent : Option Nat) :
    (st.newScope parent).2.parent? st.scopes.size = parent := by
  rw [parent?, newScope, Array.getElem?_push_size]
  rfl

end Vibe.Store
