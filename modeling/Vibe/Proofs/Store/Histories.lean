import Vibe.Proofs.Store.Assignment

/-! Whatever was done to the scopes of a store, reading a name, asking for it and assigning to it
are about the same binding: the nearest one. -/

namespace Vibe

namespace Scope

variable {s : Scope} {b : Binding} {name : String}

/-- An assignment changes one binding, in its place. -/
theorem bindings_update (h : s.find? name = some b) (value : Value) :
    ∃ before after, s.bindings = before ++ b :: after ∧
      (s.update name value).bindings = before ++ { b with value } :: after := by
  obtain ⟨hb, before, after, hsplit, hbefore⟩ := List.find?_eq_some_iff_append.1 h
  replace hb : b.name = name := by simpa using hb
  have hnodup := s.distinct
  rw [hsplit, List.map_append, List.map_cons] at hnodup
  have hafter : ∀ c ∈ after, c.name ≠ name := by
    intro c hc hn
    refine (List.nodup_cons.1 (List.nodup_append.1 hnodup).2.1).1 ?_
    exact List.mem_map.2 ⟨c, hc, hn.trans hb.symm⟩
  have hkept : ∀ cs : List Binding, (∀ c ∈ cs, c.name ≠ name) →
      cs.map (fun c => if c.name == name then { c with value } else c) = cs := by
    intro cs hcs
    refine (List.map_congr_left fun c hc => ?_).trans (List.map_id cs)
    simp [hcs c hc]
  refine ⟨before, after, hsplit, ?_⟩
  change s.bindings.map _ = _
  rw [hsplit, List.map_append, List.map_cons, hkept before (by simpa using hbefore),
    hkept after hafter]
  simp [hb]

end Scope

namespace Store

variable {st st' : Store} {name other : String} {scope target : Nat} {value : Value}
  {binder : Binder} {b : Binding}

/-- The stores whose scopes were made one after the other, each by itself or in one that there was,
while names were bound and assigned to in those that there were. -/
inductive Grown : Store → Prop
  | empty {st : Store} : st.scopes = #[] → Grown st
  | newScope {st : Store} {parent : Option Nat} : Grown st → (∀ p ∈ parent, p < st.scopes.size) →
      Grown (st.newScope parent).2
  | define {st : Store} {scope : Nat} (name : String) (value : Value) (binder : Binder) :
      Grown st → scope < st.scopes.size → Grown (st.define name value binder scope)
  | assign {st : Store} {scope : Nat} (name : String) (value : Value) :
      Grown st → scope < st.scopes.size → Grown (st.assign name value scope).2

/-- From the scopes that reach the target before another binding of the name, the name has the
value now, and is a constant or not. From the others it is what it was, and so is every other
name. -/
structure Rebinds (st st' : Store) (name : String) (target : Nat) (value : Value)
    (constant : Bool) : Prop where
  reached : ∀ s, st.Reaches name target s →
    st'.get name s = .ok value ∧ st'.isConstant name s = constant
  apart : ∀ s, ¬ st.Reaches name target s →
    st'.get name s = st.get name s ∧ st'.isConstant name s = st.isConstant name s
  others : ∀ other, other ≠ name → ∀ s,
    st'.get other s = st.get other s ∧ st'.isConstant other s = st.isConstant other s

/-- One binding of one scope has another value, in its place and with its binder. The scopes are
else the same. -/
structure Overwrites (st st' : Store) (target : Nat) (b : Binding) (value : Value) : Prop where
  inPlace : ∃ before after, st.bindings target = before ++ b :: after ∧
    st'.bindings target = before ++ { b with value } :: after
  around : ∀ s, st'.parent? s = st.parent? s
  elsewhere : ∀ s, s ≠ target → st'.scopes[s]? = st.scopes[s]?

/-! ### What changes leave -/

/-- A store that differs in what one name is bound to in one scope. -/
structure Rebound (st st' : Store) (name : String) (target : Nat) (b : Binding) : Prop where
  around : ∀ s, st'.parent? s = st.parent? s
  bound : st'.binding? name target = some b
  kept : ∀ other s, other ≠ name ∨ s ≠ target → st'.binding? other s = st.binding? other s

theorem rebound_define (h : scope < st.scopes.size) (name : String) (value : Value)
    (binder : Binder) :
    st.Rebound (st.define name value binder scope) name scope ⟨name, value, binder⟩ := by
  have hscopes := scopes_define st name value binder scope
  have hscope := Array.getElem?_eq_getElem h
  refine ⟨parent?_modify hscopes fun _ => rfl, ?_, fun other s hne => ?_⟩
  · rw [binding?_modify_self hscopes hscope]
    exact Scope.find?_define_self
  · by_cases hs : s = scope
    · have hother : other ≠ name := hne.resolve_right fun hne => hne hs
      rw [hs, binding?_modify_self hscopes hscope, binding?_of_getElem? hscope]
      exact Scope.find?_define_of_ne hother
    · exact binding?_modify_of_ne hscopes hs other

section Update

variable (hscopes : st'.scopes = st.scopes.modify target (·.update name value))
include hscopes

theorem rebound_update (h : st.binding? name target = some b) :
    st.Rebound st' name target { b with value } := by
  obtain ⟨r, hr, hb⟩ := Option.bind_eq_some_iff.1 h
  refine ⟨parent?_modify hscopes fun _ => rfl, ?_, fun other s hne => ?_⟩
  · have hname := Scope.name_of_find? hb
    rw [binding?_modify_self hscopes hr, Scope.find?_update, hb]
    simp [hname]
  · by_cases hs : s = target
    · have hother : other ≠ name := hne.resolve_right fun hne => hne hs
      rw [hs, binding?_modify_self hscopes hr, binding?_of_getElem? hr, Scope.find?_update]
      cases hfind : r.find? other with
      | none => rfl
      | some c =>
        have hname := Scope.name_of_find? hfind
        simp [hname, hother]
    · exact binding?_modify_of_ne hscopes hs other

theorem overwrites_update (h : st.binding? name target = some b) :
    st.Overwrites st' target b value where
  inPlace := by
    obtain ⟨r, hr, hb⟩ := Option.bind_eq_some_iff.1 h
    obtain ⟨before, after, hold, hnew⟩ := Scope.bindings_update hb value
    refine ⟨before, after, ?_, ?_⟩
    · simpa [bindings, hr] using hold
    · simpa [bindings, hscopes, hr, Array.getElem?_modify] using hnew
  around := parent?_modify hscopes fun _ => rfl
  elsewhere s hs := by
    rw [hscopes, Array.getElem?_modify, if_neg (Ne.symm hs)]

end Update

/-! ### Nesting -/

namespace Nested

theorem congr (hst : st.Nested) (haround : ∀ s, st'.parent? s = st.parent? s) : st'.Nested := by
  intro s p hp
  rw [haround] at hp
  exact hst s p hp

theorem newScope {parent : Option Nat} (hst : st.Nested)
    (hparent : ∀ p ∈ parent, p < st.scopes.size) : (st.newScope parent).2.Nested := by
  intro scope p hp
  obtain ⟨s, hs, hp⟩ := Option.bind_eq_some_iff.1 hp
  rw [Store.newScope, Array.getElem?_push] at hs
  split at hs
  · next hnew =>
    cases hs
    rw [hnew]
    exact hparent p hp
  · exact hst scope p (Option.bind_eq_some_iff.2 ⟨s, hs, hp⟩)

theorem define (hst : st.Nested) (name : String) (value : Value) (binder : Binder) (scope : Nat) :
    (st.define name value binder scope).Nested :=
  hst.congr (parent?_modify (scopes_define st name value binder scope) fun _ => rfl)

theorem assign (hst : st.Nested) (name : String) (value : Value) (scope : Nat) :
    (st.assign name value scope).2.Nested := by
  obtain hsame | ⟨target, hscopes, -⟩ := assign_cases st name value scope
  · rwa [hsame]
  · exact hst.congr (parent?_modify hscopes fun _ => rfl)

end Nested

/-- What is done to scopes leaves them in older ones. -/
theorem Grown.nested (h : Grown st) : st.Nested := by
  induction h with
  | @empty st hempty =>
    intro scope p hp
    simp [parent?, hempty] at hp
  | newScope _ hparent ih => exact ih.newScope hparent
  | @define st scope name value binder _ _ ih => exact ih.define name value binder scope
  | @assign st scope name value _ _ ih => exact ih.assign name value scope

/-! ### What names mean then -/

/-- A name means the same where all the bindings that the chain reaches are the same. -/
theorem lookup?_congr (hst : st.Nested) (hst' : st'.Nested)
    (haround : ∀ s, st'.parent? s = st.parent? s) (scope : Nat)
    (h : ∀ target, st.Reaches name target scope →
      st'.binding? name target = st.binding? name target) :
    st'.lookup? name scope = st.lookup? name scope := by
  induction scope using Nat.strongRecOn with
  | ind scope ih =>
    rw [lookup?_walk hst', lookup?_walk hst, h scope .here, haround]
    cases hb : st.binding? name scope with
    | some b => rfl
    | none =>
      cases hp : st.parent? scope with
      | none => rfl
      | some p =>
        exact ih p (hst scope p hp) fun target hreaches => h target (.around hb hp hreaches)

namespace Rebound

theorem nested (h : st.Rebound st' name target b) (hst : st.Nested) : st'.Nested :=
  hst.congr h.around

theorem lookup?_reached (h : st.Rebound st' name target b) (hst : st.Nested)
    (hreaches : st.Reaches name target scope) : st'.lookup? name scope = some b := by
  induction hreaches with
  | here => rw [lookup?_walk (h.nested hst), h.bound, Option.some_or]
  | @around scope p hnone hp _ ih =>
    rw [lookup?_walk (h.nested hst), h.around, hp]
    by_cases hs : scope = target
    · rw [hs, h.bound, Option.some_or]
    · rw [h.kept name scope (.inr hs), hnone, Option.none_or]
      exact ih

theorem lookup?_apart (h : st.Rebound st' name target b) (hst : st.Nested)
    (hreaches : ¬ st.Reaches name target scope) :
    st'.lookup? name scope = st.lookup? name scope := by
  refine lookup?_congr hst (h.nested hst) h.around scope fun s hs => h.kept name s (.inr ?_)
  rintro rfl
  exact hreaches hs

theorem lookup?_other (h : st.Rebound st' name target b) (hst : st.Nested)
    (hother : other ≠ name) (scope : Nat) : st'.lookup? other scope = st.lookup? other scope :=
  lookup?_congr hst (h.nested hst) h.around scope fun s _ => h.kept other s (.inl hother)

theorem rebinds (h : st.Rebound st' name target b) (hst : st.Nested) :
    st.Rebinds st' name target b.value (b.binder = .lock) where
  reached s hs := by
    rw [get, isConstant, h.lookup?_reached hst hs]
    exact ⟨rfl, rfl⟩
  apart s hs := by
    rw [get, isConstant, h.lookup?_apart hst hs]
    exact ⟨rfl, rfl⟩
  others other hother s := by
    rw [get, isConstant, h.lookup?_other hst hother]
    exact ⟨rfl, rfl⟩

end Rebound

/-! ### Assigning -/

theorem assign_of_unbound (h : st.lookup? name scope = none) (value : Value) :
    st.assign name value scope = (.error (.undefinedVariable name), st) := by
  have hnear : st.nearest? name scope = none := by
    cases hnear : st.nearest? name scope with
    | none => rfl
    | some target =>
      have hbound := bound_of_nearest? hnear
      rw [lookup?, hnear] at h
      exact (Option.isSome_iff_ne_none.1 hbound h).elim
  rw [assign, assignable, hnear]

theorem assign_of_locked (hst : st.Nested) (h : st.Reaches name target scope)
    (hb : st.binding? name target = some b) (hlock : b.binder = .lock) (value : Value) :
    st.assign name value scope = (.error (.constantReassignment name), st) := by
  have hconstant : st.isConstant name scope = true := by
    rw [isConstant, h.lookup? hst hb]
    simpa using hlock
  rw [assign, assignable, h.nearest? hst hb]
  simp only [hconstant, if_true]

theorem assign_eq_of_free (hst : st.Nested) (h : st.Reaches name target scope)
    (hb : st.binding? name target = some b) (hfree : b.binder = .hold) (value : Value) :
    st.assign name value scope =
      (.ok (), { st with scopes := st.scopes.modify target (·.update name value) }) := by
  have hconstant : st.isConstant name scope = false := by
    rw [isConstant, h.lookup? hst hb]
    simp [hfree]
  rw [assign, assignable, h.nearest? hst hb]
  simp [hconstant]

/-- Assigning to what is not locked changes the nearest binding and nothing else. -/
theorem assign_of_free (hst : st.Nested) (h : st.Reaches name target scope)
    (hb : st.binding? name target = some b) (hfree : b.binder = .hold) (value : Value) :
    ∃ st', st.assign name value scope = (.ok (), st') ∧ st.Overwrites st' target b value ∧
      st.Rebinds st' name target value false := by
  let st' : Store := { st with scopes := st.scopes.modify target (·.update name value) }
  have hscopes : st'.scopes = st.scopes.modify target (·.update name value) := rfl
  have hrebinds := (rebound_update hscopes hb).rebinds hst
  rw [hfree] at hrebinds
  exact ⟨st', assign_eq_of_free hst h hb hfree value, overwrites_update hscopes hb, hrebinds⟩

/-- What a name means decides about all that is done with it. It can be read where it means
something, and assigned to if it means what is not locked. An assignment that fails leaves the store
as it is, and one that succeeds gives the nearest binding another value and does nothing else. Both
an assignment and a definition are seen from those scopes whose chain reaches the changed one before
another binding of the name, and no other name is touched. -/
theorem scopes_agree (h : st.Grown) (name : String) (scope : Nat) :
    ((∃ value, st.get name scope = .ok value) ↔ st.contains name scope = true) ∧
    (∀ cause, st.get name scope = .error cause → cause = .undefinedVariable name) ∧
    (∀ target b, st.Reaches name target scope → st.binding? name target = some b →
      st.get name scope = .ok b.value ∧ st.isConstant name scope = decide (b.binder = .lock)) ∧
    (∀ value binder, scope < st.scopes.size →
      st.Rebinds (st.define name value binder scope) name scope value (binder = .lock)) ∧
    ∀ value result st', st.assign name value scope = (result, st') →
      (result = .ok () ↔ st.contains name scope = true ∧ st.isConstant name scope = false) ∧
      (∀ cause, result = .error cause → st' = st ∧ cause =
        if st.contains name scope then .constantReassignment name else .undefinedVariable name) ∧
      (result = .ok () → ∃ target b, st.Reaches name target scope ∧
        st.binding? name target = some b ∧ st.Overwrites st' target b value ∧
        st.Rebinds st' name target value false) := by
  have hst := h.nested
  have hdefine : ∀ value binder, scope < st.scopes.size →
      st.Rebinds (st.define name value binder scope) name scope value (binder = .lock) :=
    fun value binder hscope => (rebound_define hscope name value binder).rebinds hst
  cases hlookup : st.lookup? name scope with
  | none =>
    have hget : st.get name scope = .error (.undefinedVariable name) := by rw [get, hlookup]
    have hcontains : st.contains name scope = false := by rw [contains, hlookup]; rfl
    rw [hget, hcontains]
    refine ⟨by simp, by simp, fun target b hreaches hb => ?_, hdefine, ?_⟩
    · rw [hreaches.lookup? hst hb] at hlookup
      cases hlookup
    · intro value result st' hassign
      rw [assign_of_unbound hlookup] at hassign
      cases hassign
      simp
  | some b =>
    obtain ⟨target, hreaches, hb⟩ := exists_reaches hst hlookup
    have hget : st.get name scope = .ok b.value := by rw [get, hlookup]
    have hcontains : st.contains name scope = true := by rw [contains, hlookup]; rfl
    have hconstant : st.isConstant name scope = decide (b.binder = .lock) := by
      rw [isConstant, hlookup]
      rfl
    rw [hget, hcontains, hconstant]
    refine ⟨by simp, by simp, fun target' c hreaches' hc => ?_, hdefine, ?_⟩
    · rw [hreaches'.lookup? hst hc] at hlookup
      cases hlookup
      exact ⟨rfl, rfl⟩
    · intro value result st' hassign
      cases hbinder : b.binder with
      | lock =>
        rw [assign_of_locked hst hreaches hb hbinder] at hassign
        cases hassign
        simp
      | hold =>
        obtain ⟨st'', hassign', hoverwrites, hrebinds⟩ :=
          assign_of_free hst hreaches hb hbinder value
        cases hassign.symm.trans hassign'
        exact ⟨by simp, by simp, fun _ => ⟨target, b, hreaches, hb, hoverwrites, hrebinds⟩⟩

/-- A name that is bound in the root scope, and locked in one of the two scopes in it. -/
def shadowed : Store :=
  let root := (newScope none {}).2.define "x" (.string "outer") .hold 0
  let locked := (root.newScope (some 0)).2.define "x" (.string "inner") .lock 1
  ((locked.newScope (some 1)).2.newScope (some 0)).2

theorem grown_shadowed : shadowed.Grown := by
  have hroot : Grown (newScope none {}).2 := .newScope (.empty rfl) (by simp)
  have houter := hroot.define "x" (.string "outer") .hold (show 0 < 1 by decide)
  have hinner : Grown (newScope (some 0) _).2 := houter.newScope (by simp [newScope, define])
  have hlocked := hinner.define "x" (.string "inner") .lock (show 1 < 2 by decide)
  have hwithin : Grown (newScope (some 1) _).2 := hlocked.newScope (by simp [newScope, define])
  exact hwithin.newScope (by simp [newScope, define])

theorem not_reaches_shadowed : ¬ shadowed.Reaches "x" 0 2 := by
  intro h
  cases h with
  | @around _ p _ hp hreaches =>
    obtain rfl : 1 = p := Option.some.inj hp
    cases hreaches with
    | around hnone => cases hnone

theorem scopes_agree_shadowed : shadowed.Grown ∧
    shadowed.get "x" 2 = .ok (.string "inner") ∧
    shadowed.assign "x" .null 2 = (.error (.constantReassignment "x"), shadowed) ∧
    ∃ st', shadowed.assign "x" .null 3 = (.ok (), st') ∧ st'.get "x" 0 = .ok .null ∧
      st'.get "x" 2 = .ok (.string "inner") := by
  have hinner : shadowed.Reaches "x" 1 2 := .around rfl rfl .here
  have houter : shadowed.Reaches "x" 0 3 := .around rfl rfl .here
  obtain ⟨hgets, -, hmeans, -, hassign⟩ := scopes_agree grown_shadowed "x" 2
  obtain ⟨hgets', -, hmeans', -, hassign'⟩ := scopes_agree grown_shadowed "x" 3
  obtain ⟨hvalue, hlocked⟩ := hmeans 1 _ hinner rfl
  obtain ⟨hvalue', hfree⟩ := hmeans' 0 _ houter rfl
  refine ⟨grown_shadowed, hvalue, ?_, ?_⟩
  · rcases hresult : shadowed.assign "x" .null 2 with ⟨result, st'⟩
    obtain ⟨hok, herror, -⟩ := hassign .null result st' hresult
    cases result with
    | ok => cases hlocked.symm.trans (hok.1 rfl).2
    | error cause =>
      obtain ⟨rfl, rfl⟩ := herror cause rfl
      rw [hgets.1 ⟨_, hvalue⟩]
      rfl
  · rcases hresult : shadowed.assign "x" .null 3 with ⟨result, st'⟩
    obtain ⟨hok, -, hchange⟩ := hassign' .null result st' hresult
    obtain rfl : result = .ok () := hok.2 ⟨hgets'.1 ⟨_, hvalue'⟩, hfree⟩
    obtain ⟨target, b, hreaches, hb, -, hrebinds⟩ := hchange rfl
    have hst := grown_shadowed.nested
    obtain rfl : 0 = target :=
      Option.some.inj ((houter.nearest? hst rfl).symm.trans (hreaches.nearest? hst hb))
    refine ⟨st', rfl, (hrebinds.reached 0 .here).1, ?_⟩
    exact (hrebinds.apart 2 not_reaches_shadowed).1.trans hvalue

end Store
end Vibe
