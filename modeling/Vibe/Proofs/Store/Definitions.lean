import Mathlib.Data.List.Induction
import Vibe.Proofs.Store.Growth
import Vibe.Proofs.Store.Histories

/-! Whatever is done to the scopes of a store, each lists the names that were defined in it once, as
the latest definitions say and in the order of these, with the values that they were given last. -/

namespace Vibe

/-- A name that is defined, and how. -/
structure Definition where
  name : String
  binder : Binder
  deriving DecidableEq

/-- The latest definition of each name, in their order. -/
def latest : List Definition → List Definition
  | [] => []
  | d :: ds => if d.name ∈ ds.map Definition.name then latest ds else d :: latest ds

/-- Of two names that are the same the later definition counts. -/
theorem latest_append (ds es : List Definition) :
    latest (ds ++ es) = (latest ds).filter (·.name ∉ es.map Definition.name) ++ latest es := by
  induction ds with
  | nil => rfl
  | cons d ds ih =>
    rw [List.cons_append, latest, latest, List.map_append, ih]
    by_cases hlater : d.name ∈ ds.map Definition.name
    · rw [if_pos (List.mem_append_left _ hlater), if_pos hlater]
    · by_cases hagain : d.name ∈ es.map Definition.name
      · rw [if_pos (List.mem_append_right _ hagain), if_neg hlater,
          List.filter_cons_of_neg (by simpa using hagain)]
      · have hnone : d.name ∉ ds.map Definition.name ++ es.map Definition.name :=
          fun hmem => (List.mem_append.1 hmem).elim hlater hagain
        rw [if_neg hnone, if_neg hlater, List.filter_cons_of_pos (by simpa using hagain),
          List.cons_append]

theorem latest_concat (ds : List Definition) (d : Definition) :
    latest (ds ++ [d]) = (latest ds).filter (·.name ≠ d.name) ++ [d] := by
  simp [latest_append, latest]

theorem mem_of_mem_latest {ds : List Definition} {d : Definition} (h : d ∈ latest ds) : d ∈ ds := by
  induction ds with
  | nil => exact h
  | cons e ds ih =>
    rw [latest] at h
    split at h
    · exact List.mem_cons_of_mem _ (ih h)
    · obtain rfl | h := List.mem_cons.1 h
      · exact List.mem_cons_self
      · exact List.mem_cons_of_mem _ (ih h)

theorem mem_names_latest {ds : List Definition} {name : String} :
    name ∈ (latest ds).map Definition.name ↔ name ∈ ds.map Definition.name := by
  induction ds with
  | nil => rfl
  | cons d ds ih =>
    rw [latest, List.map_cons, List.mem_cons]
    split
    · next hlater =>
      rw [ih]
      exact ⟨.inr, fun h => h.elim (fun heq => heq ▸ hlater) id⟩
    · rw [List.map_cons, List.mem_cons, ih]

/-- How the name of a binding was defined. -/
def Binding.definition (b : Binding) : Definition :=
  ⟨b.name, b.binder⟩

theorem definitions_forget (bs : List Binding) (name : String) :
    (bs.filter (·.name != name)).map Binding.definition =
      (bs.map Binding.definition).filter (·.name ≠ name) := by
  rw [List.filter_map]
  congr 1
  refine List.filter_congr fun c _ => ?_
  rw [Function.comp_apply, Bool.eq_iff_iff, bne_iff_ne, decide_eq_true_iff, Binding.definition]

namespace Scope

variable {s s' : Scope}

/-- The names of a scope, as they were defined. -/
def definitions (s : Scope) : List Definition :=
  s.bindings.map Binding.definition

theorem definitions_define (s : Scope) (b : Binding) :
    (s.define b).definitions = s.definitions.filter (·.name ≠ b.name) ++ [b.definition] := by
  rw [definitions, define, List.map_append, definitions_forget, definitions, List.map_singleton]

/-- Assignments define nothing. -/
theorem Reassigned.definitions (h : s.Reassigned s') : s'.definitions = s.definitions := by
  have hsame : List.Forall₂ (fun b b' : Binding => b.definition = b'.definition) s.bindings
      s'.bindings :=
    h.bindings.imp fun b b' hkept => by
      rw [Binding.definition, Binding.definition, hkept.name, hkept.binder]
  rw [eq_comm, Scope.definitions, Scope.definitions, ← List.forall₂_eq_eq_eq,
    List.forall₂_map_left_iff, List.forall₂_map_right_iff]
  exact hsame

end Scope

/-! ### Changes of a scope -/

/-- What is done to the bindings of a scope. -/
inductive Change
  | define (b : Binding)
  | assign (name : String) (value : Value)

namespace Change

variable {bs : List Binding} {name : String}

/-- How a change defines a name, if it does. -/
def definition? : Change → Option Definition
  | define b => some b.definition
  | assign .. => none

/-- The value that a change gives to a name that is defined like this in the end. -/
def value? (d : Definition) : Change → Option Value
  | define b => if b.name = d.name then some b.value else none
  | assign name value => if name = d.name ∧ d.binder = .hold then some value else none

/-- The definitions among some changes. -/
def definitions (cs : List Change) : List Definition :=
  cs.filterMap definition?

/-- The value that a name was given last by some changes, if the definition is the latest one of it:
the value in that definition or, unless the name is locked, in a later assignment. -/
def lastValue? (cs : List Change) (d : Definition) : Option Value :=
  (cs.filterMap (value? d)).getLast?

/-- The bindings of a scope after a change. -/
def apply (bs : List Binding) : Change → List Binding
  | define b => bs.filter (·.name != b.name) ++ [b]
  | assign name value =>
    bs.map fun b => if b.name = name ∧ b.binder = .hold then { b with value } else b

theorem lastValue?_concat (cs : List Change) (c : Change) (d : Definition) :
    lastValue? (cs ++ [c]) d = (c.value? d).or (lastValue? cs d) := by
  rw [lastValue?, List.filterMap_append, List.getLast?_append, lastValue?]
  cases h : c.value? d <;> simp [h]

theorem definitions_concat (cs : List Change) (c : Change) :
    definitions (cs ++ [c]) = definitions cs ++ c.definition?.toList := by
  rw [definitions, List.filterMap_append, definitions]
  cases h : c.definition? <;> simp [h]

/-- An assignment leaves the names in their places. -/
theorem definitions_assign (bs : List Binding) (name : String) (value : Value) :
    (apply bs (.assign name value)).map Binding.definition = bs.map Binding.definition := by
  rw [apply, List.map_map]
  refine List.map_congr_left fun b _ => ?_
  rw [Function.comp_apply]
  split <;> rfl

theorem definitions_foldl (cs : List Change) :
    (cs.foldl apply []).map Binding.definition = latest (definitions cs) := by
  induction cs using List.reverseRecOn with
  | nil => rfl
  | append_singleton cs c ih =>
    rw [List.foldl_append, definitions_concat]
    cases c with
    | define b =>
      refine Eq.trans ?_ (latest_concat (definitions cs) b.definition).symm
      rw [← ih]
      exact List.map_append.trans (congrArg (· ++ _) (definitions_forget _ _))
    | assign name value =>
      refine (definitions_assign _ name value).trans ?_
      rw [ih, definition?, Option.toList_none, List.append_nil]

/-- What is bound has the value that it was given last. -/
theorem lastValue?_of_mem_foldl (cs : List Change) :
    ∀ b ∈ cs.foldl apply [], lastValue? cs b.definition = some b.value := by
  induction cs using List.reverseRecOn with
  | nil => simp
  | append_singleton cs c ih =>
    intro b hb
    rw [List.foldl_append, List.foldl_cons, List.foldl_nil] at hb
    rw [lastValue?_concat]
    cases c with
    | define new =>
      obtain hb | hb := List.mem_append.1 hb
      · obtain ⟨hb, hne⟩ := List.mem_filter.1 hb
        have hnone : value? b.definition (.define new) = none :=
          if_neg (Ne.symm (bne_iff_ne.1 hne))
        rw [hnone, Option.none_or]
        exact ih b hb
      · obtain rfl := List.mem_singleton.1 hb
        have hgiven : value? b.definition (.define b) = some b.value := if_pos rfl
        rw [hgiven, Option.some_or]
    | assign name value =>
      obtain ⟨old, hold, rfl⟩ := List.mem_map.1 hb
      by_cases hgives : old.name = name ∧ old.binder = .hold
      · rw [if_pos hgives, value?, if_pos ⟨hgives.1.symm, hgives.2⟩, Option.some_or]
      · have hnone : value? old.definition (.assign name value) = none :=
          if_neg fun h => hgives ⟨h.1.symm, h.2⟩
        rw [if_neg hgives, hnone, Option.none_or]
        exact ih old hold

theorem apply_assign_of_locked (value : Value) (h : ∀ b ∈ bs, b.name = name → b.binder ≠ .hold) :
    apply bs (.assign name value) = bs := by
  refine (List.map_congr_left fun b hb => ?_).trans (List.map_id bs)
  exact if_neg fun hname => h b hb hname.1 hname.2

end Change

/-- A name that is not locked gets another value. -/
theorem Scope.bindings_update_eq_apply {s : Scope} {b : Binding} {name : String}
    (h : s.find? name = some b) (hfree : b.binder = .hold) (value : Value) :
    (s.update name value).bindings = Change.apply s.bindings (.assign name value) := by
  refine List.map_congr_left fun c hc => ?_
  by_cases hname : c.name = name
  · obtain rfl := Scope.eq_of_find? h hc hname
    simp [hname, hfree]
  · simp [hname]

namespace Store

variable {st st' : Store} {name : String} {scope target : Nat} {value : Value} {b : Binding}
  {s : Scope} {cs : List Change}

theorem bindings_of_getElem? (hs : st.scopes[target]? = some s) :
    st.bindings target = s.bindings := by
  rw [bindings, hs]
  rfl

theorem mem_bindings_iff :
    b ∈ st.bindings target ↔ ∃ s, st.scopes[target]? = some s ∧ b ∈ s.bindings := by
  cases hs : st.scopes[target]? with
  | none => simp [bindings, hs]
  | some s => simp [bindings_of_getElem? hs]

theorem binding?_of_mem (h : b ∈ st.bindings target) : st.binding? b.name target = some b := by
  obtain ⟨s, hs, hb⟩ := mem_bindings_iff.1 h
  rw [binding?_of_getElem? hs]
  exact Scope.find?_of_mem hb

theorem mem_of_binding? (h : st.binding? name target = some b) :
    b ∈ st.bindings target ∧ b.name = name := by
  obtain ⟨s, hs, hfind⟩ := Option.bind_eq_some_iff.1 h
  exact ⟨mem_bindings_iff.2 ⟨s, hs, List.mem_of_find?_eq_some hfind⟩, Scope.name_of_find? hfind⟩

theorem get_of_mem (hs : st.scopes[scope]? = some s) (hb : b ∈ s.bindings) :
    st.get b.name scope = .ok b.value := by
  rw [get, lookup?_of_binding (binding?_of_mem (mem_bindings_iff.2 ⟨s, hs, hb⟩))]

theorem nodup_names (st : Store) (target : Nat) :
    ((st.bindings target).map Binding.name).Nodup := by
  cases hs : st.scopes[target]? with
  | none => simp [bindings, hs]
  | some s =>
    rw [bindings_of_getElem? hs]
    exact s.distinct

theorem bindings_congr (h : st'.scopes[target]? = st.scopes[target]?) :
    st'.bindings target = st.bindings target := by
  rw [bindings, h, bindings]

/-! ### What comes of changes -/

theorem bindings_define (h : target < st.scopes.size) (b : Binding) :
    (st.define b.name b.value b.binder target).bindings target =
      Change.apply (st.bindings target) (.define b) := by
  have hs := Array.getElem?_eq_getElem h
  rw [bindings_of_getElem? hs]
  refine bindings_of_getElem? (s := st.scopes[target].define b) ?_
  rw [scopes_define, Array.getElem?_modify, if_pos rfl, hs]
  rfl

/-- An assignment is made in the nearest scope that binds the name. -/
theorem reaches_of_assignable (hst : st.Nested) (h : st.assignable name scope = .ok target) :
    st.Reaches name target scope ∧ ∃ b, st.binding? name target = some b := by
  obtain ⟨s, b, hs, hfind, -⟩ := assignable_eq_ok h
  have hb : st.binding? name target = some b := (binding?_of_getElem? hs name).trans hfind
  have hnear := nearest?_of_assignable h
  have hlookup : st.lookup? name scope = some b := by
    rw [lookup?, hnear]
    exact hb
  obtain ⟨target', hreaches, hb'⟩ := exists_reaches hst hlookup
  obtain rfl : target' = target :=
    Option.some.inj ((hreaches.nearest? hst hb').symm.trans hnear)
  exact ⟨hreaches, b, hb⟩

/-- An assignment leaves the scopes alone in which it is not made. -/
theorem bindings_assign_of_ne (value : Value)
    (h : ∀ t, st.assignable name scope = .ok t → t ≠ target) :
    (st.assign name value scope).2.bindings target = st.bindings target := by
  rw [assign]
  cases hto : st.assignable name scope with
  | error cause => rfl
  | ok t =>
    refine bindings_congr ?_
    rw [Array.getElem?_modify, if_neg (h t hto)]

theorem bindings_assign_apart (hst : st.Nested) (h : ¬ st.Reaches name target scope)
    (value : Value) : (st.assign name value scope).2.bindings target = st.bindings target := by
  refine bindings_assign_of_ne value fun t hto => ?_
  rintro rfl
  exact h (reaches_of_assignable hst hto).1

/-- What comes of an assignment in a scope that it reaches. -/
theorem bindings_assign (hst : st.Nested) (h : st.Reaches name target scope) (value : Value) :
    (st.assign name value scope).2.bindings target =
      Change.apply (st.bindings target) (.assign name value) := by
  cases hb : st.binding? name target with
  | none =>
    rw [bindings_assign_of_ne value, Change.apply_assign_of_locked]
    · rintro b hmem rfl
      cases hb.symm.trans (binding?_of_mem hmem)
    · rintro t hto rfl
      obtain ⟨-, b, hbound⟩ := reaches_of_assignable hst hto
      cases hb.symm.trans hbound
  | some b =>
    obtain ⟨s, hs, hfind⟩ := Option.bind_eq_some_iff.1 hb
    rw [bindings_of_getElem? hs]
    cases hbinder : b.binder with
    | lock =>
      rw [assign_of_locked hst h hb hbinder, bindings_of_getElem? hs,
        Change.apply_assign_of_locked]
      intro c hc hname
      rw [Scope.eq_of_find? hfind hc hname, hbinder]
      exact nofun
    | hold =>
      rw [assign_eq_of_free hst h hb hbinder, ← Scope.bindings_update_eq_apply hfind hbinder]
      refine bindings_of_getElem? ?_
      rw [Array.getElem?_modify, if_pos rfl, hs]
      rfl

/-! ### Histories -/

/-- The stores in which a scope was made and then changed like this, whatever was done besides. An
assignment comes to the scope that it is made in and from there outwards to one scope after the
other, up to the nearest that binds the name. -/
inductive Changed (target : Nat) : List Change → Store → Prop
  | made {st : Store} {parent : Option Nat} : st.Nested → (∀ p ∈ parent, p < st.scopes.size) →
      st.scopes.size = target → Changed target [] (st.newScope parent).2
  | define {cs : List Change} {st : Store} (b : Binding) : Changed target cs st →
      Changed target (cs ++ [.define b]) (st.define b.name b.value b.binder target)
  | assign {cs : List Change} {st : Store} {scope : Nat} (name : String) (value : Value) :
      Changed target cs st → st.Reaches name target scope →
      Changed target (cs ++ [.assign name value]) (st.assign name value scope).2
  | newScope {cs : List Change} {st : Store} {parent : Option Nat} : Changed target cs st →
      (∀ p ∈ parent, p < st.scopes.size) → Changed target cs (st.newScope parent).2
  | defineApart {cs : List Change} {st : Store} {scope : Nat} (name : String) (value : Value)
      (binder : Binder) : Changed target cs st → scope ≠ target →
      Changed target cs (st.define name value binder scope)
  | assignApart {cs : List Change} {st : Store} {scope : Nat} (name : String) (value : Value) :
      Changed target cs st → ¬ st.Reaches name target scope →
      Changed target cs (st.assign name value scope).2
  | apart {cs : List Change} {st st' : Store} : Changed target cs st → st'.scopes = st.scopes →
      Changed target cs st'

/-- The store after a change that is made in a scope. -/
def change (scope : Nat) (st : Store) : Change → Store
  | .define b => st.define b.name b.value b.binder scope
  | .assign name value => (st.assign name value scope).2

/-- A new scope can be changed in any way. -/
theorem changed_foldl {parent : Option Nat} (hst : st.Nested)
    (hparent : ∀ p ∈ parent, p < st.scopes.size) (cs : List Change) :
    Changed st.scopes.size cs (cs.foldl (change st.scopes.size) (st.newScope parent).2) := by
  induction cs using List.reverseRecOn with
  | nil => exact .made hst hparent rfl
  | append_singleton cs c ih =>
    rw [List.foldl_append]
    cases c with
    | define b => exact ih.define b
    | assign name value => exact ih.assign name value .here

namespace Changed

theorem nested (h : Changed target cs st) : st.Nested := by
  induction h with
  | made hst hparent => exact hst.newScope hparent
  | define b _ ih => exact ih.define b.name b.value b.binder target
  | @assign _ _ scope name value _ _ ih => exact ih.assign name value scope
  | newScope _ hparent ih => exact ih.newScope hparent
  | @defineApart _ _ scope name value binder _ _ ih => exact ih.define name value binder scope
  | @assignApart _ _ scope name value _ _ ih => exact ih.assign name value scope
  | @apart _ st st' _ hscopes ih => exact ih.congr fun s => by rw [parent?, hscopes, parent?]

theorem lt_size (h : Changed target cs st) : target < st.scopes.size := by
  induction h with
  | made _ _ htarget => simp [Store.newScope, htarget]
  | @define _ st b _ ih =>
    exact Nat.lt_of_lt_of_le ih (Keeps.define st b.name b.value b.binder target).size
  | @assign _ st scope name value _ _ ih =>
    exact Nat.lt_of_lt_of_le ih (Keeps.assign st name value scope).size
  | @newScope _ st parent _ _ ih => exact Nat.lt_of_lt_of_le ih (Keeps.newScope st parent).size
  | @defineApart _ st scope name value binder _ _ ih =>
    exact Nat.lt_of_lt_of_le ih (Keeps.define st name value binder scope).size
  | @assignApart _ st scope name value _ _ ih =>
    exact Nat.lt_of_lt_of_le ih (Keeps.assign st name value scope).size
  | apart _ hscopes ih => rwa [hscopes]

/-- The bindings of a scope are what its changes have made of none. -/
theorem bindings_eq (h : Changed target cs st) : st.bindings target = cs.foldl Change.apply [] := by
  induction h with
  | made _ _ htarget => simp [bindings, Store.newScope, ← htarget]
  | @define cs st b h ih =>
    rw [List.foldl_append, ← ih]
    exact bindings_define h.lt_size b
  | assign name value h hreaches ih =>
    rw [List.foldl_append, ← ih]
    exact bindings_assign h.nested hreaches value
  | @newScope _ st parent h _ ih =>
    refine Eq.trans (bindings_congr ?_) ih
    rw [Store.newScope, Array.getElem?_push_lt h.lt_size, Array.getElem?_eq_getElem h.lt_size]
  | @defineApart _ st scope name value binder _ hne ih =>
    refine Eq.trans (bindings_congr ?_) ih
    rw [scopes_define, Array.getElem?_modify, if_neg hne]
  | assignApart name value h hreaches ih =>
    exact (bindings_assign_apart h.nested hreaches value).trans ih
  | apart _ hscopes ih => exact Eq.trans (bindings_congr (by rw [hscopes])) ih

end Changed

end Store

end Vibe
