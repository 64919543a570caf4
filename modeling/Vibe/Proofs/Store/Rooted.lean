import Mathlib.Data.List.Chain
import Vibe.Proofs.Store.Growth
import Vibe.Proofs.Store.Reach
import Vibe.Session

/-! Stores in which every scope leads to the root scope. A scope is made only in one that there is,
and nothing refers to a scope or a skill that there is not. -/

namespace Vibe

/-- There is nothing but what is in a store. Any statement may stand anywhere. -/
def Rules.inStore (st : Store) : Rules where
  value
    | .skill id => id < st.skills.size
    | _ => True
  home id := id < st.scopes.size
  fits _ _ := True
  value_of_not_shared v h := by
    cases v with
    | array | skill => cases h
    | _ => trivial
  fits_parts _ _ _ := trivial
  give_of_loop _ := trivial

namespace Store

/-- From a scope one comes outwards to the root scope, and to no scope twice. -/
structure LeadsHome (st : Store) (scope : Nat) : Prop where
  first : (st.chain scope).head? = some scope
  links : (st.chain scope).IsChain fun s p => st.parent? s = some p
  last : (st.chain scope).getLast? = some Machine.root
  distinct : (st.chain scope).Nodup

/-- The root scope is in no other, and every other one is in an older one. Whatever is referred to
is there. -/
structure Rooted (st : Store) : Prop where
  root : Machine.root < st.scopes.size
  top : st.parent? Machine.root = none
  parents : ∀ id < st.scopes.size, id ≠ Machine.root → ∃ p < id, st.parent? id = some p
  scopes : ∀ {id : Nat} {s : Scope}, st.scopes[id]? = some s → s.Lawful (.inStore st)
  arrays : ∀ {id : Nat} {vs : Array Value}, st.arrays[id]? = some vs →
    ∀ v ∈ vs, (Rules.inStore st).value v
  skills : ∀ {id : Nat} {s : Skill}, st.skills[id]? = some s → s.home < st.scopes.size

variable {st st' : Store} {name : String} {scope start id : Nat} {v : Value}

/-! ### What stays in a store -/

namespace Keeps

theorem value (h : st.Keeps st') (hv : (Rules.inStore st).value v) :
    (Rules.inStore st').value v := by
  cases v with
  | skill id => exact Nat.lt_of_lt_of_le hv h.size_skills
  | _ => trivial

theorem lawful {s : Scope} (h : st.Keeps st') (hs : s.Lawful (.inStore st)) :
    s.Lawful (.inStore st') where
  parent p hp := Nat.lt_of_lt_of_le (hs.parent p hp) h.size
  bindings b hb := h.value (hs.bindings b hb)

theorem meets {α : Type} {k : Asked α} {a : α} (h : st.Keeps st')
    (ha : (Rules.inStore st).Meets k a) : (Rules.inStore st').Meets k a := by
  cases k with
  | nothing => trivial
  | value => exact h.value ha
  | values => exact fun v hv => h.value (ha v hv)
  | flow c =>
    cases a with
    | normal => trivial
    | stop | skip => exact ⟨.nowhere, trivial⟩
    | give v => exact ⟨⟨none, .nowhere, trivial⟩, h.value ha.2⟩
  | skill => exact ⟨Nat.lt_of_lt_of_le ha.1 h.size, fun _ _ => trivial⟩
  | scope => exact Nat.lt_of_lt_of_le ha h.size

end Keeps

/-! ### Built-in skills -/

/-- Binds the names of some built-in skills in a scope. -/
def defineEach (bs : List Builtin) (scope : Nat) (st : Store) : Store :=
  bs.foldl (fun st b => st.define b.name (.builtin b) .hold scope) st

theorem Keeps.defineEach (st : Store) (bs : List Builtin) (scope : Nat) :
    st.Keeps (st.defineEach bs scope) := by
  induction bs generalizing st with
  | nil => exact .refl st
  | cons b bs ih => exact (Keeps.define st b.name (.builtin b) .hold scope).trans (ih _)

theorem binding?_defineEach {b : Builtin} {bs : List Builtin} (hb : b ∈ bs)
    (hscope : scope < st.scopes.size) :
    ((st.defineEach bs scope).binding? b.name scope).isSome = true := by
  induction bs generalizing st with
  | nil => cases hb
  | cons c bs ih =>
    have hkeeps := Keeps.define st c.name (.builtin c) .hold scope
    rcases List.mem_cons.1 hb with rfl | hb
    · have hbound : (st.define b.name (.builtin b) .hold scope).binding? b.name scope =
          some ⟨b.name, .builtin b, .hold⟩ := by
        have hs := Array.getElem?_eq_getElem hscope
        rw [binding?_modify_self (scopes_define _ _ _ _ _) hs]
        exact Scope.find?_define_self
      exact (Keeps.defineEach _ bs scope).names _ _ (by rw [hbound]; rfl)
    · exact ih hb (Nat.lt_of_lt_of_le hscope hkeeps.size)

namespace Rooted

/-! ### What there is -/

theorem readable (h : st.Rooted) : st.Readable (.inStore st) :=
  ⟨fun _ => h.scopes, fun _ => h.arrays⟩

theorem leadsHome (h : st.Rooted) (hscope : scope < st.scopes.size) : st.LeadsHome scope := by
  induction scope using Nat.strongRecOn with
  | ind scope ih =>
    by_cases hroot : scope = Machine.root
    · subst hroot
      have hchain : st.chain Machine.root = [Machine.root] := chain_of_top h.top hscope
      constructor <;> simp [hchain]
    · obtain ⟨p, hlt, hp⟩ := h.parents scope hscope hroot
      have hchain := chain_of_parent hp hlt
      have hrest := ih p hlt (Nat.lt_trans hlt hscope)
      refine ⟨?_, ?_, ?_, ?_⟩
      · rw [hchain, List.head?_cons]
      · rw [hchain, List.isChain_cons]
        refine ⟨fun q hq => ?_, hrest.links⟩
        rw [hrest.first] at hq
        cases hq
        exact hp
      · rw [hchain, List.getLast?_cons, hrest.last]
        rfl
      · -- The scopes further out are older.
        rw [hchain, List.nodup_cons]
        refine ⟨fun hmem => ?_, hrest.distinct⟩
        exact Nat.not_lt_of_le (le_of_mem_chain hmem) hlt

theorem root_mem_chain (h : st.Rooted) (hscope : scope < st.scopes.size) :
    Machine.root ∈ st.chain scope :=
  List.mem_of_getLast? (h.leadsHome hscope).last

/-- What is bound in the root scope means something everywhere. -/
theorem contains_of_root (h : st.Rooted) (hscope : scope < st.scopes.size)
    (hname : (st.binding? name Machine.root).isSome = true) : st.contains name scope = true :=
  contains_iff.2 ⟨Machine.root, h.root_mem_chain hscope, hname⟩

/-- Nothing can be reached but what is there. -/
theorem lt_of_reaches (h : st.Rooted) (hstart : start < st.scopes.size)
    (hid : st.ReachesScope start id) : id < st.scopes.size := by
  cases hid with
  | start => exact hstart
  | parent _ hs hp => exact (h.scopes hs).parent _ hp
  | home _ hs => exact h.skills hs

theorem value_of_reaches (h : st.Rooted) (hv : st.ReachesValue start v) :
    (Rules.inStore st).value v := by
  cases hv with
  | binding _ hs hb => exact (h.scopes hs).bindings _ hb
  | item _ hvs hv => exact h.arrays hvs v hv

/-! ### Changes -/

/-- Nothing is taken away, and what is new is in older scopes. -/
theorem of_keeps (h : st.Rooted) (hkeeps : st.Keeps st')
    (hnew : ∀ id < st'.scopes.size, st.scopes.size ≤ id → ∃ p < id, st'.parent? id = some p)
    (hscopes : ∀ {id : Nat} {s : Scope}, st'.scopes[id]? = some s → s.Lawful (.inStore st'))
    (harrays : ∀ {id : Nat} {vs : Array Value}, st'.arrays[id]? = some vs →
      ∀ v ∈ vs, (Rules.inStore st').value v)
    (hskills : ∀ {id : Nat} {s : Skill}, st'.skills[id]? = some s →
      s.home < st'.scopes.size) : st'.Rooted where
  root := Nat.lt_of_lt_of_le h.root hkeeps.size
  top := (hkeeps.parents _ h.root).trans h.top
  parents id hid hne := by
    by_cases hold : id < st.scopes.size
    · rw [hkeeps.parents id hold]
      exact h.parents id hold hne
    · exact hnew id hid (Nat.le_of_not_lt hold)
  scopes := hscopes
  arrays := harrays
  skills := hskills

theorem modifyScope {change : Scope → Scope} {target : Nat} (h : st.Rooted)
    (hkeeps : st.Keeps { st with scopes := st.scopes.modify target change })
    (hchange : ∀ s : Scope, s.Lawful (.inStore st) → (change s).Lawful (.inStore st)) :
    Rooted { st with scopes := st.scopes.modify target change } := by
  refine h.of_keeps hkeeps (fun id hid hold => ?_) (fun {id s} hs => ?_) ?_ ?_
  · rw [Array.size_modify] at hid
    exact (Nat.not_lt_of_le hold hid).elim
  · apply hkeeps.lawful
    rw [Array.getElem?_modify] at hs
    split at hs
    · obtain ⟨r, hr, rfl⟩ := Option.map_eq_some_iff.1 hs
      exact hchange r (h.scopes hr)
    · exact h.scopes hs
  · exact fun hvs v hv => hkeeps.value (h.arrays hvs v hv)
  · exact fun hs => Nat.lt_of_lt_of_le (h.skills hs) hkeeps.size

theorem define (h : st.Rooted) (name : String) (hv : (Rules.inStore st).value v)
    (binder : Binder) (scope : Nat) : (st.define name v binder scope).Rooted :=
  h.modifyScope (.define st name v binder scope) fun _ hs => hs.define hv

theorem assign (h : st.Rooted) (name : String) (hv : (Rules.inStore st).value v) (scope : Nat) :
    (st.assign name v scope).2.Rooted := by
  have hkeeps := Keeps.assign st name v scope
  rw [Store.assign] at hkeeps ⊢
  cases htarget : st.assignable name scope with
  | error cause => exact h
  | ok target =>
    rw [htarget] at hkeeps
    exact h.modifyScope hkeeps fun _ hs => hs.update name hv

theorem newScope {home : Nat} (h : st.Rooted) (hhome : home < st.scopes.size) :
    (st.newScope (some home)).2.Rooted := by
  have hkeeps := Keeps.newScope st (some home)
  refine h.of_keeps hkeeps (fun id hid hold => ?_) (fun {id s} hs => ?_) ?_ ?_
  · obtain rfl : id = st.scopes.size := by
      rw [Store.newScope, Array.size_push] at hid
      omega
    exact ⟨home, hhome, st.parent?_newScope _⟩
  · apply hkeeps.lawful
    rw [Store.newScope, Array.getElem?_push] at hs
    split at hs
    · cases hs
      refine ⟨fun p hp => ?_, fun b hb => (List.not_mem_nil hb).elim⟩
      cases hp
      exact hhome
    · exact h.scopes hs
  · exact fun hvs v hv => hkeeps.value (h.arrays hvs v hv)
  · exact fun hs => Nat.lt_of_lt_of_le (h.skills hs) hkeeps.size

/-- Only arrays and the dice are changed. -/
theorem of_arrays (h : st.Rooted) (hscopes : st'.scopes = st.scopes)
    (hskills : st'.skills = st.skills)
    (harrays : ∀ {id : Nat} {vs : Array Value}, st'.arrays[id]? = some vs →
      ∀ v ∈ vs, (Rules.inStore st).value v) : st'.Rooted := by
  have hkeeps : st.Keeps st' := .of_eq hscopes fun id s hs => by rwa [hskills]
  refine h.of_keeps hkeeps (fun id hid hold => ?_) (fun {id s} hs => ?_) ?_ (fun {id s} hs => ?_)
  · rw [hscopes] at hid
    exact (Nat.not_lt_of_le hold hid).elim
  · rw [hscopes] at hs
    exact hkeeps.lawful (h.scopes hs)
  · exact fun hvs v hv => hkeeps.value (harrays hvs v hv)
  · rw [hskills] at hs
    rw [hscopes]
    exact h.skills hs

theorem newArray {items : Array Value} (h : st.Rooted)
    (hitems : ∀ v ∈ items, (Rules.inStore st).value v) : (st.newArray items).2.Rooted := by
  refine h.of_arrays rfl rfl fun {id vs} hvs => ?_
  rw [Store.newArray, Array.getElem?_push] at hvs
  split at hvs
  · cases hvs
    exact hitems
  · exact h.arrays hvs

theorem modifyArray {change : Array Value → Array Value} (h : st.Rooted) (target : Nat)
    (hchange : ∀ vs : Array Value, (∀ v ∈ vs, (Rules.inStore st).value v) →
      ∀ v ∈ change vs, (Rules.inStore st).value v) : (st.modifyArray target change).Rooted := by
  refine h.of_arrays rfl rfl fun {id vs} hvs => ?_
  rw [Store.modifyArray, Array.getElem?_modify] at hvs
  split at hvs
  · obtain ⟨ws, hws, rfl⟩ := Option.map_eq_some_iff.1 hvs
    exact hchange ws (h.arrays hws)
  · exact h.arrays hvs

theorem newSkill {s : Skill} (h : st.Rooted) (hs : s.home < st.scopes.size) :
    (st.newSkill s).2.Rooted := by
  have hkeeps := Keeps.newSkill st s
  refine h.of_keeps hkeeps (fun id hid hold => ?_) ?_ ?_ (fun {id r} hr => ?_)
  · exact (Nat.not_lt_of_le hold hid).elim
  · exact fun hs => hkeeps.lawful (h.scopes hs)
  · exact fun hvs v hv => hkeeps.value (h.arrays hvs v hv)
  · rw [Store.newSkill, Array.getElem?_push] at hr
    split at hr
    · cases hr
      exact hs
    · exact h.skills hr

theorem call (h : st.Rooted) (b : Builtin) {args : List Value}
    (hargs : ∀ v ∈ args, (Rules.inStore st).value v) : (b.call args st).2.Rooted := by
  fun_cases Builtin.call b args st with
  | case2 id v =>
    refine h.modifyArray id fun vs hvs w hw => ?_
    rcases Array.mem_push.1 hw with hold | rfl
    · exact hvs w hold
    · exact hargs w (by simp)
  | case4 id last =>
    refine h.modifyArray id fun vs hvs w hw => hvs w ?_
    rw [← Array.mem_toList_iff, Array.toList_pop] at hw
    exact Array.mem_toList_iff.1 ((List.dropLast_sublist vs.toList).subset hw)
  | case9 => exact h.of_arrays rfl rfl h.arrays
  | _ => exact h

/-! ### The beginning -/

theorem defineEach (h : st.Rooted) (bs : List Builtin) (scope : Nat) :
    (st.defineEach bs scope).Rooted := by
  induction bs generalizing st with
  | nil => exact h
  | cons b bs ih =>
    have hb : (Rules.inStore st).value (.builtin b) := trivial
    exact ih (h.define b.name hb .hold scope)

end Rooted

theorem rooted_initial (dice : Dice) : (initial dice).Rooted := by
  apply Rooted.defineEach
  refine ⟨Nat.zero_lt_one, rfl, fun id hid hne => ?_, fun {id s} hs => ?_, ?_, ?_⟩
  · exact (hne (Nat.lt_one_iff.1 hid)).elim
  · have hlt : id < 1 := (Array.getElem?_eq_some_iff.1 hs).1
    obtain rfl := Nat.lt_one_iff.1 hlt
    cases hs
    exact ⟨nofun, nofun⟩
  · exact fun hvs => by simp at hvs
  · exact fun hs => by simp at hs

/-- The built-in skills are bound in the root scope from the beginning. -/
theorem binding_initial (dice : Dice) (b : Builtin) :
    ((initial dice).binding? b.name Machine.root).isSome = true := by
  have hall : b ∈ Builtin.all := by cases b <;> decide
  exact binding?_defineEach hall Nat.zero_lt_one

end Store
end Vibe
