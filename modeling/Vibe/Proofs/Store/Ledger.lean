import Mathlib.Data.List.Sort
import Vibe.Proofs.Store.Definitions

/-! Another way to keep the bindings of a scope: in a table that has no order of its own. Each has
the number of its definition, and by these numbers they are listed. -/

namespace Vibe

/-- What a name is bound to, and the number of the definition. -/
structure Slot where
  value : Value
  binder : Binder
  number : Nat

/-- The bindings of a scope by their names, and the number that the next definition has. -/
structure Ledger where
  slots : Std.HashMap String Slot := {}
  next : Nat := 0

namespace Ledger

/-- Binds a name anew. -/
def define (b : Binding) (l : Ledger) : Ledger where
  slots := l.slots.insert b.name ⟨b.value, b.binder, l.next⟩
  next := l.next + 1

/-- Gives a name another value, unless it is locked. A name that is not bound here is not answered
for. -/
def assign (name : String) (value : Value) (l : Ledger) :
    Option (Except RuntimeCause Unit) × Ledger :=
  match l.slots[name]? with
  | none => (none, l)
  | some slot =>
    if slot.binder = .lock then (some (.error (.constantReassignment name)), l)
    else (some (.ok ()), { l with slots := l.slots.insert name { slot with value } })

/-- The table after a change of the scope. -/
def change (l : Ledger) : Change → Ledger
  | .define b => l.define b
  | .assign name value => (l.assign name value).2

/-- The table of a scope that was changed like this. -/
def ofChanges (cs : List Change) : Ledger :=
  cs.foldl change {}

/-- An entry of a table. -/
abbrev Entry := String × Slot

def Entry.binding (e : Entry) : Binding :=
  ⟨e.1, e.2.value, e.2.binder⟩

/-- The entry with another value, if it has the name and is not locked. -/
def Entry.given (name : String) (value : Value) (e : Entry) : Entry :=
  if e.1 = name ∧ e.2.binder = .hold then (e.1, { e.2 with value }) else e

/-- The entries of a table, which come in any order, by their numbers. -/
def listed (es : List Entry) : List Binding :=
  (es.mergeSort fun e e' => e.2.number ≤ e'.2.number).map Entry.binding

/-- The entries of a table in the order of their definitions. -/
structure Records (l : Ledger) (es : List Entry) : Prop where
  entry : ∀ name slot, (name, slot) ∈ es ↔ l.slots[name]? = some slot
  increasing : es.Pairwise fun e e' => e.2.number < e'.2.number
  below : ∀ e ∈ es, e.2.number < l.next

variable {l : Ledger} {es es' : List Entry} {name : String} {value : Value} {b : Binding}
  {slot : Slot} {cs : List Change}

theorem assign_of_unbound (h : l.slots[name]? = none) (value : Value) :
    l.assign name value = (none, l) := by
  rw [assign, h]

theorem assign_of_locked (h : l.slots[name]? = some slot) (hlock : slot.binder = .lock)
    (value : Value) :
    l.assign name value = (some (.error (.constantReassignment name)), l) := by
  rw [assign, h]
  exact if_pos hlock

theorem assign_of_free (h : l.slots[name]? = some slot) (hfree : slot.binder = .hold)
    (value : Value) : l.assign name value =
      (some (.ok ()), { l with slots := l.slots.insert name { slot with value } }) := by
  rw [assign, h]
  exact if_neg (by simp [hfree])

namespace Entry

theorem name_given (name : String) (value : Value) (e : Entry) :
    (e.given name value).1 = e.1 := by
  rw [given]
  split <;> rfl

theorem number_given (name : String) (value : Value) (e : Entry) :
    (e.given name value).2.number = e.2.number := by
  rw [given]
  split <;> rfl

theorem binding_given (name : String) (value : Value) (e : Entry) :
    (e.given name value).binding =
      if e.binding.name = name ∧ e.binding.binder = .hold then { e.binding with value }
      else e.binding := by
  rw [given]
  exact apply_ite binding _ _ _

theorem bindings_forget (es : List Entry) (name : String) :
    (es.filter (·.1 != name)).map binding = (es.map binding).filter (·.name != name) := by
  rw [List.filter_map]
  rfl

end Entry

namespace Records

/-- Each number is that of one entry. -/
theorem nodup_numbers (h : l.Records es) : (es.map fun e => e.2.number).Nodup :=
  List.pairwise_map.2 (h.increasing.imp Nat.ne_of_lt)

theorem perm (h : l.Records es) : es.Perm l.slots.toList := by
  have htable : l.slots.toList.Nodup := by
    refine Std.HashMap.distinct_keys_toList.imp ?_
    rintro e _ hne rfl
    simp at hne
  refine (List.perm_ext_iff_of_nodup h.nodup_numbers.of_map htable).2 fun e => ?_
  rw [h.entry, Std.HashMap.mem_toList_iff_getElem?_eq_some]

/-- In whatever order the entries come, sorted by their numbers they are in the order of their
definitions. -/
theorem listed_eq (h : l.Records es) (hperm : es'.Perm l.slots.toList) :
    listed es' = es.map Entry.binding := by
  let le : Entry → Entry → Bool := fun e e' => e.2.number ≤ e'.2.number
  have hsorted : (es'.mergeSort le).Pairwise fun e e' => le e e' = true := by
    refine List.pairwise_mergeSort ?_ ?_ es'
    · simp only [le, decide_eq_true_iff]
      exact fun _ _ _ => Nat.le_trans
    · simp only [le, Bool.or_eq_true, decide_eq_true_iff]
      exact fun _ _ => Nat.le_total _ _
  have hsame : (es'.mergeSort le).Perm es :=
    ((List.mergeSort_perm es' le).trans hperm).trans h.perm.symm
  have hone : es'.mergeSort le = es := by
    refine hsame.eq_of_pairwise (fun e e' he he' hle hge => ?_) hsorted
      (h.increasing.imp fun hlt => decide_eq_true (Nat.le_of_lt hlt))
    exact List.inj_on_of_nodup_map h.nodup_numbers (hsame.mem_iff.1 he) he'
      (Nat.le_antisymm (of_decide_eq_true hle) (of_decide_eq_true hge))
  exact congrArg (List.map Entry.binding) hone

theorem empty : Records {} [] where
  entry := by simp
  increasing := .nil
  below := by simp

theorem define (h : l.Records es) (b : Binding) : (l.define b).Records
    (es.filter (·.1 != b.name) ++ [(b.name, ⟨b.value, b.binder, l.next⟩)]) where
  entry name slot := by
    rw [Ledger.define, Std.HashMap.getElem?_insert, List.mem_append, List.mem_filter,
      List.mem_singleton, h.entry]
    by_cases hname : b.name = name
    · simp [hname, eq_comm]
    · simp [hname, Ne.symm hname]
  increasing := by
    refine List.pairwise_append.2 ⟨h.increasing.filter _, List.pairwise_singleton _ _, ?_⟩
    intro e he e' he'
    obtain rfl := List.mem_singleton.1 he'
    exact h.below e (List.mem_of_mem_filter he)
  below e he := by
    obtain he | he := List.mem_append.1 he
    · exact Nat.lt_succ_of_lt (h.below e (List.mem_of_mem_filter he))
    · obtain rfl := List.mem_singleton.1 he
      exact Nat.lt_succ_self _

theorem given_of_not_free (h : l.Records es) (value : Value)
    (hslot : ∀ slot, l.slots[name]? = some slot → slot.binder ≠ .hold) :
    es.map (Entry.given name value) = es := by
  refine (List.map_congr_left fun e he => ?_).trans (List.map_id es)
  refine if_neg fun hfree => hslot e.2 ?_ hfree.2
  rw [← hfree.1]
  exact (h.entry e.1 e.2).1 he

theorem mem_given_iff (h : l.Records es) (hslot : l.slots[name]? = some slot)
    (hfree : slot.binder = .hold) (value : Value) (other : String) (slot' : Slot) :
    (other, slot') ∈ es.map (Entry.given name value) ↔
      (l.slots.insert name { slot with value })[other]? = some slot' := by
  rw [Std.HashMap.getElem?_insert, List.mem_map]
  by_cases hname : name = other
  · subst hname
    have hgiven : Entry.given name value (name, slot) = (name, { slot with value }) :=
      if_pos ⟨rfl, hfree⟩
    rw [if_pos (beq_self_eq_true name), Option.some_inj]
    constructor
    · rintro ⟨e, he, heq⟩
      obtain rfl : e.1 = name := (Entry.name_given name value e).symm.trans (by rw [heq])
      obtain rfl : e.2 = slot := Option.some.inj (((h.entry e.1 e.2).1 he).symm.trans hslot)
      exact congrArg Prod.snd (hgiven.symm.trans heq)
    · rintro rfl
      exact ⟨(name, slot), (h.entry name slot).2 hslot, hgiven⟩
  · have hkept : ∀ slot, Entry.given name value (other, slot) = (other, slot) :=
      fun _ => if_neg fun hgiven => hname hgiven.1.symm
    rw [if_neg (by simpa using hname), ← h.entry]
    constructor
    · rintro ⟨e, he, heq⟩
      obtain rfl : e.1 = other := (Entry.name_given name value e).symm.trans (by rw [heq])
      rwa [← heq, hkept e.2]
    · exact fun he => ⟨_, he, hkept slot'⟩

/-- What is assigned to keeps its number. -/
theorem assign (h : l.Records es) (name : String) (value : Value) :
    (l.assign name value).2.Records (es.map (Entry.given name value)) := by
  cases hslot : l.slots[name]? with
  | none =>
    rw [assign_of_unbound hslot, h.given_of_not_free value (by rw [hslot]; exact nofun)]
    exact h
  | some slot =>
    cases hbinder : slot.binder with
    | lock =>
      rw [assign_of_locked hslot hbinder, h.given_of_not_free value (by simp [hslot, hbinder])]
      exact h
    | hold =>
      rw [assign_of_free hslot hbinder]
      refine ⟨h.mem_given_iff hslot hbinder value, ?_, ?_⟩
      · rw [List.pairwise_map]
        simpa only [Entry.number_given] using h.increasing
      · simpa only [List.forall_mem_map, Entry.number_given] using h.below

end Records

/-- The entries of a table, in the order of their definitions, are the bindings that changes make of
none. -/
theorem exists_records (cs : List Change) : ∃ es, (ofChanges cs).Records es ∧
    es.map Entry.binding = cs.foldl Change.apply [] := by
  induction cs using List.reverseRecOn with
  | nil => exact ⟨[], .empty, rfl⟩
  | append_singleton cs c ih =>
    obtain ⟨es, hes, hbindings⟩ := ih
    rw [ofChanges, List.foldl_append, List.foldl_append, ← hbindings]
    cases c with
    | define b =>
      refine ⟨_, hes.define b, ?_⟩
      rw [List.map_append, Entry.bindings_forget]
      rfl
    | assign name value =>
      refine ⟨_, hes.assign name value, ?_⟩
      rw [List.map_map]
      refine (List.map_congr_left fun e _ => ?_).trans List.map_map.symm
      exact Entry.binding_given name value e

end Ledger

namespace Store

variable {st : Store} {target : Nat} {cs : List Change} {name : String} {value : Value}

/-- The table of a scope has what the scope binds a name to. -/
theorem Changed.entry (h : Changed target cs st) (name : String) :
    ((Ledger.ofChanges cs).slots[name]?.map fun slot => Ledger.Entry.binding (name, slot)) =
      st.binding? name target := by
  obtain ⟨es, hes, hbindings⟩ := Ledger.exists_records cs
  rw [← h.bindings_eq] at hbindings
  cases hslot : (Ledger.ofChanges cs).slots[name]? with
  | some slot =>
    have hmem := List.mem_map_of_mem (f := Ledger.Entry.binding) ((hes.entry name slot).2 hslot)
    rw [hbindings] at hmem
    exact (binding?_of_mem hmem).symm
  | none =>
    cases hb : st.binding? name target with
    | none => rfl
    | some b =>
      obtain ⟨hmem, rfl⟩ := mem_of_binding? hb
      rw [← hbindings] at hmem
      obtain ⟨e, he, rfl⟩ := List.mem_map.1 hmem
      cases hslot.symm.trans ((hes.entry e.1 e.2).1 he)

/-- The table of a scope answers for an assignment there, unless the name is to be looked for in the
scopes around. -/
theorem Changed.assign_answers (h : Changed target cs st) (name : String) (value : Value) :
    ((Ledger.ofChanges cs).assign name value).1 =
      (st.binding? name target).map fun _ => (st.assign name value target).1 := by
  rw [← h.entry]
  cases hslot : (Ledger.ofChanges cs).slots[name]? with
  | none => rw [Ledger.assign_of_unbound hslot, Option.map_none, Option.map_none]
  | some slot =>
    have hb : st.binding? name target = some (Ledger.Entry.binding (name, slot)) := by
      rw [← h.entry, hslot, Option.map_some]
    rw [Option.map_some, Option.map_some]
    cases hbinder : slot.binder with
    | lock =>
      rw [Ledger.assign_of_locked hslot hbinder, assign_of_locked h.nested .here hb hbinder]
    | hold => rw [Ledger.assign_of_free hslot hbinder, assign_eq_of_free h.nested .here hb hbinder]

/-- A scope lists each name that was defined in it once, in the order of the latest definitions and
as these say, with the value that it was given last. So a name that is defined anew goes to the end,
and one that is assigned to stays in its place. It is the same list that comes of sorting the
entries of a table by the numbers of their definitions, in whatever order the table has them. -/
theorem bindings_listed (h : Changed target cs st) :
    (st.bindings target).map Binding.definition = latest (Change.definitions cs) ∧
    (∀ name, ((st.bindings target).map Binding.name).count name =
      if name ∈ (Change.definitions cs).map Definition.name then 1 else 0) ∧
    (∀ b ∈ st.bindings target, Change.lastValue? cs b.definition = some b.value ∧
      st.get b.name target = .ok b.value) ∧
    (∀ b, (st.define b.name b.value b.binder target).bindings target =
      (st.bindings target).filter (·.name != b.name) ++ [b]) ∧
    (∀ name value scope, ((st.assign name value scope).2.bindings target).map Binding.definition =
      (st.bindings target).map Binding.definition) ∧
    ∀ es, es.Perm (Ledger.ofChanges cs).slots.toList → Ledger.listed es = st.bindings target := by
  have hdefinitions : (st.bindings target).map Binding.definition =
      latest (Change.definitions cs) := by
    rw [h.bindings_eq, Change.definitions_foldl]
  refine ⟨hdefinitions, fun name => ?_, fun b hb => ⟨?_, ?_⟩, bindings_define h.lt_size, ?_,
    fun es hperm => ?_⟩
  · have hnames : (st.bindings target).map Binding.name =
        (latest (Change.definitions cs)).map Definition.name := by
      rw [← hdefinitions, List.map_map]
      rfl
    rw [(nodup_names st target).count, hnames]
    simp only [mem_names_latest]
  · rw [h.bindings_eq] at hb
    exact Change.lastValue?_of_mem_foldl cs b hb
  · obtain ⟨s, hs, hb⟩ := mem_bindings_iff.1 hb
    exact get_of_mem hs hb
  · intro name value scope
    by_cases hreaches : st.Reaches name target scope
    · rw [bindings_assign h.nested hreaches, Change.definitions_assign]
    · rw [bindings_assign_apart h.nested hreaches]
  · obtain ⟨es', hes', hbindings⟩ := Ledger.exists_records cs
    rw [hes'.listed_eq hperm, hbindings, h.bindings_eq]

/-- A scope in which one of three names is defined twice, and another is assigned to from a scope in
it that has locked the third. -/
def reordered : Store :=
  let first := (newScope none {}).2.define "x" (.string "old") .lock 0
  let three := (first.define "y" (.string "locked") .lock 0).define "z" .null .hold 0
  let again := three.define "x" (.string "new") .hold 0
  let inner := (again.newScope (some 0)).2.define "x" .null .lock 1
  ((inner.assign "z" (.string "given") 1).2.assign "y" .null 0).2

def reorderings : List Change :=
  [.define ⟨"x", .string "old", .lock⟩, .define ⟨"y", .string "locked", .lock⟩,
    .define ⟨"z", .null, .hold⟩, .define ⟨"x", .string "new", .hold⟩,
    .assign "z" (.string "given"), .assign "y" .null]

theorem changed_reordered : Changed 0 reorderings reordered := by
  have hempty : Nested {} := (Grown.empty rfl).nested
  have hnew : Changed 0 [] (newScope none {}).2 := .made hempty (by simp) rfl
  have hthree := ((hnew.define ⟨"x", .string "old", .lock⟩).define
    ⟨"y", .string "locked", .lock⟩).define ⟨"z", .null, .hold⟩
  have hagain := hthree.define ⟨"x", .string "new", .hold⟩
  have hwithin : Changed 0 _ (newScope (some 0) _).2 :=
    hagain.newScope (by simp [newScope, define])
  have hinner := hwithin.defineApart "x" .null .lock (show 1 ≠ 0 by decide)
  have hgiven : Changed 0 _ (assign "z" (.string "given") 1 _).2 :=
    hinner.assign "z" (.string "given") (.around rfl rfl .here)
  exact hgiven.assign "y" .null .here

theorem bindings_listed_reordered : Changed 0 reorderings reordered ∧
    (reordered.bindings 0).map Binding.definition = [⟨"y", .lock⟩, ⟨"z", .hold⟩, ⟨"x", .hold⟩] ∧
    reordered.get "z" 0 = .ok (.string "given") ∧
    Ledger.listed (Ledger.ofChanges reorderings).slots.toList.reverse =
      [⟨"y", .string "locked", .lock⟩, ⟨"z", .string "given", .hold⟩,
        ⟨"x", .string "new", .hold⟩] := by
  obtain ⟨hdefinitions, -, hvalues, -, -, hlisted⟩ := bindings_listed changed_reordered
  have hbindings : reordered.bindings 0 = [⟨"y", .string "locked", .lock⟩,
      ⟨"z", .string "given", .hold⟩, ⟨"x", .string "new", .hold⟩] := by
    rw [changed_reordered.bindings_eq]
    rfl
  have hz : (⟨"z", .string "given", .hold⟩ : Binding) ∈ reordered.bindings 0 := by
    simp [hbindings]
  refine ⟨changed_reordered, hdefinitions.trans (by decide), (hvalues _ hz).2, ?_⟩
  rw [hlisted _ (List.reverse_perm _), hbindings]

end Store
end Vibe
