import Vibe.Proofs.Store.Equality
import Vibe.Store.Printing

/-! Writing values of heaps with sharing and cycles: it comes to an end, an array that stands inside
itself is shown by dots and no other one is, and without cycles everything is written out. -/

namespace Vibe

/-- What is written for a value, with the arrays that it is written for. -/
inductive Drawing where
  | text (s : String)
  /-- An array that is shown by dots. -/
  | dots (id : Nat)
  /-- An array that is written out. -/
  | array (id : Nat) (items : List Drawing)

namespace Drawing

mutual

/-- A drawing as text: items with commas between them, in brackets. -/
def write : Drawing → String
  | text s => s
  | dots _ => "[...]"
  | array _ items => "[" ++ ", ".intercalate (writeEach items) ++ "]"

def writeEach : List Drawing → List String
  | [] => []
  | d :: ds => d.write :: writeEach ds

end

theorem writeEach_eq_map (ds : List Drawing) : writeEach ds = ds.map write := by
  induction ds with
  | nil => rfl
  | cons d ds ih => rw [writeEach, ih, List.map_cons]

/-- A drawing occurs in another one inside the given arrays, the innermost first. -/
inductive Occurs (x : Drawing) : List Nat → Drawing → Prop
  | here : Occurs x [] x
  | item {outer : List Nat} {id : Nat} {d : Drawing} {ds : List Drawing} (hd : d ∈ ds)
      (h : Occurs x outer d) : Occurs x (outer ++ [id]) (array id ds)

/-- Where a drawing stands inside the arrays in `within`, dots are there for exactly the arrays that
stand inside themselves. -/
structure ExactIn (within : List Nat) (d : Drawing) : Prop where
  dots : ∀ outer id, Occurs (.dots id) outer d → id ∈ outer ++ within
  array : ∀ outer id ds, Occurs (.array id ds) outer d → id ∉ outer ++ within

/-- Dots are there for exactly the arrays that stand inside themselves. -/
abbrev Exact (d : Drawing) : Prop :=
  d.ExactIn []

variable {within : List Nat} {id : Nat} {ds : List Drawing}

theorem exactIn_text (s : String) : (text s).ExactIn within :=
  ⟨fun _ _ h => (nomatch h), fun _ _ _ h => (nomatch h)⟩

theorem exactIn_dots : (Drawing.dots id).ExactIn within ↔ id ∈ within := by
  constructor
  · exact fun h => h.dots [] id .here
  · intro hid
    refine ⟨fun outer _ h => ?_, fun _ _ _ h => (nomatch h)⟩
    cases h
    exact hid

/-- The items of an array stand inside the array. -/
theorem exactIn_array : (Drawing.array id ds).ExactIn within ↔
    id ∉ within ∧ ∀ d ∈ ds, d.ExactIn (id :: within) := by
  constructor
  · intro h
    refine ⟨h.array [] id ds .here, fun d hd => ⟨fun outer a hocc => ?_, fun outer a es hocc => ?_⟩⟩
    · simpa using h.dots (outer ++ [id]) a (.item hd hocc)
    · simpa using h.array (outer ++ [id]) a es (.item hd hocc)
  · rintro ⟨hid, hds⟩
    refine ⟨fun outer a hocc => ?_, fun outer a es hocc => ?_⟩
    · cases hocc with
      | item hd hocc => simpa using (hds _ hd).dots _ a hocc
    · cases hocc with
      | here => exact hid
      | item hd hocc => simpa using (hds _ hd).array _ a es hocc

end Drawing

namespace Store

variable {st : Store} {within : List Nat} {v : Value} {d : Drawing} {text : String}

/-- The text of a value that is no array. -/
def scalar? (st : Store) : Value → Option String
  | .number x => some (Layout.printed.write x)
  | .string s => some s
  | .bool b => some (if b then Keyword.bet else Keyword.cap).text
  | .null => some Keyword.null.text
  | .array _ => none
  | .skill id => some ("<skill " ++ (st.skills[id]?.map Skill.name).getD "" ++ ">")
  | .builtin b => some ("<native skill " ++ b.name ++ ">")

/-- How a value is drawn while the arrays in `within` are, and what comes of it. Arrays may be
entered as often as need be, so what does not come to an end has no result. -/
inductive Draws (st : Store) : List Nat → Value → Drawing → Prop
  | scalar {within : List Nat} {v : Value} {text : String} (h : st.scalar? v = some text) :
      Draws st within v (.text text)
  | inside {within : List Nat} {id : Nat} (h : id ∈ within) :
      Draws st within (.array id) (.dots id)
  | array {within : List Nat} {id : Nat} {ds : List Drawing} (h : id ∉ within)
      (hlen : (st.items id).toList.length = ds.length)
      (hitems : ∀ v d, (v, d) ∈ (st.items id).toList.zip ds → Draws st (id :: within) v d) :
      Draws st within (.array id) (.array id ds)

/-- A drawing shows a value: each of its arrays is written out item by item, or shown by dots. -/
inductive Shows (st : Store) : Value → Drawing → Prop
  | scalar {v : Value} {text : String} (h : st.scalar? v = some text) : Shows st v (.text text)
  | dots {id : Nat} : Shows st (.array id) (.dots id)
  | array {id : Nat} {ds : List Drawing} (hlen : (st.items id).toList.length = ds.length)
      (hitems : ∀ v d, (v, d) ∈ (st.items id).toList.zip ds → Shows st v d) :
      Shows st (.array id) (.array id ds)

/-- The plain text of a value, in which every array is written out wherever it stands. -/
inductive Renders (st : Store) : Value → String → Prop
  | scalar {v : Value} {text : String} (h : st.scalar? v = some text) : Renders st v text
  | array {id : Nat} {texts : List String} (hlen : (st.items id).toList.length = texts.length)
      (hitems : ∀ v text, (v, text) ∈ (st.items id).toList.zip texts → Renders st v text) :
      Renders st (.array id) ("[" ++ ", ".intercalate texts ++ "]")

/-- One array is an item of another one. -/
def Holds (st : Store) (a b : Nat) : Prop :=
  .array b ∈ (st.items a).toList

/-- No array that can be reached from the value can be reached from its own items. -/
def Acyclic (st : Store) (v : Value) : Prop :=
  ∀ a b, v = .array a → Relation.ReflTransGen st.Holds a b → ¬ Relation.TransGen st.Holds b b

/-! ### Drawings with fuel -/

/-- The drawing of a value, with fuel as for its text. -/
def drawWithin (st : Store) : (fuel : Nat) → (within : List Nat) → Value → Drawing
  | 0, _, _ => .text ""
  | n + 1, within, .array id =>
    if within.contains id then .dots id
    else .array id ((st.items id).toList.map (st.drawWithin n (id :: within)))
  | _ + 1, _, v => .text ((st.scalar? v).getD "")

/-- The text of a value is that of its drawing. -/
theorem write_drawWithin (n : Nat) (within : List Nat) (v : Value) :
    (st.drawWithin n within v).write = st.printWithin n within v := by
  induction n generalizing within v with
  | zero => rfl
  | succ n ih =>
    cases v with
    | array id =>
      by_cases hid : within.contains id = true
      · simp only [drawWithin, printWithin, if_pos hid, Drawing.write]
      · simp only [drawWithin, printWithin, if_neg hid, Drawing.write, Drawing.writeEach_eq_map,
          List.map_map, commaSeparated]
        congr 3
        exact List.map_congr_left fun v _ => ih (id :: within) v
    | _ => rfl

theorem mem_zip_map {α β : Type} {f : α → β} {as : List α} {a : α} {b : β} :
    (a, b) ∈ as.zip (as.map f) ↔ a ∈ as ∧ b = f a := by
  rw [← List.map_prod_left_eq_zip, List.mem_map]
  constructor
  · rintro ⟨c, hc, heq⟩
    obtain ⟨rfl, rfl⟩ := Prod.mk.inj heq
    exact ⟨hc, rfl⟩
  · rintro ⟨ha, rfl⟩
    exact ⟨a, ha, rfl⟩

theorem eq_of_zip {α β : Type} {as : List α} {bs cs : List β} (hb : as.length = bs.length)
    (hc : as.length = cs.length)
    (h : ∀ a b c, (a, b) ∈ as.zip bs → (a, c) ∈ as.zip cs → b = c) : bs = cs := by
  induction as generalizing bs cs with
  | nil =>
    obtain rfl : bs = [] := List.eq_nil_of_length_eq_zero hb.symm
    exact (List.eq_nil_of_length_eq_zero hc.symm).symm
  | cons a as ih =>
    obtain ⟨b, bs, rfl⟩ := List.exists_cons_of_length_eq_add_one hb.symm
    obtain ⟨c, cs, rfl⟩ := List.exists_cons_of_length_eq_add_one hc.symm
    have htail : bs = cs := ih (by simpa using hb) (by simpa using hc) fun a b c hab hac =>
      h a b c (by simp [hab]) (by simp [hac])
    rw [h a b c (by simp) (by simp), htail]

theorem exists_mem_zip {α β : Type} {as : List α} {bs : List β} {b : β}
    (hlen : as.length = bs.length) (hb : b ∈ bs) : ∃ a, (a, b) ∈ as.zip bs := by
  have hmap : (as.zip bs).map Prod.snd = bs := List.map_snd_zip (Nat.le_of_eq hlen.symm)
  rw [← hmap, List.mem_map] at hb
  obtain ⟨⟨a, _⟩, hab, rfl⟩ := hb
  exact ⟨a, hab⟩

/-- The arrays that are being drawn are different ones that there are. -/
structure Entered (st : Store) (within : List Nat) : Prop where
  nodup : within.Nodup
  bounded : ∀ id ∈ within, id < st.arrays.size

theorem Entered.length_le (h : st.Entered within) : within.length ≤ st.arrays.size := by
  have hsub : within ⊆ List.range st.arrays.size :=
    fun id hid => List.mem_range.2 (h.bounded id hid)
  simpa using (h.nodup.subperm hsub).length_le

theorem draws_scalar_iff (h : st.scalar? v = some text) :
    st.Draws within v d ↔ d = .text text := by
  constructor
  · intro hd
    cases hd with
    | scalar h' => rw [Option.some.inj (h'.symm.trans h)]
    | inside | array => cases h
  · rintro rfl
    exact .scalar h

theorem draws_array_iff {draw : Value → Drawing} {id : Nat}
    (h : id ∉ within → ∀ v ∈ (st.items id).toList, ∀ d,
      st.Draws (id :: within) v d ↔ d = draw v) :
    st.Draws within (.array id) d ↔ d = if within.contains id then .dots id
      else .array id ((st.items id).toList.map draw) := by
  by_cases hid : id ∈ within
  · rw [if_pos (List.contains_iff_mem.2 hid)]
    constructor
    · intro hd
      cases hd with
      | scalar h => cases h
      | inside => rfl
      | array new => exact (new hid).elim
    · rintro rfl
      exact .inside hid
  · rw [if_neg (mt List.contains_iff_mem.1 hid)]
    constructor
    · intro hd
      cases hd with
      | scalar h => cases h
      | inside hm => exact (hid hm).elim
      | array _ hlen hds =>
        congr 1
        refine eq_of_zip hlen (by simp) fun v d d' hvd hvd' => ?_
        obtain ⟨hv, rfl⟩ := mem_zip_map.1 hvd'
        exact (h hid v hv d).1 (hds v d hvd)
    · rintro rfl
      refine .array hid (by simp) fun v d hvd => ?_
      obtain ⟨hv, rfl⟩ := mem_zip_map.1 hvd
      exact (h hid v hv _).2 rfl

/-- With enough fuel the bound is not reached: drawing without it has the same result, and no
other. -/
theorem draws_iff (n : Nat) (h : st.Entered within) (hn : st.arrays.size < n + within.length) :
    st.Draws within v d ↔ d = st.drawWithin n within v := by
  induction n generalizing within v d with
  | zero =>
    have hlen := h.length_le
    omega
  | succ n ih =>
    cases v with
    | array id =>
      refine draws_array_iff fun new v hv d => ih ⟨List.nodup_cons.2 ⟨new, h.nodup⟩, ?_⟩ ?_
      · exact List.forall_mem_cons.2 ⟨lt_size_of_mem_items hv, h.bounded⟩
      · rw [List.length_cons]
        omega
    | _ => exact draws_scalar_iff rfl

/-- Drawing a value comes to an end, with one result, which is written as its text. -/
theorem exists_drawing (st : Store) (v : Value) :
    ∃ d : Drawing, (∀ d', st.Draws [] v d' ↔ d' = d) ∧ st.print v = d.write :=
  ⟨st.drawWithin (st.arrays.size + 2) [] v, fun _ => draws_iff _ ⟨.nil, by simp⟩ (by simp),
    (write_drawWithin _ _ _).symm⟩

/-! ### What drawings show -/

/-- What is drawn shows the value, with dots for exactly the arrays that stand inside themselves,
and there is nothing else that does. -/
theorem draws_iff_shows : st.Draws within v d ↔ st.Shows v d ∧ d.ExactIn within := by
  constructor
  · intro h
    induction h with
    | scalar h => exact ⟨.scalar h, Drawing.exactIn_text _⟩
    | inside h => exact ⟨.dots, Drawing.exactIn_dots.2 h⟩
    | array new hlen _ ih =>
      refine ⟨.array hlen fun v d hvd => (ih v d hvd).1, Drawing.exactIn_array.2 ⟨new, ?_⟩⟩
      intro d hd
      obtain ⟨v, hvd⟩ := exists_mem_zip hlen hd
      exact (ih v d hvd).2
  · rintro ⟨h, hexact⟩
    induction h generalizing within with
    | scalar h => exact .scalar h
    | dots => exact .inside (Drawing.exactIn_dots.1 hexact)
    | array hlen _ ih =>
      obtain ⟨new, hitems⟩ := Drawing.exactIn_array.1 hexact
      exact .array new hlen fun v d hvd => ih v d hvd (hitems d (List.of_mem_zip hvd).2)

/-! ### Values without cycles -/

theorem Acyclic.item {id : Nat} (h : st.Acyclic (.array id)) (hv : v ∈ (st.items id).toList) :
    st.Acyclic v := by
  rintro a b rfl hab
  exact h id b rfl (.head hv hab)

/-- Where no cycle can be reached no array is shown by dots: the arrays around it lead to it, and it
would have to be one of them. -/
theorem renders_of_draws (h : st.Draws within v d) (hv : st.Acyclic v)
    (hwithin : ∀ a ∈ within, ∀ b, v = .array b → Relation.TransGen st.Holds a b) :
    st.Renders v d.write := by
  induction h with
  | scalar h => exact .scalar h
  | @inside within id hid => exact (hv id id rfl .refl (hwithin id hid id rfl)).elim
  | @array within id ds new hlen _ ih =>
    rw [Drawing.write, Drawing.writeEach_eq_map]
    refine .array (by simpa using hlen) fun v text hvt => ?_
    rw [List.zip_map_right, List.mem_map] at hvt
    obtain ⟨⟨_, d⟩, hvd, heq⟩ := hvt
    obtain ⟨rfl, rfl⟩ := Prod.mk.inj heq
    have hitem := (List.of_mem_zip hvd).1
    refine ih _ d hvd (hv.item hitem) ?_
    rintro a ha b rfl
    rcases List.mem_cons.1 ha with rfl | ha
    · exact .single hitem
    · exact (hwithin a ha id rfl).tail hitem

theorem Renders.unique {text' : String} (h : st.Renders v text) (h' : st.Renders v text') :
    text = text' := by
  induction h generalizing text' with
  | scalar h =>
    cases h' with
    | scalar h' => exact Option.some.inj (h.symm.trans h')
    | array => cases h
  | array hlen _ ih =>
    cases h' with
    | scalar h' => cases h'
    | array hlen' hitems' =>
      rw [eq_of_zip hlen hlen' fun v text text' hvt hvt' => ih v text hvt (hitems' v text' hvt')]

/-- On every heap writing a value comes to an end. What is written is the one drawing of the value
in which dots are there for exactly the arrays that stand inside themselves; an array that comes up
again beside or behind itself is written out again. So a value from which no cycle can be reached is
written out plainly, whatever it shares. -/
theorem print_faithful (st : Store) (v : Value) :
    ∃ d : Drawing, (∀ d', st.Draws [] v d' ↔ d' = d) ∧ st.print v = d.write ∧
      (∀ d', st.Shows v d' ∧ d'.Exact ↔ d' = d) ∧
      (st.Acyclic v → ∀ text, st.Renders v text ↔ text = st.print v) := by
  obtain ⟨d, hd, hwrite⟩ := st.exists_drawing v
  refine ⟨d, hd, hwrite, fun d' => draws_iff_shows.symm.trans (hd d'), fun hv text => ?_⟩
  have hplain := renders_of_draws ((hd d).2 rfl) hv (by simp)
  rw [hwrite]
  exact ⟨fun h => h.unique hplain, fun h => h ▸ hplain⟩

/-- `[[null], [null]]`, with one array for both items, and an array that holds itself between two
occurrences of another one. -/
def shared : Store where
  arrays := #[#[.array 1, .array 1], #[.null], #[.array 1, .array 2, .array 1]]

theorem print_faithful_shared : shared.Acyclic (.array 0) ∧
    shared.Renders (.array 0) "[[null], [null]]" ∧
    shared.print (.array 2) = "[[null], [...], [null]]" ∧
    ∃ d, (∀ d', shared.Draws [] (.array 2) d' ↔ d' = d) ∧ d.Exact := by
  have hacyclic : shared.Acyclic (.array 0) := by
    have hstep : ∀ a b, a ≤ 1 → shared.Holds a b → a < b ∧ b ≤ 1 := by
      intro a b ha hab
      obtain rfl | rfl : a = 0 ∨ a = 1 := by omega
      · obtain rfl : b = 1 := by simpa [Holds, items, shared] using hab
        exact ⟨Nat.zero_lt_one, Nat.le_refl 1⟩
      · simp [Holds, items, shared] at hab
    have hrise : ∀ a b, a ≤ 1 → Relation.TransGen shared.Holds a b → a < b ∧ b ≤ 1 := by
      intro a b ha hab
      induction hab with
      | single h => exact hstep _ _ ha h
      | tail _ h ih => exact ⟨ih.1.trans (hstep _ _ ih.2 h).1, (hstep _ _ ih.2 h).2⟩
    rintro a b h hab hcycle
    obtain rfl : 0 = a := by simpa using h
    rcases Relation.reflTransGen_iff_eq_or_transGen.1 hab with rfl | hab
    · exact Nat.lt_irrefl _ (hrise _ _ (Nat.zero_le 1) hcycle).1
    · exact Nat.lt_irrefl _ (hrise _ _ (hrise _ _ (Nat.zero_le 1) hab).2 hcycle).1
  obtain ⟨-, -, -, -, hplain⟩ := shared.print_faithful (.array 0)
  obtain ⟨d, hd, -, hshows, -⟩ := shared.print_faithful (.array 2)
  exact ⟨hacyclic, (hplain hacyclic _).2 (by decide), by decide, d, hd, ((hshows d).2 rfl).2⟩

end Store
end Vibe
