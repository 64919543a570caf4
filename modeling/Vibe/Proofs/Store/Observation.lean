import Vibe.Proofs.Store.Printing
import Vibe.Store.Builtins

/-! What can be seen of equal values: they have the same type and size, count alike as conditions
and take as many arguments, and without cycles they are written alike. -/

namespace Vibe

/-- Equal numbers are written alike, the two zeros too. -/
theorem Layout.write_printed_of_beq {x y : Float} (h : (x == y) = true) :
    printed.write x = printed.write y := by
  obtain ⟨-, -, rfl | ⟨rfl, rfl⟩ | ⟨rfl, rfl⟩⟩ := Float.beq_iff_ne_nan_and_eq.1 h
  · rfl
  · decide
  · decide

namespace Store

variable {st : Store} {v w : Value} {text : String}

theorem Same.scalar?_eq (h : st.Same v w) : st.scalar? v = st.scalar? w := by
  have hm := h.dest
  cases v <;> cases w <;> try exact hm.elim
  case number.number x y => exact congrArg some (Layout.write_printed_of_beq hm)
  case builtin.builtin b c => rw [Builtin.name_inj.1 hm]
  all_goals simp_all [Matches, scalar?]

theorem Same.typeName_eq (h : st.Same v w) : v.typeName = w.typeName := by
  have hm := h.dest
  cases v <;> cases w <;> first | rfl | exact hm.elim

theorem Same.arity?_eq (h : st.Same v w) : st.arity? v = st.arity? w := by
  have hm := h.dest
  cases v <;> cases w <;> try first | rfl | exact hm.elim
  case skill.skill a b => rw [show a = b from hm]
  case builtin.builtin b c => rw [Builtin.name_inj.1 hm]

theorem Same.size_items_eq {a b : Nat} (h : st.Same (.array a) (.array b)) :
    (st.items a).size = (st.items b).size := by
  rcases h.dest with rfl | hitems
  · rfl
  · simpa using hitems.length_eq

theorem Same.truthy_eq (h : st.Same v w) : st.truthy v = st.truthy w := by
  have hm := h.dest
  cases v <;> cases w <;> try first | rfl | exact hm.elim
  case number.number x y =>
    obtain ⟨-, -, rfl | ⟨rfl, rfl⟩ | ⟨rfl, rfl⟩⟩ := Float.beq_iff_ne_nan_and_eq.1 hm
    · rfl
    · change ((0 : Float) != 0.0) = (-0 != 0.0)
      decide
    · change ((-0 : Float) != 0.0) = (0 != 0.0)
      decide
  case array.array a b => simp [truthy, Array.isEmpty, h.size_items_eq]
  all_goals simp_all [Matches, truthy]

theorem Same.size_eq (h : st.Same v w) :
    Builtin.call.sizeOf st v = Builtin.call.sizeOf st w := by
  have hm := h.dest
  have htype := h.typeName_eq
  cases v <;> cases w <;> try exact hm.elim
  case string.string s t => rw [show s = t from hm]
  case array.array a b => simp [Builtin.call.sizeOf, h.size_items_eq]
  all_goals simp [Builtin.call.sizeOf, htype]

/-! ### Values without cycles -/

theorem exists_mem_zip_left {α β : Type} {as : List α} {bs : List β} {a : α}
    (hlen : as.length = bs.length) (ha : a ∈ as) : ∃ b, (a, b) ∈ as.zip bs := by
  have hmap : (as.zip bs).map Prod.fst = as := List.map_fst_zip (Nat.le_of_eq hlen)
  rw [← hmap, List.mem_map] at ha
  obtain ⟨⟨_, b⟩, hab, rfl⟩ := ha
  exact ⟨b, hab⟩

theorem exists_of_forall₂_zip {α β γ : Type} {R : α → β → Prop} {as : List α} {bs : List β}
    {cs : List γ} {b : β} {c : γ} (h : List.Forall₂ R as bs) (hbc : (b, c) ∈ bs.zip cs) :
    ∃ a, R a b ∧ (a, c) ∈ as.zip cs := by
  induction h generalizing cs with
  | nil => cases hbc
  | @cons a b' as bs hab _ ih =>
    cases cs with
    | nil => cases hbc
    | cons c' cs =>
      rcases List.mem_cons.1 hbc with heq | hrest
      · obtain ⟨rfl, rfl⟩ := Prod.mk.inj heq
        exact ⟨a, hab, List.mem_cons_self⟩
      · obtain ⟨a', hab', hmem⟩ := ih hrest
        exact ⟨a', hab', List.mem_cons_of_mem _ hmem⟩

theorem Acyclic.renders_print (h : st.Acyclic v) : st.Renders v (st.print v) := by
  obtain ⟨d, hd, hwrite⟩ := st.exists_drawing v
  rw [hwrite]
  exact renders_of_draws ((hd d).2 rfl) h (by simp)

/-- What can be written out plainly comes to an end, so that no cycle is reached. -/
theorem Renders.acyclic (h : st.Renders v text) : st.Acyclic v := by
  induction h with
  | scalar h =>
    rintro a b rfl
    cases h
  | @array id texts hlen _ ih =>
    have hitem : ∀ c, st.Holds id c → st.Acyclic (.array c) := by
      intro c hc
      obtain ⟨text, hmem⟩ := exists_mem_zip_left hlen hc
      exact ih _ text hmem
    rintro a b heq hab hcycle
    obtain rfl := Value.array.inj heq
    rcases hab.cases_head with rfl | ⟨c, hc, hcb⟩
    · obtain ⟨c, hc, hback⟩ := Relation.TransGen.head'_iff.1 hcycle
      exact hitem c hc c c rfl .refl (.tail' hback hc)
    · exact hitem c hc c b rfl hcb hcycle

/-- What is the same is written out as the same text. -/
theorem Renders.same (h : st.Renders v text) (hsame : st.Same v w) : st.Renders w text := by
  induction h generalizing w with
  | scalar h => exact .scalar (hsame.scalar?_eq ▸ h)
  | @array id texts hlen hitems ih =>
    have hm := hsame.dest
    cases w with
    | array b =>
      rcases hm with rfl | hpairs
      · exact .array hlen hitems
      · refine .array (hpairs.length_eq ▸ hlen) fun w text hwt => ?_
        obtain ⟨v, hvw, hvt⟩ := exists_of_forall₂_zip hpairs hwt
        exact ih v text hvt hvw
    | _ => exact hm.elim

theorem Acyclic.same (h : st.Acyclic v) (hsame : st.Same v w) :
    st.Acyclic w ∧ st.print v = st.print w := by
  have hw := h.renders_print.same hsame
  exact ⟨hw.acyclic, hw.unique hw.acyclic.renders_print⟩

/-- Equal values cannot be told apart by what is seen of them: their type, their truth in a
condition, how many arguments they take, and what `size` makes of them, be it a size or a failure.
If no cycle can be reached from one of them, none can be from the other, and they are written as the
same text; so are the two zeros. -/
theorem equal_observed (h : st.equal v w = true) :
    v.typeName = w.typeName ∧ st.truthy v = st.truthy w ∧ st.arity? v = st.arity? w ∧
    Builtin.call .size [v] st = Builtin.call .size [w] st ∧
    (st.Acyclic v → st.Acyclic w ∧ st.print v = st.print w) := by
  have hsame := equal_eq_true_iff.1 h
  refine ⟨hsame.typeName_eq, hsame.truthy_eq, hsame.arity?_eq, ?_, fun hv => hv.same hsame⟩
  change (Builtin.call.sizeOf st v, st) = (Builtin.call.sizeOf st w, st)
  rw [hsame.size_eq]

/-- `[0, [null]]` and `[-0, [null]]`, with another array inside each. -/
def zeros : Store where
  arrays := #[#[.number 0, .array 2], #[.number (-0), .array 3], #[.null], #[.null]]

theorem renders_zeros : zeros.Renders (.array 0) "[0, [null]]" := by
  have hinner : zeros.Renders (.array 2) "[null]" := by
    refine @Renders.array zeros 2 ["null"] rfl fun v text hmem => ?_
    obtain ⟨rfl, rfl⟩ : v = .null ∧ text = "null" := by simpa [zeros, items] using hmem
    exact .scalar rfl
  refine @Renders.array zeros 0 ["0", "[null]"] rfl fun v text hmem => ?_
  obtain ⟨rfl, rfl⟩ | ⟨rfl, rfl⟩ : v = .number 0 ∧ text = "0" ∨ v = .array 2 ∧ text = "[null]" := by
    simpa [zeros, items] using hmem
  · exact .scalar (by decide)
  · exact hinner

theorem equal_observed_zeros : zeros.equal (.array 0) (.array 1) = true ∧
    zeros.Acyclic (.array 1) ∧ zeros.print (.array 0) = "[0, [null]]" ∧
    zeros.print (.array 1) = "[0, [null]]" ∧
    Builtin.call .size [.array 1] zeros = (.ok (.number 2), zeros) := by
  have hequal : zeros.equal (.array 0) (.array 1) = true := by decide
  obtain ⟨-, -, -, hsize, hprint⟩ := equal_observed hequal
  obtain ⟨hacyclic, htext⟩ := hprint renders_zeros.acyclic
  have hfirst := renders_zeros.acyclic.renders_print.unique renders_zeros
  refine ⟨hequal, hacyclic, hfirst, htext ▸ hfirst, hsize ▸ ?_⟩
  rfl

end Store

end Vibe
