import Vibe.Proofs.Decimal.Whole
import Vibe.Proofs.Machine.Sweeps

/-! The items of an array and the characters of a text stand in a row. They are counted, indexed,
run through and joined in the same way. -/

namespace Vibe

/-- What stands in a row in a value: the characters of a text, or the items of an array. -/
inductive Store.Row (st : Store) : Value → List Value → Prop
  | text (s : String) : st.Row (.string s) (s.toList.map Value.ofChar)
  | array (id : Nat) : st.Row (.array id) (st.items id).toList

/-- The value of a row at a number: that at its floor, or `null` where there is none. -/
def valueAt (row : List Value) (x : Float) : Value :=
  match Binary.value? x with
  | some q => if 0 ≤ ⌊q⌋ then row[⌊q⌋.toNat]?.getD .null else .null
  | none => .null

theorem valueAt_eq (row : List Value) (x : Float) :
    valueAt row x = ((Rounding.floorNat? x).bind (row[·]?)).getD .null := by
  rw [valueAt, Rounding.floorNat?_eq]
  cases Binary.value? x with
  | none => rfl
  | some q =>
    by_cases hfloor : 0 ≤ ⌊q⌋ <;> simp [hfloor]

/-- Each natural number below the end stands for its place. -/
theorem valueAt_of_value {row : List Value} {x : Float} {k : Nat}
    (hx : Binary.value? x = some (k : ℚ)) (hk : k < row.length) : valueAt row x = row[k] := by
  simp [valueAt, hx, hk]

namespace Store.Row

variable {st : Store} {v : Value} {row : List Value}

/-- Indexing never fails where there is a row. -/
theorem index_eq (h : st.Row v row) (x : Float) : st.index v (.number x) = .ok (valueAt row x) := by
  rw [valueAt_eq]
  cases h with
  | text s =>
    simp only [index, position]
    cases Rounding.floorNat? x with
    | none => rfl
    | some k => simp
  | array id =>
    simp only [index, position]
    cases Rounding.floorNat? x with
    | none => rfl
    | some k => simp

theorem size_eq (h : st.Row v row) :
    Builtin.size.call [v] st = (.ok (Builtin.count row.length), st) := by
  cases h with
  | text s => simp [Builtin.call, Builtin.call.sizeOf, String.length_toList]
  | array id => simp [Builtin.call, Builtin.call.sizeOf]

end Store.Row

/-- A number of items that a number can tell exactly. -/
theorem value?_count {n : Nat} (hn : n < 2 ^ 53) :
    ∃ x, Builtin.count n = .number x ∧ Binary.value? x = some (n : ℚ) := by
  refine ⟨_, rfl, ?_⟩
  rw [Binary.value?_toFloat false hn (by decide) (by decide)]
  simp [Binary.value]

/-- Joins values to a text. -/
def Store.join (st : Store) (text : String) (vs : List Value) : Except RuntimeCause Value :=
  vs.foldlM (st.operate .add) (.string text)

theorem Store.join_chars (st : Store) (text : String) (cs : List Char) :
    st.join text (cs.map Value.ofChar) = .ok (.string (text ++ String.ofList cs)) := by
  induction cs generalizing text with
  | nil =>
    rw [List.map_nil, String.ofList_nil, String.append_empty]
    rfl
  | cons c cs ih =>
    have hadd : st.operate .add (.string text) (.ofChar c) =
        .ok (.string (text ++ String.singleton c)) := rfl
    rw [List.map_cons, join, List.foldlM_cons, hadd]
    have hcons : String.singleton c ++ String.ofList cs = String.ofList (c :: cs) :=
      String.toList_injective (by simp)
    rw [← hcons, ← String.append_assoc]
    exact ih _

/-- A loop whose `passes` bind its variable to the values of a row, and what comes `out` of it.
Before them the machine is `m`. -/
structure RunsOver (n : Nat) (body : Stmt) (var : String) (loop : Nat) (row : List Value)
    (m : Machine) (out : Outcome Flow) (passes : List Pass) : Prop where
  course : Course (Interpreter.exec n body) var loop (row[·]?) 0 m passes out
  /-- There is a value in the row for each pass. -/
  starts : ∀ (k : Nat) (p : Pass), passes[k]? = some p → ∃ hk : k < row.length,
    p.start.scope = loop ∧ p.start.store.binding? var loop = some ⟨var, row[k], .hold⟩
  /-- When the loop comes to an end there was a pass for each value, or the last has ended it. -/
  finished : ∀ (flow : Flow) (m' : Machine), out = .done flow m' → passes.length = row.length ∨
    ∃ p ∈ passes.getLast?, ∃ m'', p.outcome = .done .stop m'' ∨
      ∃ v, p.outcome = .done (.give v) m''

namespace Machine

variable {m : Machine} {v : Value} {row : List Value}

/-- A loop over what has a row runs over the row. -/
theorem exists_runsOver (h : m.store.Row v row) {n : Nat} {e : Expr} {m₀ : Machine}
    (hvalue : (Interpreter.eval n e : Run Value) ((Instr.newScope none).after m₀) = .done v m)
    (var : String) (body : Stmt) (span : Span) :
    ∃ passes, RunsOver n body var m₀.store.scopes.size row m
      ((Interpreter.execStep n (Interpreter.eval n) (Interpreter.exec n)
        (.each var (.items e) body span) : Run Flow) m₀) passes := by
  have hfixes : Sweep.Fixes n (.items e) ((Instr.newScope none).after m₀) (row[·]?) m := by
    cases h with
    | text s => simpa using Sweep.Fixes.text hvalue
    | array id => simpa using Sweep.Fixes.array hvalue
  obtain ⟨passes, hcourse⟩ := hfixes.exists_course var body span
  have hloop : m₀.store.scopes.size < m.store.scopes.size := by
    refine Nat.lt_of_lt_of_le ?_ hfixes.keeps.size
    simp [Instr.after, Store.newScope]
  have hstarts : ∀ (k : Nat) (p : Pass), passes[k]? = some p → ∃ hk : k < row.length,
      p.start.scope = m₀.store.scopes.size ∧
      p.start.store.binding? var m₀.store.scopes.size = some ⟨var, row[k], .hold⟩ := by
    intro k p hp
    obtain ⟨hscope, w, hw, hbound⟩ := hcourse.start_of_getElem? (keeps_exec n body) hloop hp
    rw [Nat.zero_add] at hw
    obtain ⟨hk, rfl⟩ := List.getElem?_eq_some_iff.1 hw
    exact ⟨hk, hscope, hbound⟩
  refine ⟨passes, hcourse, hstarts, fun flow m' hdone => ?_⟩
  obtain ⟨-, hnone⟩ | ⟨p, hp, m'', hend⟩ := hcourse.of_done hdone
  · -- There is no value left, and there was one for each pass.
    rw [Nat.zero_add, List.getElem?_eq_none_iff] at hnone
    refine .inl (Nat.le_antisymm (Nat.le_of_not_lt fun hlt => ?_) hnone)
    obtain ⟨hk, -⟩ := hstarts row.length _ (List.getElem?_eq_getElem hlt)
    exact Nat.lt_irrefl _ hk
  · obtain ⟨hstop, -⟩ | ⟨w, hgive, -⟩ := hend
    · exact .inr ⟨p, hp, m'', .inl hstop⟩
    · exact .inr ⟨p, hp, m'', .inr ⟨w, hgive⟩⟩

/-- Size, index, loop and `+` agree on what stands in a row. It is counted exactly. The number of a
place stands for what is there, and any number for what is at its floor or else for `null`. A loop
binds its variable to the values in their order, and to all of them unless a pass ends it. The
characters of a text make up the text again. -/
theorem row_agrees (h : m.store.Row v row) (hlength : row.length < 2 ^ 53) :
    (∃ x, Builtin.size.call [v] m.store = (.ok (.number x), m.store) ∧
      Binary.value? x = some (row.length : ℚ)) ∧
    (∀ (k : Nat) (hk : k < row.length), (∃ x, Binary.value? x = some (k : ℚ)) ∧
      ∀ x, Binary.value? x = some (k : ℚ) → m.store.index v (.number x) = .ok row[k]) ∧
    (∀ x, m.store.index v (.number x) = .ok (valueAt row x)) ∧
    (∀ n e m₀, (Interpreter.eval n e : Run Value) ((Instr.newScope none).after m₀) = .done v m →
      ∀ var body span, ∃ passes, RunsOver n body var m₀.store.scopes.size row m
        ((Interpreter.execStep n (Interpreter.eval n) (Interpreter.exec n)
          (.each var (.items e) body span) : Run Flow) m₀) passes) ∧
    ∀ s, v = .string s →
      row = s.toList.map Value.ofChar ∧ m.store.join "" row = .ok (.string s) := by
  refine ⟨?_, fun k hk => ⟨?_, fun x hx => ?_⟩, h.index_eq, ?_, ?_⟩
  · obtain ⟨x, hcount, hx⟩ := value?_count hlength
    exact ⟨x, by rw [h.size_eq, hcount], hx⟩
  · obtain ⟨x, -, hx⟩ := value?_count (Nat.lt_trans hk hlength)
    exact ⟨x, hx⟩
  · rw [h.index_eq, valueAt_of_value hx hk]
  · intro n e m₀ hvalue var body span
    exact exists_runsOver h hvalue var body span
  · rintro s rfl
    cases h
    exact ⟨rfl, by rw [Store.join_chars, String.empty_append, String.ofList_toList]⟩

/-- The machine of a loop over a text of two characters, when the text has been evaluated. -/
def overText : Machine :=
  (Instr.tick .nowhere).after ((Instr.newScope none).after .blank)

theorem row_agrees_overText :
    (∃ x, Builtin.size.call [.string "é😀"] overText.store = (.ok (.number x), overText.store) ∧
      Binary.value? x = some 2) ∧
    (∀ x, Binary.value? x = some 1 →
      overText.store.index (.string "é😀") (.number x) = .ok (.string "😀")) ∧
    (∃ passes, RunsOver 3 .lockVar "c" 1 [.string "é", .string "😀"] overText
      ((Interpreter.execStep 3 (Interpreter.eval 3) (Interpreter.exec 3)
        (.each "c" (.items (.literal (.string "é😀") .nowhere)) .lockVar .nowhere) : Run Flow)
        .blank) passes) ∧
    overText.store.join "" [.string "é", .string "😀"] = .ok (.string "é😀") := by
  have hrow : overText.store.Row (.string "é😀") [.string "é", .string "😀"] := .text "é😀"
  have hvalue : (Interpreter.eval 3 (.literal (.string "é😀") .nowhere) : Run Value)
      ((Instr.newScope none).after .blank) = .done (.string "é😀") overText := rfl
  obtain ⟨hsize, hindex, -, hloop, hjoin⟩ := row_agrees hrow (by decide)
  exact ⟨hsize, fun x hx => (hindex 1 (by decide)).2 x (by exact_mod_cast hx),
    hloop 3 _ .blank hvalue "c" .lockVar .nowhere, (hjoin _ rfl).2⟩

end Machine

end Vibe
