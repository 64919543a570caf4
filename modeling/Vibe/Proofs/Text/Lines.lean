import Mathlib.Data.List.Basic
import Vibe.Text.Blank
import Vibe.Text.Lines

/-! Texts of one line. -/

namespace Vibe.Text

variable {cs p : List Char}

theorem pieces_cons (c : Char) (cs : List Char) : pieces (c :: cs) =
    if c = '\n' then [c] :: pieces cs
    else match pieces cs with
      | [] => [[c]]
      | p :: ps => (c :: p) :: ps :=
  rfl

/-- A line feed is the last character of its piece. -/
theorem exists_of_mem_pieces (h : p ∈ pieces cs) :
    ∃ q, '\n' ∉ q ∧ (p = q ∨ p = q ++ ['\n']) := by
  induction cs generalizing p with
  | nil => cases h
  | cons c cs ih =>
    rw [pieces_cons] at h
    split at h
    · next hc =>
      rcases List.mem_cons.1 h with rfl | h
      · exact ⟨[], List.not_mem_nil, .inr (by rw [hc, List.nil_append])⟩
      · exact ih h
    · next hc =>
      split at h
      · obtain rfl := List.mem_singleton.1 h
        exact ⟨[c], by simpa using Ne.symm hc, .inl rfl⟩
      · next first ps hpieces =>
        rw [hpieces] at ih
        rcases List.mem_cons.1 h with rfl | h
        · obtain ⟨q, hq, hfirst⟩ := ih List.mem_cons_self
          refine ⟨c :: q, by simpa [hq] using Ne.symm hc, ?_⟩
          rcases hfirst with rfl | rfl
          · exact .inl rfl
          · exact .inr rfl
        · exact ih (List.mem_cons_of_mem _ h)

theorem not_mem_withoutEndings (h : p ∈ pieces cs) : '\n' ∉ withoutEndings p := by
  obtain ⟨q, hq, rfl | rfl⟩ := exists_of_mem_pieces h
  · intro hmem
    exact hq (List.mem_reverse.1 ((List.dropWhile_sublist _).subset (List.mem_reverse.1 hmem)))
  · intro hmem
    rw [withoutEndings, List.mem_reverse, List.reverse_append] at hmem
    have hdrop : (['\n'].reverse ++ q.reverse).dropWhile (fun c => c = '\n' || c = '\r') =
        q.reverse.dropWhile fun c => c = '\n' || c = '\r' := by
      simp
    rw [hdrop] at hmem
    exact hq (List.mem_reverse.1 ((List.dropWhile_sublist _).subset hmem))

theorem mem_of_mem_trim {c : Char} (h : c ∈ trim cs) : c ∈ cs := by
  have hreverse := (List.dropWhile_sublist _).subset (List.mem_reverse.1 h)
  exact (List.dropWhile_sublist _).subset (List.mem_reverse.1 hreverse)

theorem pieces_of_not_mem (h : '\n' ∉ cs) (hne : cs ≠ []) : pieces cs = [cs] := by
  induction cs with
  | nil => exact (hne rfl).elim
  | cons c cs ih =>
    rw [List.mem_cons, not_or] at h
    rw [pieces_cons, if_neg (Ne.symm h.1)]
    cases cs with
    | nil => rfl
    | cons d cs => rw [ih h.2 (List.cons_ne_nil d cs)]

theorem withoutEnding_of_not_mem (h : '\n' ∉ p) : withoutEnding p = p := by
  unfold withoutEnding
  split
  · next r hp => exact (h (List.mem_reverse.1 (by rw [hp]; exact List.mem_cons_self))).elim
  · next r hp => exact (h (List.mem_reverse.1 (by rw [hp]; exact List.mem_cons_self))).elim
  · rfl

/-- A text without line feeds is its own first line. -/
theorem line?_one {s : String} (h : '\n' ∉ s.toList) (hne : s ≠ "") : line? s 1 = some s := by
  have hlist : s.toList ≠ [] := by simpa using hne
  simp [line?, pieces_of_not_mem h hlist, withoutEnding_of_not_mem h]

end Vibe.Text
