import Vibe.Proofs.Text.Lines
import Vibe.Proofs.Token.Gaps
import Vibe.Proofs.Token.Positions

/-! The line of a text that a place stands in, and where in this line it stands. Places count line
feeds; lines are cut at them too, and lose a carriage return at their end. -/

namespace Vibe.Text

open Position (behind)
open Token (takeWhile_line dropWhile_line takeWhile_of_line)

variable {text above left right below before after line rest cs : List Char} {c : Char}
  {source : String}

/-- A line of a text, with what stands above and below it. It begins the text or stands behind a
line feed, and it reaches up to the next line feed, or to the carriage return before that, or to the
end of the text. -/
structure IsLine (text above line below : List Char) : Prop where
  text_eq : text = above ++ line ++ below
  above_end : ∀ c ∈ above.getLast?, c = '\n'
  newline_not_mem : '\n' ∉ line
  below_start : below = [] ∨ (∃ rest, below = '\r' :: '\n' :: rest) ∨
    ((∃ rest, below = '\n' :: rest) ∧ ∀ c ∈ line.getLast?, c ≠ '\r')

/-! ### Lines by their number -/

/-- Whole lines are cut as by themselves, one for each line feed. -/
theorem pieces_append (h : ∀ c ∈ above.getLast?, c = '\n') (cs : List Char) :
    pieces (above ++ cs) = pieces above ++ pieces cs ∧
      (pieces above).length = above.count '\n' := by
  induction above with
  | nil => exact ⟨rfl, rfl⟩
  | cons d above ih =>
    cases above with
    | nil =>
      obtain rfl : d = '\n' := h d rfl
      exact ⟨rfl, rfl⟩
    | cons e above =>
      obtain ⟨happend, hlength⟩ := ih fun c hc => h c (by rwa [List.getLast?_cons_cons])
      rw [List.cons_append, pieces_cons, pieces_cons, happend]
      by_cases hd : d = '\n'
      · rw [if_pos hd, if_pos hd, List.length_cons, hlength, hd, List.count_cons_self]
        exact ⟨rfl, rfl⟩
      · rw [if_neg hd, if_neg hd, List.count_cons_of_ne hd]
        cases hpieces : pieces (e :: above) with
        | nil =>
          have hflatten := flatten_pieces (e :: above)
          rw [hpieces] at hflatten
          cases hflatten
        | cons first others =>
          rw [hpieces] at hlength
          exact ⟨rfl, hlength⟩

theorem pieces_of_line (h : '\n' ∉ line) (rest : List Char) :
    pieces (line ++ '\n' :: rest) = (line ++ ['\n']) :: pieces rest := by
  induction line with
  | nil => rfl
  | cons d line ih =>
    rw [List.mem_cons, not_or] at h
    rw [List.cons_append, pieces_cons, if_neg (Ne.symm h.1), ih h.2]
    rfl

theorem withoutEnding_newline (h : ∀ c ∈ line.getLast?, c ≠ '\r') :
    withoutEnding (line ++ ['\n']) = line := by
  have hreverse : (line ++ ['\n']).reverse = '\n' :: line.reverse := List.reverse_concat
  unfold withoutEnding
  split
  · next r heq =>
    have hlast : line.getLast? = some '\r' := by
      rw [← List.head?_reverse, (List.cons.inj (hreverse.symm.trans heq)).2]
      rfl
    exact (h '\r' hlast rfl).elim
  · next r _ heq => rw [← (List.cons.inj (hreverse.symm.trans heq)).2, List.reverse_reverse]
  · next hno => exact (hno _ hreverse).elim

/-- A line is looked up by the number of the line feeds above it. -/
theorem IsLine.line?_eq (h : IsLine source.toList above line below) (hne : line ++ below ≠ []) :
    line? source (above.count '\n' + 1) = some (String.ofList line) := by
  obtain ⟨happend, hlength⟩ := pieces_append h.above_end (line ++ below)
  have hpiece : (pieces source.toList)[above.count '\n']? = (pieces (line ++ below))[0]? := by
    rw [h.text_eq, List.append_assoc, happend, List.getElem?_append_right (Nat.le_of_eq hlength),
      hlength, Nat.sub_self]
  have hline : ((pieces (line ++ below))[0]?).map withoutEnding = some line := by
    rcases h.below_start with rfl | ⟨rest, rfl⟩ | ⟨⟨rest, rfl⟩, hlast⟩
    · rw [List.append_nil] at hne ⊢
      rw [pieces_of_not_mem h.newline_not_mem hne]
      exact congrArg some (withoutEnding_of_not_mem h.newline_not_mem)
    · have hreturn : '\n' ∉ line ++ ['\r'] := by simpa using h.newline_not_mem
      rw [List.append_cons, pieces_of_line hreturn]
      simp [withoutEnding]
    · rw [pieces_of_line h.newline_not_mem]
      exact congrArg some (withoutEnding_newline hlast)
  rw [← hpiece] at hline
  simp only [line?, Nat.add_one_ne_zero, if_false, Nat.add_sub_cancel]
  rw [← Function.comp_def, ← Option.map_map, hline]
  rfl

/-- Below the last line feed of a text there is no line if nothing stands there. -/
theorem IsLine.line?_eq_none (h : IsLine source.toList above [] []) :
    line? source (above.count '\n' + 1) = none := by
  obtain ⟨happend, hlength⟩ := pieces_append h.above_end []
  have hpieces : pieces source.toList = pieces above := by
    rw [h.text_eq, List.append_nil, happend]
    exact List.append_nil _
  simp [line?, hpieces, hlength]

/-! ### The line of a place -/

/-- The stretch begins in a line of the text, behind `left` and before `right` of it: so a caret at
its column stands under the first character of `right`, or one past the end of the line. -/
structure Caret (text : List Char) (s : Span) (above left right below : List Char) : Prop where
  isLine : IsLine text above (left ++ right) below
  start : s.start = (behind (above ++ left)).offset
  line : s.line = above.count '\n' + 1
  column : s.column = left.length + 1

/-- If a line is found for a place, it is the one that the place stands in. -/
theorem Caret.toList_of_line? {s : Span} {l : String}
    (h : Caret source.toList s above left right below) (hline : line? source s.line = some l) :
    l.toList = left ++ right := by
  have hne : left ++ right ++ below ≠ [] := by
    intro hnil
    obtain ⟨rfl, rfl, rfl⟩ : left = [] ∧ right = [] ∧ below = [] := by simpa using hnil
    rw [h.line, h.isLine.line?_eq_none] at hline
    cases hline
  rw [h.line, h.isLine.line?_eq hne] at hline
  rw [← Option.some.inj hline, String.toList_ofList]

/-- What is left of a line before a place, and the lines above it. -/
theorem exists_above (before : List Char) : ∃ above left, before = above ++ left ∧
    (∀ c ∈ above.getLast?, c = '\n') ∧ '\n' ∉ left := by
  refine ⟨(before.reverse.dropWhile (· ≠ '\n')).reverse,
    (before.reverse.takeWhile (· ≠ '\n')).reverse, ?_, fun c hc => ?_, ?_⟩
  · rw [← List.reverse_append, List.takeWhile_append_dropWhile, List.reverse_reverse]
  · rw [List.getLast?_reverse] at hc
    exact dropWhile_line hc
  · rw [List.mem_reverse]
    exact takeWhile_line _

/-- A place counts the line feeds above its line and the characters before it on the line. -/
theorem behind_of_line (habove : ∀ c ∈ above.getLast?, c = '\n') (hleft : '\n' ∉ left) :
    (behind (above ++ left)).line = above.count '\n' + 1 ∧
      (behind (above ++ left)).column = left.length + 1 := by
  have htail : (left.reverse ++ above.reverse).takeWhile (· ≠ '\n') = left.reverse := by
    refine takeWhile_of_line (by simpa using hleft) fun c hc => habove c ?_
    rwa [List.head?_reverse] at hc
  constructor
  · simp only [behind, List.count_append, List.count_eq_zero.2 hleft, Nat.add_zero]
  · simp only [behind, List.reverse_append, htail, List.length_reverse]

/-- What stands behind a place on its line, and below it. A line ending right at the place is not
looked for: no carriage return stands there. -/
theorem exists_below (left after : List Char) (hleft : '\n' ∉ left)
    (hafter : ∀ c ∈ after.head?, c ≠ '\n' ∧ c ≠ '\r') : ∃ right below,
    after = right ++ below ∧ (after ≠ [] → right ≠ []) ∧ ∀ above,
      (∀ c ∈ above.getLast?, c = '\n') →
        IsLine (above ++ left ++ after) above (left ++ right) below := by
  have hsplit := List.takeWhile_append_dropWhile (p := (· ≠ '\n')) (l := after)
  have hmem := takeWhile_line after
  have hhead := fun c => @dropWhile_line c after
  generalize after.takeWhile (· ≠ '\n') = raw at hsplit hmem
  generalize after.dropWhile (· ≠ '\n') = rest at hsplit hhead
  subst hsplit
  have hraw : raw ++ rest ≠ [] → raw ≠ [] := by
    rintro hne rfl
    obtain ⟨d, rest, rfl⟩ := List.exists_cons_of_ne_nil hne
    exact (hafter d rfl).1 (hhead d rfl)
  cases rest with
  | nil =>
    refine ⟨raw, [], rfl, hraw, fun above habove => ⟨by simp, habove, ?_, .inl rfl⟩⟩
    simpa [hleft] using hmem
  | cons d rest =>
    obtain rfl := hhead d rfl
    by_cases hreturn : raw.getLast? = some '\r'
    · obtain ⟨right, rfl⟩ := List.getLast?_eq_some_iff.1 hreturn
      refine ⟨right, '\r' :: '\n' :: rest, by simp, fun _ => ?_, fun above habove =>
        ⟨by simp, habove, ?_, .inr (.inl ⟨rest, rfl⟩)⟩⟩
      · rintro rfl
        exact (hafter '\r' rfl).2 rfl
      · simpa [hleft] using hmem
    · refine ⟨raw, '\n' :: rest, rfl, hraw, fun above habove =>
        ⟨by simp, habove, by simpa [hleft] using hmem, .inr (.inr ⟨⟨rest, rfl⟩, fun c hc => ?_⟩)⟩⟩
      rintro rfl
      have hne := hraw (by simp)
      rw [List.getLast?_append_of_ne_nil _ hne] at hc
      exact hreturn hc

end Vibe.Text
