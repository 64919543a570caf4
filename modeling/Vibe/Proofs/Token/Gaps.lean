import Mathlib.Data.List.TakeWhile
import Vibe.Token.Scan

/-! Gaps: what may stand between tokens without meaning, and how all of it is passed over. -/

namespace Vibe.Token

variable {c : Char} {cs text line gap gap' ahead ahead' rest : List Char} {p : Position}

/-- A comment up to the end of its line: two slashes or the word `note`, and what follows on the
line. -/
inductive Comment : List Char → Prop
  | slashes {line : List Char} : '\n' ∉ line → Comment ('/' :: '/' :: line)
  | note {line : List Char} : '\n' ∉ line → (∀ c ∈ line.head?, isNamePart c = false) →
      Comment ('n' :: 'o' :: 't' :: 'e' :: line)

/-- What may stand without meaning before the text `ahead`: spaces and comments. A comment leaves
nothing of its line. -/
inductive Gap (ahead : List Char) : List Char → Prop
  | nil : Gap ahead []
  | space {c : Char} {gap : List Char} : isSpace c = true → Gap ahead gap → Gap ahead (c :: gap)
  | comment {text gap : List Char} : Comment text → (∀ c ∈ (gap ++ ahead).head?, c = '\n') →
      Gap ahead gap → Gap ahead (text ++ gap)

/-- Neither a space nor a comment stands at the front of the text. -/
def Solid (text : List Char) : Prop :=
  ∀ gap rest, text = gap ++ rest → Gap rest gap → gap = []

/-! ### Comments -/

theorem not_isNamePart_newline : isNamePart '\n' = false := by
  decide

theorem Comment.newline_not_mem (h : Comment text) : '\n' ∉ text := by
  cases h with
  | slashes hline => simp [hline]
  | note hline => simp [hline]

theorem Comment.ne_nil (h : Comment text) : text ≠ [] := by
  cases h <;> simp

/-- No comment begins as a space does. -/
theorem Comment.not_isSpace (h : Comment text) (heq : text ++ rest = c :: cs) :
    isSpace c = false := by
  cases h <;> obtain ⟨rfl, -⟩ := List.cons.inj heq <;> decide

/-- A comment is told from how the text begins, whatever stands behind its line. -/
theorem Comment.opensComment (h : Comment text) (hrest : ∀ c ∈ rest.head?, c = '\n') :
    opensComment (text ++ rest) = true := by
  cases h with
  | slashes _ => rfl
  | @note line _ hpart =>
    have hstop : ∀ c ∈ (line ++ rest).head?, isNamePart c = false := by
      intro c hc
      cases line with
      | nil =>
        rw [hrest c hc]
        exact not_isNamePart_newline
      | cons d line => exact hpart c hc
    have hword : (line ++ rest).takeWhile isNamePart = [] := by
      cases hl : line ++ rest with
      | nil => rfl
      | cons c l => simp [hstop c (by rw [hl]; rfl)]
    have hn : isNameStart 'n' = true := by decide
    have hp : isNamePart 'n' = true ∧ isNamePart 'o' = true ∧ isNamePart 't' = true ∧
      isNamePart 'e' = true := by decide
    simp [Token.opensComment, hn, hp, hword]

theorem takeWhile_line (cs : List Char) : '\n' ∉ cs.takeWhile (· ≠ '\n') := by
  intro h
  simpa using List.mem_takeWhile_imp h

theorem dropWhile_line (hc : c ∈ (cs.dropWhile (· ≠ '\n')).head?) : c = '\n' := by
  have := List.head?_dropWhile_not (· ≠ '\n') cs
  rw [Option.mem_def.1 hc] at this
  simpa using this

/-- Where a comment opens, what is left of the line is a comment. -/
theorem comment_of_opensComment (h : opensComment cs = true) :
    Comment (cs.takeWhile (· ≠ '\n')) := by
  unfold opensComment at h
  split at h
  · next r => exact .slashes (takeWhile_line r)
  · next c r _ =>
    obtain ⟨-, hword⟩ := Bool.and_eq_true_iff.1 h
    have hword : (c :: r).takeWhile isNamePart = ['n', 'o', 't', 'e'] := of_decide_eq_true hword
    have hsplit := List.takeWhile_append_dropWhile (p := isNamePart) (l := c :: r)
    rw [hword] at hsplit
    rw [← hsplit]
    refine .note (takeWhile_line _) fun d hd => ?_
    have hstop := List.head?_dropWhile_not isNamePart (c :: r)
    cases hrest : (c :: r).dropWhile isNamePart with
    | nil =>
      rw [hrest] at hd
      cases hd
    | cons e rest =>
      rw [hrest] at hd hstop
      by_cases he : e = '\n'
      · simp [he] at hd
      · obtain rfl : e = d := by simpa [he] using hd
        exact hstop
  · cases h

/-! ### Gaps -/

theorem Gap.append (h : Gap (gap' ++ ahead) gap) (h' : Gap ahead gap') :
    Gap ahead (gap ++ gap') := by
  induction h with
  | nil => exact h'
  | space hc _ ih => exact .space hc ih
  | comment ht hend _ ih =>
    rw [List.append_assoc]
    exact .comment ht (by rwa [List.append_assoc]) ih

/-- A gap is one before another text too, if that one does not put something behind a comment. -/
theorem Gap.of_head (h : Gap ahead gap) (hhead : ∀ c ∈ ahead'.head?, c ∈ ahead.head?) :
    Gap ahead' gap := by
  induction h with
  | nil => exact .nil
  | space hc _ ih => exact .space hc ih
  | @comment text gap ht hend _ ih =>
    refine .comment ht (fun c hc => ?_) ih
    cases gap with
    | nil => exact hend c (hhead c hc)
    | cons d gap => exact hend c hc

theorem Gap.spaces (h : ∀ c ∈ gap, isSpace c = true) : Gap ahead gap := by
  induction gap with
  | nil => exact .nil
  | cons c gap ih =>
    obtain ⟨hc, hgap⟩ := List.forall_mem_cons.1 h
    exact .space hc (ih hgap)

/-- What is passed over at once is a gap. -/
theorem gap_of_takeGap? (h : takeGap? cs = some (gap, rest)) : Gap rest gap := by
  unfold takeGap? at h
  split at h
  · next hopens =>
    cases h
    have hcomment := comment_of_opensComment hopens
    rw [← List.append_nil (List.takeWhile _ _)]
    exact .comment hcomment (fun c hc => dropWhile_line hc) .nil
  · split at h
    · split at h
      · cases h
        exact .spaces fun c hc => List.mem_takeWhile_imp hc
      · cases h
    · cases h

/-- Where nothing is passed over, no gap begins. -/
theorem solid_of_takeGap? (h : takeGap? cs = none) : Solid cs := by
  unfold takeGap? at h
  split at h
  · cases h
  · next hopens =>
    rintro gap rest rfl hgap
    cases hgap with
    | nil => rfl
    | space hc _ =>
      simp [hc] at h
    | @comment text gap ht hend _ =>
      rw [List.append_assoc] at hopens
      exact (hopens (ht.opensComment hend)).elim

theorem Solid.takeGap? (h : Solid cs) : takeGap? cs = none := by
  cases hcs : Token.takeGap? cs with
  | none => rfl
  | some x =>
    obtain ⟨gap, rest⟩ := x
    have hnil := h gap rest (takeGap?_append hcs).symm (gap_of_takeGap? hcs)
    have hless := takeGap?_length hcs
    rw [← takeGap?_append hcs, hnil] at hless
    exact (Nat.lt_irrefl _ hless).elim

theorem Solid.nil : Solid [] := by
  intro gap rest h _
  exact (List.append_eq_nil_iff.1 h.symm).1

/-- Everything that is passed over is a gap, and no gap begins behind it. -/
theorem skipGaps_eq (p : Position) (cs : List Char) :
    ∃ gap ahead, cs = gap ++ ahead ∧ Gap ahead gap ∧ Solid ahead ∧
      skipGaps p cs = (p.after gap, ahead) := by
  fun_induction skipGaps p cs with
  | case1 p cs h => exact ⟨[], cs, rfl, .nil, solid_of_takeGap? h, rfl⟩
  | case2 p cs first rest h _ ih =>
    obtain ⟨gap, ahead, rfl, hgap, hsolid, heq⟩ := ih
    refine ⟨first ++ gap, ahead, ?_, (gap_of_takeGap? h).append hgap, hsolid, ?_⟩
    · rw [List.append_assoc]
      exact (takeGap?_append h).symm
    · rw [heq, Position.after, Position.after, Position.after, List.foldl_append]

/-- What is left of a line is told from where the next line begins. -/
theorem takeWhile_of_line (htext : '\n' ∉ text) (hrest : ∀ c ∈ rest.head?, c = '\n') :
    (text ++ rest).takeWhile (· ≠ '\n') = text := by
  have hall : ∀ c ∈ text, decide (c ≠ '\n') = true := by
    intro c hc
    simpa using fun he : c = '\n' => htext (he ▸ hc)
  rw [List.takeWhile_append_of_pos hall]
  cases rest with
  | nil => simp
  | cons c r => simp [hrest c rfl]

/-- There is one way only to pass over all that may be passed over. -/
theorem Gap.unique (h : Gap ahead gap) (hsolid : Solid ahead) (h' : Gap ahead' gap')
    (hsolid' : Solid ahead') (heq : gap ++ ahead = gap' ++ ahead') : gap = gap' := by
  induction h generalizing gap' with
  | nil => exact (hsolid gap' ahead' heq h').symm
  | @space c gap hc hgap ih =>
    cases h' with
    | nil =>
      have hnil := hsolid' [c] (gap ++ ahead) heq.symm (.space hc .nil)
      cases hnil
    | @space d gap' hd hgap' =>
      obtain ⟨rfl, hrest⟩ := List.cons.inj heq
      rw [ih hgap' hrest]
    | @comment text gap' ht hend hgap' =>
      rw [List.append_assoc] at heq
      rw [ht.not_isSpace heq.symm] at hc
      cases hc
  | @comment text gap ht hend hgap ih =>
    cases h' with
    | nil =>
      have hopens : Gap (gap ++ ahead) (text ++ []) := .comment ht hend .nil
      rw [List.append_nil] at hopens
      rw [List.append_assoc] at heq
      exact (ht.ne_nil (hsolid' text (gap ++ ahead) heq.symm hopens)).elim
    | @space d gap' hd hgap' =>
      rw [List.append_assoc] at heq
      rw [ht.not_isSpace heq] at hd
      cases hd
    | @comment text' gap' ht' hend' hgap' =>
      rw [List.append_assoc, List.append_assoc] at heq
      -- Both comments are the rest of the same line.
      have hline := takeWhile_of_line ht.newline_not_mem hend
      rw [heq, takeWhile_of_line ht'.newline_not_mem hend'] at hline
      subst hline
      rw [ih hgap' (List.append_cancel_left heq)]

/-- A gap that no other follows is passed over. -/
theorem skipGaps_of_gap (p : Position) (h : Gap ahead gap) (hsolid : Solid ahead) :
    skipGaps p (gap ++ ahead) = (p.after gap, ahead) := by
  obtain ⟨gap', ahead', hcs, hgap', hsolid', heq⟩ := skipGaps_eq p (gap ++ ahead)
  obtain rfl := h.unique hsolid hgap' hsolid' hcs
  rw [heq, List.append_cancel_left hcs]

end Vibe.Token
