import Mathlib.Data.List.TakeWhile
import Vibe.Span

/-! Places told from the text before them. The places that are counted along the way are these. -/

namespace Vibe.Position

variable {before cs : List Char} {c : Char}

/-- The place behind a text: its bytes, its line feeds and the characters of its last line. -/
def behind (before : List Char) : Position where
  offset := (String.ofList before).utf8ByteSize
  line := before.count '\n' + 1
  column := (before.reverse.takeWhile (· ≠ '\n')).length + 1

theorem offset_behind_append (before cs : List Char) :
    (behind (before ++ cs)).offset = (behind before).offset + (behind cs).offset := by
  simp [behind]

theorem offset_behind_pos (h : cs ≠ []) : 0 < (behind cs).offset := by
  rcases Nat.eq_zero_or_pos (behind cs).offset with hzero | hpos
  · exact (h (by simpa [behind] using hzero)).elim
  · exact hpos

theorem behind_concat (before : List Char) (c : Char) :
    behind (before ++ [c]) = (behind before).next c := by
  by_cases hc : c = '\n'
  · subst hc
    simp [behind, next]
    rfl
  · simp [behind, next, hc]

/-- Counting on from the place behind a text gives the place behind the longer text. -/
theorem after_behind (before cs : List Char) :
    (behind before).after cs = behind (before ++ cs) := by
  induction cs generalizing before with
  | nil => simp [after]
  | cons c cs ih =>
    have hstep := ih (before ++ [c])
    rw [behind_concat, List.append_assoc] at hstep
    exact hstep

end Vibe.Position
