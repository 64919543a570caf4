import Vibe.Store.Builtins
import Vibe.Proofs.Decimal.Reading
import Vibe.Proofs.Decimal.Spelling
import Vibe.Proofs.Token.Lexemes

/-! Texts that can be converted to numbers: numerals with white space around them that are not
rounded to an infinity. -/

namespace Vibe

/-! ### White space around a text -/

namespace Text

variable {before core after cs : List Char}

theorem dropWhile_isBlank (hbefore : ∀ c ∈ before, isBlank c = true)
    (hcore : ∀ c ∈ core.head?, isBlank c = false) (hne : core ≠ []) :
    (before ++ (core ++ after)).dropWhile isBlank = core ++ after := by
  obtain ⟨c, r, rfl⟩ := List.exists_cons_of_ne_nil hne
  rw [List.dropWhile_append_of_pos hbefore, List.cons_append,
    List.dropWhile_cons_of_neg (by simp [hcore c rfl])]

theorem trim_of_blank (hbefore : ∀ c ∈ before, isBlank c = true)
    (hafter : ∀ c ∈ after, isBlank c = true) (hcore : ∀ c ∈ core, isBlank c = false)
    (hne : core ≠ []) : trim (before ++ core ++ after) = core := by
  have hback : (core ++ after).reverse.dropWhile isBlank = core.reverse := by
    have hdrop : (after.reverse ++ (core.reverse ++ [])).dropWhile isBlank = core.reverse ++ [] :=
      dropWhile_isBlank (fun c hc => hafter c (List.mem_reverse.1 hc))
        (fun c hc => hcore c (List.mem_reverse.1 (List.mem_of_mem_head? hc))) (by simpa using hne)
    simpa using hdrop
  rw [trim, List.append_assoc, dropWhile_isBlank hbefore
    (fun c hc => hcore c (List.mem_of_mem_head? hc)) hne, hback, List.reverse_reverse]

end Text

namespace Spelling

/-- The characters of numerals. -/
def isPart (c : Char) : Prop :=
  c.isDigit = true ∨ c ∈ ['.', '+', '-', 'e', 'E']

theorem not_isBlank_of_isPart {c : Char} (h : isPart c) : Text.isBlank c = false := by
  obtain hdigit | hmark := h
  · obtain ⟨hlow, hhigh⟩ := Token.toNat_of_isDigit hdigit
    simp [Text.isBlank, Text.inRanges, Text.blankRanges]
    omega
  · simp only [List.mem_cons, List.not_mem_nil, or_false] at hmark
    obtain rfl | rfl | rfl | rfl | rfl := hmark <;> decide

theorem isPart_of_mem_signText {sign : Option Bool} {c : Char} (h : c ∈ signText sign) :
    isPart c := by
  obtain _ | _ | _ := sign
  · cases h
  · obtain rfl := List.mem_singleton.1 h
    exact .inr (by decide)
  · obtain rfl := List.mem_singleton.1 h
    exact .inr (by decide)

theorem isPart_of_mem_text {n : Spelling} {c : Char} (h : c ∈ n.text) : isPart c := by
  simp only [text, List.mem_append] at h
  obtain h | h | h | h := h
  · exact isPart_of_mem_signText h
  · exact .inl (n.isDigit c (List.mem_append_left _ h))
  · cases hfraction : n.fraction with
    | none => rw [hfraction] at h; cases h
    | some ds =>
      rw [hfraction] at h
      obtain rfl | h := List.mem_cons.1 h
      · exact .inr (by decide)
      · exact .inl (n.isDigit c (List.mem_append_right _ (by rwa [hfraction])))
  · cases hpower : n.power with
    | none => rw [hpower] at h; cases h
    | some p =>
      rw [hpower] at h
      obtain rfl | h := List.mem_cons.1 h
      · obtain hmark | hmark := p.isMark <;> rw [hmark] <;> exact .inr (by decide)
      · obtain h | h := List.mem_append.1 h
        · exact isPart_of_mem_signText h
        · exact .inl (p.isDigit c h)

theorem exists_digit (n : Spelling) : ∃ c ∈ n.text, c.isDigit = true := by
  obtain ⟨c, hc⟩ := List.exists_mem_of_ne_nil _ n.nonempty
  refine ⟨c, ?_, n.isDigit c hc⟩
  obtain h | h := List.mem_append.1 hc
  · simp [text, h]
  · cases hfraction : n.fraction with
    | none => rw [hfraction] at h; cases h
    | some ds =>
      rw [hfraction] at h
      have hds : c ∈ fractionText n.fraction := by
        rw [hfraction]
        exact List.mem_cons_of_mem _ h
      simp [text, hds]

/-! ### The digits of an exponent -/

/-- The number that digits stand for. -/
def written (ds : List Char) : ℕ :=
  Nat.ofDigitChars 10 ds 0

/-- The number that the digits of an exponent count for: those behind the one with which 65536 is
reached are passed over. -/
def counted (ds : List Char) : ℕ :=
  written ((ds.inits.find? fun p => 65536 ≤ written p).getD ds)

theorem trim_text {before after : List Char} (n : Spelling)
    (hbefore : ∀ c ∈ before, Text.isBlank c = true) (hafter : ∀ c ∈ after, Text.isBlank c = true) :
    Text.trim (before ++ n.text ++ after) = n.text := by
  obtain ⟨c, hc, -⟩ := n.exists_digit
  exact Text.trim_of_blank hbefore hafter
    (fun c hc => not_isBlank_of_isPart (isPart_of_mem_text hc))
    (List.ne_nil_of_mem hc)

theorem trim_alone (n : Spelling) : Text.trim n.text = n.text := by
  have htrim : Text.trim ([] ++ n.text ++ []) = n.text := trim_text n (by simp) (by simp)
  simpa using htrim

end Spelling

namespace Builtin

open Spelling

theorem call_num (s : String) (st : Store) : call .num [.string s] st =
    match numberOf? s with
    | some x => (.ok (.number x), st)
    | none => (.error (.builtin ("cannot convert \"" ++ s ++ "\" to number")), st) := by
  simp only [call, call.asNumber, call.fail]
  cases numberOf? s <;> rfl

end Builtin

/-! ### An exponent of which not all digits count -/

namespace Spelling

variable {n n' : Spelling} {p p' : Option Power}

end Spelling
end Vibe
