import Vibe.Proofs.Token.Cutting

/-! Texts one below the other. What begins behind a line feed is cut as by itself, whatever the text
above it ended with, and its tokens have their places that much further down. -/

namespace Vibe

/-- The same stretch in a text with so many more bytes and lines above it. -/
def Span.below (bytes lines : Nat) (s : Span) : Span :=
  ⟨s.start + bytes, s.stop + bytes, s.line + lines, s.column⟩

/-- The same token in a text with so many more bytes and lines above it. -/
def Token.below (bytes lines : Nat) (t : Token) : Token :=
  { t with span := t.span.below bytes lines }

/-- The same error in a text with so many more bytes and lines above it. -/
def Error.below (bytes lines : Nat) (e : Error) : Error :=
  { e with span := e.span.map (Span.below bytes lines) }

theorem takeWhile_append_stop {α : Type} {p : α → Bool} {a : α} (h : p a = false) (xs ys : List α) :
    (xs ++ a :: ys).takeWhile p = xs.takeWhile p := by
  induction xs with
  | nil => simp [h]
  | cons x xs ih => simp only [List.cons_append, List.takeWhile_cons, ih]

namespace Position

/-- The place behind a text that stands below another one. -/
theorem behind_below (upper before : List Char) : behind (upper ++ '\n' :: before) =
    ⟨(behind before).offset + ((behind upper).offset + 1),
      (behind before).line + (upper.count '\n' + 1), (behind before).column⟩ := by
  have hoffset : (behind (upper ++ '\n' :: before)).offset =
      (behind before).offset + ((behind upper).offset + 1) := by
    have hnewline : (behind ['\n']).offset = 1 := rfl
    rw [List.append_cons, offset_behind_append, offset_behind_append, hnewline]
    omega
  have hline : (behind (upper ++ '\n' :: before)).line =
      (behind before).line + (upper.count '\n' + 1) := by
    simp only [behind, List.count_append, List.count_cons_self]
    omega
  have hcolumn : (behind (upper ++ '\n' :: before)).column = (behind before).column := by
    have hreverse : (upper ++ '\n' :: before).reverse =
        before.reverse ++ '\n' :: upper.reverse := by simp
    simp only [behind, hreverse]
    rw [takeWhile_append_stop (by decide)]
  rw [← hoffset, ← hline, ← hcolumn]

end Position

namespace Token

open Position (behind behind_below)

variable {c : Char} {r v text gap before passed ahead lexeme rest upper lower body : List Char}
  {kind kind' : Kind} {ts us tokens : List Token}

/-! ### Lexemes with more text behind them -/

/-- The longest lexeme stays the longest one when more text comes behind a space. -/
theorem Longest.append_space (h : Longest (lexeme ++ rest) lexeme kind) (hc : isSpace c = true)
    (lower : List Char) : Longest (lexeme ++ (rest ++ c :: lower)) lexeme kind := by
  refine ⟨h.means, List.prefix_append _ _, fun v k hv hle => ?_⟩
  rw [← List.append_assoc] at hle
  obtain ⟨behind, hbehind⟩ := hle
  rcases List.append_eq_append_iff.1 hbehind with ⟨w, hw, -⟩ | ⟨w, rfl, hw⟩
  · exact h.length_le v k hv ⟨w, hw.symm⟩
  cases w with
  | nil => exact h.length_le _ k hv (by simp)
  | cons d w =>
    -- The space is in a string, and the lexeme before it is one that begins with the same quote.
    obtain ⟨rfl, -⟩ := List.cons.inj hw
    obtain ⟨body, hbody, hstring⟩ := hv.exists_quote (by simp) hc
    obtain ⟨e, r, rfl⟩ := List.exists_cons_of_ne_nil h.means.ne_nil
    obtain ⟨rfl, hsame⟩ := List.cons.inj hstring
    obtain ⟨body', hbody', rfl⟩ := h.means.quoted
    have heq : body' ++ '"' :: (rest ++ c :: w) = body ++ '"' :: [] := by simpa using hsame
    obtain rfl := hbody'.unique hbody heq
    simp at heq

/-- A text that no gap begins still does not when more text comes behind a space. -/
theorem Solid.append_space (h : Solid text) (hne : text ≠ []) (hc : isSpace c = true)
    (lower : List Char) : Solid (text ++ c :: lower) := by
  obtain ⟨d, r, rfl⟩ := List.exists_cons_of_ne_nil hne
  have hspace : ¬ isSpace d = true := by
    intro hspace
    cases h [d] r rfl (.space hspace .nil)
  have hnone := h.takeGap?
  have hopens : ¬ opensComment (d :: r ++ c :: lower) = true := by
    intro hopens
    suffices hshort : opensComment (d :: r) = true by
      rw [Token.takeGap?, if_pos hshort] at hnone
      cases hnone
    unfold opensComment at hopens
    split at hopens
    · next heq =>
      obtain ⟨rfl, hrest⟩ := List.cons.inj heq
      cases r with
      | nil =>
        obtain ⟨rfl, -⟩ := List.cons.inj hrest
        cases hc
      | cons e r =>
        obtain ⟨rfl, -⟩ := List.cons.inj hrest
        rfl
    · next heq =>
      obtain ⟨rfl, rfl⟩ := List.cons.inj heq
      obtain ⟨hstart, hword⟩ := Bool.and_eq_true_iff.1 hopens
      refine (opensComment_word hstart).2 ?_
      rw [← takeWhile_append_stop (not_isNamePart_of_isSpace hc) _ lower]
      exact of_decide_eq_true hword
    · cases hopens
  apply solid_of_takeGap?
  unfold Token.takeGap?
  rw [if_neg hopens]
  exact if_neg hspace

/-! ### Cuts -/

/-- A gap at the end of a text is one before a line feed too, which ends a comment. -/
theorem Gap.before_newline (h : Gap [] gap) (lower : List Char) : Gap ('\n' :: lower) gap := by
  induction h with
  | nil => exact .nil
  | space hc _ ih => exact .space hc ih
  | @comment text gap ht hend _ ih =>
    refine .comment ht (fun c hc => ?_) ih
    cases gap with
    | nil => exact (Option.some.inj hc).symm
    | cons d gap => exact hend c hc

/-- A gap makes no difference but to the places. -/
theorem Cut.behind_gap (h : Cut ahead (before ++ gap) text ts) (hgap : Gap text gap) :
    Cut ahead before (gap ++ text) ts := by
  cases h with
  | @done _ gap' hgap' hsolid =>
    rw [← List.append_assoc]
    exact .done (hgap.append hgap') hsolid
  | @token _ gap' lexeme rest kind ts hgap' hsolid hlongest hcut =>
    rw [← List.append_assoc gap]
    rw [List.append_assoc before] at hcut ⊢
    exact .token (hgap.append hgap') hsolid hlongest hcut

/-- The cut of a text goes on behind a line feed with the cut of what stands there. -/
theorem Cut.append_newline (h : Cut [] before upper ts)
    (h' : Cut ahead (before ++ upper ++ ['\n']) lower us) :
    Cut ahead before (upper ++ '\n' :: lower) (ts ++ us) := by
  have hnewline : isSpace '\n' = true := by decide
  induction h with
  | @done before gap hgap _ =>
    simp only [List.append_nil, List.nil_append, List.append_assoc] at h' ⊢
    have hwhole : Gap lower (gap ++ ['\n']) :=
      (hgap.before_newline lower).append (.space hnewline .nil)
    rw [List.append_cons gap]
    exact h'.behind_gap hwhole
  | @token before gap lexeme rest kind ts hgap hsolid hlongest _ ih =>
    have hne := hlongest.means.ne_nil
    have hrest := ih (by simpa using h')
    have htext : gap ++ (lexeme ++ rest) ++ '\n' :: lower =
        gap ++ (lexeme ++ (rest ++ '\n' :: lower)) := by simp
    rw [htext]
    refine .token (hgap.of_head ?_) ?_ (hlongest.append_space hnewline lower) hrest
    · obtain ⟨c, w, rfl⟩ := List.exists_cons_of_ne_nil hne
      exact fun d hd => hd
    · rw [← List.append_assoc]
      exact hsolid.append_space (by simp [hne]) hnewline lower

theorem placed_below (upper before lexeme : List Char) (kind : Kind) :
    placed (upper ++ '\n' :: before) lexeme kind =
      (placed before lexeme kind).below ((behind upper).offset + 1) (upper.count '\n' + 1) := by
  simp only [placed, List.append_assoc, List.cons_append, Span.between, behind_below]
  rfl

theorem finishAt_below (upper before : List Char) : finishAt (upper ++ '\n' :: before) =
    (finishAt before).below ((behind upper).offset + 1) (upper.count '\n' + 1) :=
  placed_below upper before [] .finish

theorem refusal_below (upper before : List Char) (c : Char) (r : List Char) :
    refusal (upper ++ '\n' :: before) c r =
      (refusal before c r).below ((behind upper).offset + 1) (upper.count '\n' + 1) := by
  unfold refusal
  split <;> simp only [List.append_assoc, List.cons_append, Span.between, behind_below] <;> rfl

/-- What stands below another text is cut as by itself, with its tokens that much further down. -/
theorem Cut.moved_below (h : Cut ahead before text ts) (upper : List Char) :
    Cut ahead (upper ++ '\n' :: before) text
      (ts.map (Token.below ((behind upper).offset + 1) (upper.count '\n' + 1))) := by
  induction h with
  | done hgap hsolid => exact .done hgap hsolid
  | @token before gap lexeme rest kind ts hgap hsolid hlongest _ ih =>
    have hbefore (cs : List Char) : upper ++ '\n' :: (before ++ cs) =
        upper ++ '\n' :: before ++ cs := by simp
    rw [List.map_cons, ← placed_below, hbefore]
    refine .token hgap hsolid hlongest ?_
    rwa [List.append_assoc before, hbefore, ← List.append_assoc] at ih

/-- Cutting goes line by line: when a text is cut, so is every text below it, as it is by itself,
whatever the upper one ended with. The end of the upper text is marked no more, and what comes of
the lower one, tokens or a refusal, has its places as much further down as there are bytes and lines
above it; the columns stay. -/
theorem scan_stacked {upper : String} (h : scan upper = .ok tokens) : ∃ ts last,
    tokens = ts ++ [last] ∧ last.kind = .finish ∧ (∀ t ∈ ts, t.kind ≠ .finish) ∧
    ∀ lower, scan (upper ++ "\n" ++ lower) = match scan lower with
      | .ok us => .ok (ts ++
          us.map (Token.below (upper.utf8ByteSize + 1) (upper.toList.count '\n' + 1)))
      | .error e => .error (e.below (upper.utf8ByteSize + 1) (upper.toList.count '\n' + 1)) := by
  obtain ⟨ts, hcut, rfl⟩ := cut_of_scan h
  refine ⟨ts, _, rfl, rfl, fun t ht => (hcut.ne_finish t ht).1, fun lower => ?_⟩
  have hbytes : upper.utf8ByteSize = (behind upper.toList).offset := by simp [behind]
  have htext : (upper ++ "\n" ++ lower).toList = upper.toList ++ '\n' :: lower.toList := by simp
  have hstacked {ahead : List Char} {us : List Token} (hlower : Cut ahead [] lower.toList us) :
      Cut ahead [] (upper ++ "\n" ++ lower).toList (ts ++ us.map (Token.below
        (upper.utf8ByteSize + 1) (upper.toList.count '\n' + 1))) := by
    rw [htext, hbytes]
    exact hcut.append_newline (hlower.moved_below upper.toList)
  rcases cut_or_blocked lower with ⟨us, hlower⟩ | ⟨before, c, r, us, hsource, hlower, hblocked⟩
  · rw [scan_of_cut hlower, scan_of_cut (hstacked hlower), htext, finishAt_below, ← hbytes]
    simp
  · have hwhole : (upper ++ "\n" ++ lower).toList = upper.toList ++ '\n' :: before ++ c :: r := by
      rw [htext, hsource]
      simp
    rw [scan_of_blocked hlower hblocked hsource, scan_of_blocked (hstacked hlower) hblocked hwhole,
      refusal_below, ← hbytes]

/-- A text that ends in what may be half an operator. -/
def halfText : String :=
  "say ü <"

def halfTokens : List Token := [
  ⟨.keyword .say, ⟨0, 3, 1, 1⟩, "say"⟩,
  ⟨.ident "ü", ⟨4, 6, 1, 5⟩, "ü"⟩,
  ⟨.symbol .less, ⟨7, 8, 1, 7⟩, "<"⟩,
  ⟨.finish, ⟨8, 8, 1, 8⟩, ""⟩]

theorem scan_halfText : scan halfText = .ok halfTokens := by
  decide +kernel

/-- The other half below it is an operator of its own, and a quote that is open there is refused at
its place on the second line. -/
theorem scan_stacked_halfText : scan halfText = .ok halfTokens ∧
    scan (halfText ++ "\n" ++ "= 1") = .ok (halfTokens.take 3 ++ [
      ⟨.symbol .equal, ⟨9, 10, 2, 1⟩, "="⟩,
      ⟨.number 1, ⟨11, 12, 2, 3⟩, "1"⟩,
      ⟨.finish, ⟨12, 12, 2, 4⟩, ""⟩]) ∧
    scan (halfText ++ "\n" ++ "= \"") =
      .error ⟨.lexing .unterminatedString, some ⟨11, 12, 2, 3⟩, none⟩ := by
  obtain ⟨ts, last, htokens, -, -, hlower⟩ := scan_stacked scan_halfText
  have hdrop : (ts ++ [last]).dropLast = ts := List.dropLast_concat
  obtain rfl : halfTokens.take 3 = ts := by
    rw [← hdrop, ← htokens]
    rfl
  have hone : scan "= 1" = .ok [⟨.symbol .equal, ⟨0, 1, 1, 1⟩, "="⟩,
      ⟨.number 1, ⟨2, 3, 1, 3⟩, "1"⟩, ⟨.finish, ⟨3, 3, 1, 4⟩, ""⟩] := by
    decide +kernel
  have hopen : scan "= \"" = .error ⟨.lexing .unterminatedString, some ⟨2, 3, 1, 3⟩, none⟩ := by
    decide +kernel
  refine ⟨scan_halfText, ?_, ?_⟩
  · rw [hlower, hone]
    decide +kernel
  · rw [hlower, hopen]
    decide +kernel

end Token

end Vibe
