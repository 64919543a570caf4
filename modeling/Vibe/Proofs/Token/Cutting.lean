import Vibe.Proofs.Token.Gaps
import Vibe.Proofs.Token.Lexemes
import Vibe.Proofs.Token.Positions

/-! Cutting by the rule alone: all gaps are passed over, and the longest lexeme that stands behind
them is a token. The scanner does just this, and fails where the rule leads no further. -/

namespace Vibe.Token

open Position (behind after_behind behind_concat)

variable {c : Char} {r cs text before passed ahead lexeme rest v w : List Char} {kind : Kind}
  {ts tokens : List Token} {found : Array Token} {p start : Position} {source : String}

/-- The token of a lexeme that stands behind a text. -/
def placed (before lexeme : List Char) (kind : Kind) : Token :=
  ⟨kind, .between (behind before) (behind (before ++ lexeme)), String.ofList lexeme⟩

/-- What stands behind `before` is cut into tokens, up to where `ahead` is left. -/
inductive Cut (ahead : List Char) : (before text : List Char) → List Token → Prop
  | done {before gap : List Char} : Gap ahead gap → Solid ahead → Cut ahead before (gap ++ ahead) []
  | token {before gap lexeme rest : List Char} {kind : Kind} {ts : List Token} :
      Gap (lexeme ++ rest) gap → Solid (lexeme ++ rest) → Longest (lexeme ++ rest) lexeme kind →
      Cut ahead (before ++ gap ++ lexeme) rest ts →
      Cut ahead before (gap ++ (lexeme ++ rest)) (placed (before ++ gap) lexeme kind :: ts)

/-- The mark of the end behind a text. -/
def finishAt (before : List Char) : Token :=
  placed before [] .finish

/-- The error at a character that begins no lexeme: a quote that nothing closes, up to the end of
the text, or the character by itself. -/
def refusal (before : List Char) (c : Char) (r : List Char) : Error :=
  if c = '"' then
    ⟨.lexing .unterminatedString, some (.between (behind before) (behind (before ++ c :: r))), none⟩
  else
    ⟨.lexing (.unexpectedCharacter c), some (.between (behind before) (behind (before ++ [c]))),
      none⟩

/-! ### One step of the scanner -/

theorem scanFrom_eq (found : Array Token) (p : Position) (cs : List Char) :
    scanFrom found p cs = match skipGaps p cs with
      | (start, []) => .ok (found.push ⟨.finish, .between start start, ""⟩)
      | (start, c :: r) =>
        match front c r with
        | .token kind lexeme rest =>
          scanFrom (found.push ⟨kind, .between start (start.after lexeme), String.ofList lexeme⟩)
            (start.after lexeme) rest
        | .stray c =>
          .error ⟨.lexing (.unexpectedCharacter c), some (.between start (start.next c)), none⟩
        | .openQuote =>
          .error ⟨.lexing .unterminatedString, some (.between start (start.after (c :: r))), none⟩
    := by
  rw [scanFrom]
  split
  · next hskip => rw [hskip]
  · next hskip =>
    split <;> next hfront => simp only [hskip, hfront]

theorem skipGaps_of_solid (p : Position) (h : Solid ahead) : skipGaps p ahead = (p, ahead) :=
  skipGaps_of_gap p .nil h

/-- Gaps make no difference but to the places. -/
theorem scanFrom_gap {gap : List Char} (h : Gap ahead gap) (hsolid : Solid ahead)
    (found : Array Token) (p : Position) :
    scanFrom found p (gap ++ ahead) = scanFrom found (p.after gap) ahead := by
  rw [scanFrom_eq, scanFrom_eq found, skipGaps_of_gap p h hsolid, skipGaps_of_solid _ hsolid]

theorem scanFrom_nil (found : Array Token) (before : List Char) :
    scanFrom found (behind before) [] = .ok (found.push (finishAt before)) := by
  rw [scanFrom_eq, skipGaps_of_solid _ .nil, finishAt, placed, List.append_nil]

theorem scanFrom_longest (hsolid : Solid (lexeme ++ rest))
    (h : Longest (lexeme ++ rest) lexeme kind) (found : Array Token) (before : List Char) :
    scanFrom found (behind before) (lexeme ++ rest) =
      scanFrom (found.push (placed before lexeme kind)) (behind (before ++ lexeme)) rest := by
  have hskip := skipGaps_of_solid (behind before) hsolid
  cases hcs : lexeme ++ rest with
  | nil => exact (h.means.ne_nil (List.append_eq_nil_iff.1 hcs).1).elim
  | cons c r =>
    rw [hcs] at h hskip
    rw [scanFrom_eq, hskip, ← after_behind, placed, ← after_behind]
    simp only [front_of_longest h hcs]

theorem scanFrom_blocked (hsolid : Solid (c :: r)) (h : Blocked (c :: r)) (found : Array Token)
    (before : List Char) :
    scanFrom found (behind before) (c :: r) = .error (refusal before c r) := by
  rw [scanFrom_eq, skipGaps_of_solid _ hsolid, refusal]
  simp only [front_of_blocked h]
  by_cases hquote : c = '"'
  · rw [if_pos hquote, if_pos hquote]
    simp only [after_behind]
  · rw [if_neg hquote, if_neg hquote]
    simp only [behind_concat]

/-! ### Whole texts -/

/-- The scanner follows the rule. -/
theorem scanFrom_cut (h : Cut ahead before text ts) (found : Array Token) : ∃ passed,
    text = passed ++ ahead ∧ Solid ahead ∧ scanFrom found (behind before) text =
      scanFrom (found ++ ts.toArray) (behind (before ++ passed)) ahead := by
  induction h generalizing found with
  | @done before gap hgap hsolid =>
    refine ⟨gap, rfl, hsolid, ?_⟩
    rw [scanFrom_gap hgap hsolid, after_behind]
    simp
  | @token before gap lexeme rest kind ts hgap hsolid hlongest _ ih =>
    obtain ⟨passed, rfl, hahead, hscan⟩ := ih (found.push (placed (before ++ gap) lexeme kind))
    refine ⟨gap ++ (lexeme ++ passed), by simp, hahead, ?_⟩
    rw [scanFrom_gap hgap hsolid, after_behind, scanFrom_longest hsolid hlongest, hscan]
    simp

/-- Every text can be cut up to its end or to a place where no lexeme begins. -/
theorem exists_cut (before text : List Char) : ∃ ahead ts, Cut ahead before text ts ∧
    (ahead = [] ∨ Blocked ahead) := by
  obtain ⟨gap, rest, rfl, hgap, hsolid, -⟩ := skipGaps_eq {} text
  cases rest with
  | nil => exact ⟨[], [], .done hgap hsolid, .inl rfl⟩
  | cons c r =>
    by_cases hblocked : Blocked (c :: r)
    · exact ⟨c :: r, [], .done hgap hsolid, .inr hblocked⟩
    · obtain ⟨kind, lexeme, rest, hfront⟩ : ∃ kind lexeme rest,
          front c r = .token kind lexeme rest := by
        by_contra hnone
        refine hblocked (blocked_iff.2 fun kind lexeme rest hfront => ?_)
        exact hnone ⟨kind, lexeme, rest, hfront⟩
      have hlongest := longest_of_front hfront
      have hless : rest.length < (gap ++ c :: r).length := by
        have := front_length hfront
        rw [List.length_append]
        omega
      obtain ⟨happend, -⟩ := front_token hfront
      obtain ⟨ahead, ts, hcut, hend⟩ := exists_cut (before ++ gap ++ lexeme) rest
      rw [← happend] at hsolid hlongest hgap ⊢
      exact ⟨ahead, _, .token hgap hsolid hlongest hcut, hend⟩
termination_by text.length

/-- A word that is the longest lexeme is not followed by more of it. -/
theorem takeWhile_of_longest (h : Longest (c :: w ++ rest) (c :: w) kind)
    (hc : isNameStart c = true) : (c :: w ++ rest).takeWhile isNamePart = c :: w := by
  have hfront := front_of_longest h rfl
  rw [front_of_nameStart hc] at hfront
  injection hfront

theorem opensComment_word (hc : isNameStart c = true) : opensComment (c :: r) = true ↔
    (c :: r).takeWhile isNamePart = ['n', 'o', 't', 'e'] := by
  have hslash : c ≠ '/' := by
    rintro rfl
    revert hc
    decide
  simp [opensComment, hslash, hc]

/-- A comment that opens with a longest lexeme opens whatever of the text is kept behind it. -/
theorem opensComment_of_longest (h : Longest (lexeme ++ (passed ++ ahead)) lexeme kind)
    (hopens : opensComment (lexeme ++ passed) = true) :
    opensComment (lexeme ++ (passed ++ ahead)) = true := by
  obtain ⟨c, w, rfl⟩ := List.exists_cons_of_ne_nil h.means.ne_nil
  by_cases hc : isNameStart c = true
  · have hword := takeWhile_of_longest h hc
    have hparts : ∀ d ∈ c :: w, isNamePart d = true := by
      intro d hd
      rw [← hword] at hd
      exact List.mem_takeWhile_imp hd
    -- The word ends with the lexeme in the longer text, and so it does in the shorter one.
    have hends : passed.takeWhile isNamePart = [] := by
      rw [List.takeWhile_append_of_pos hparts, List.append_right_eq_self] at hword
      cases passed with
      | nil => rfl
      | cons d passed =>
        by_cases hd : isNamePart d = true
        · simp [hd] at hword
        · exact List.takeWhile_cons_of_neg hd
    have hnote : (c :: w ++ passed).takeWhile isNamePart = ['n', 'o', 't', 'e'] :=
      (opensComment_word hc).1 hopens
    refine (opensComment_word hc).2 (hword.trans ?_)
    rwa [List.takeWhile_append_of_pos hparts, hends, List.append_nil] at hnote
  · unfold opensComment at hopens
    split at hopens
    · next heq =>
      rw [← List.append_assoc, heq]
      rfl
    · next heq =>
      obtain ⟨rfl, -⟩ := List.cons.inj heq
      exact (hc (Bool.and_eq_true_iff.1 hopens).1).elim
    · cases hopens

/-- Where no gap begins, none begins when the text behind the longest lexeme is cut short. -/
theorem solid_of_longest (hsolid : Solid (lexeme ++ (passed ++ ahead)))
    (h : Longest (lexeme ++ (passed ++ ahead)) lexeme kind) : Solid (lexeme ++ passed) := by
  have hopens : ¬ opensComment (lexeme ++ passed) = true := by
    intro hopens
    have hnone := hsolid.takeGap?
    unfold takeGap? at hnone
    rw [if_pos (opensComment_of_longest h hopens)] at hnone
    cases hnone
  obtain ⟨c, w, rfl⟩ := List.exists_cons_of_ne_nil h.means.ne_nil
  have hspace : ¬ isSpace c = true := by
    intro hspace
    cases hsolid [c] _ rfl (.space hspace .nil)
  apply solid_of_takeGap?
  unfold takeGap?
  rw [if_neg hopens]
  exact if_neg hspace

/-- The longest lexeme stays the longest one when the text behind it is cut short. -/
theorem Longest.of_append (h : Longest (lexeme ++ (passed ++ ahead)) lexeme kind) :
    Longest (lexeme ++ passed) lexeme kind := by
  refine ⟨h.means, List.prefix_append _ _, fun v k hv hle => h.length_le v k hv (hle.trans ?_)⟩
  rw [← List.append_assoc]
  exact List.prefix_append _ _

/-- What was passed over is cut by itself as it was cut with more text behind it. -/
theorem Cut.alone (h : Cut ahead before text ts) : ∃ passed,
    text = passed ++ ahead ∧ Cut [] before passed ts := by
  induction h with
  | @done before gap hgap hsolid =>
    refine ⟨gap, rfl, ?_⟩
    have hcut : Cut [] before (gap ++ []) [] := .done (hgap.of_head (by simp)) .nil
    rwa [List.append_nil] at hcut
  | @token before gap lexeme rest kind ts hgap hsolid hlongest _ ih =>
    obtain ⟨passed, rfl, hcut⟩ := ih
    have hshort := hlongest.of_append
    refine ⟨gap ++ (lexeme ++ passed), by simp, .token ?_ ?_ hshort hcut⟩
    · refine hgap.of_head fun c hc => ?_
      obtain ⟨d, w, rfl⟩ := List.exists_cons_of_ne_nil hlongest.means.ne_nil
      exact hc
    · exact solid_of_longest hsolid hlongest

theorem scan_of_cut (h : Cut [] [] source.toList ts) :
    scan source = .ok (ts ++ [finishAt source.toList]) := by
  obtain ⟨passed, hpassed, -, hscan⟩ := scanFrom_cut h #[]
  rw [List.append_nil] at hpassed
  rw [List.nil_append, scanFrom_nil, ← hpassed] at hscan
  change (scanFrom #[] (behind []) source.toList).map Array.toList = _
  rw [hscan]
  simp [Except.map]

theorem scan_of_blocked (h : Cut (c :: r) [] source.toList ts) (hblocked : Blocked (c :: r))
    (hsource : source.toList = before ++ c :: r) : scan source = .error (refusal before c r) := by
  obtain ⟨passed, hpassed, hsolid, hscan⟩ := scanFrom_cut h #[]
  obtain rfl := List.append_cancel_right (hsource.symm.trans hpassed)
  rw [List.nil_append, scanFrom_blocked hsolid hblocked] at hscan
  change (scanFrom #[] (behind []) source.toList).map Array.toList = _
  rw [hscan]
  rfl

/-- Every text is cut up to its end or up to a place where no lexeme begins. -/
theorem cut_or_blocked (source : String) : (∃ ts, Cut [] [] source.toList ts) ∨
    ∃ before c r ts, source.toList = before ++ c :: r ∧ Cut (c :: r) [] source.toList ts ∧
      Blocked (c :: r) := by
  obtain ⟨ahead, ts, hcut, hend⟩ := exists_cut [] source.toList
  obtain ⟨before, hsource, -⟩ := hcut.alone
  rcases hend with rfl | hblocked
  · exact .inl ⟨ts, hcut⟩
  · cases ahead with
    | nil => exact .inl ⟨ts, hcut⟩
    | cons c r => exact .inr ⟨before, c, r, ts, hsource, hcut, hblocked⟩

theorem cut_of_scan (h : scan source = .ok tokens) :
    ∃ ts, Cut [] [] source.toList ts ∧ tokens = ts ++ [finishAt source.toList] := by
  rcases cut_or_blocked source with ⟨ts, hcut⟩ | ⟨before, c, r, ts, hsource, hcut, hblocked⟩
  · rw [scan_of_cut hcut] at h
    cases h
    exact ⟨ts, hcut, rfl⟩
  · rw [scan_of_blocked hcut hblocked hsource] at h
    cases h

theorem blocked_of_scan {e : Error} (h : scan source = .error e) :
    ∃ before c r ts, source.toList = before ++ c :: r ∧ Cut (c :: r) [] source.toList ts ∧
      Blocked (c :: r) ∧ e = refusal before c r := by
  rcases cut_or_blocked source with ⟨ts, hcut⟩ | ⟨before, c, r, ts, hsource, hcut, hblocked⟩
  · rw [scan_of_cut hcut] at h
    cases h
  · rw [scan_of_blocked hcut hblocked hsource] at h
    cases h
    exact ⟨before, c, r, ts, hsource, hcut, hblocked, rfl⟩

/-- What stands before a place in the cut is by itself cut into the tokens found there. -/
theorem scan_of_cut_before (h : Cut ahead [] source.toList ts)
    (hsource : source.toList = before ++ ahead) :
    scan (String.ofList before) = .ok (ts ++ [finishAt before]) := by
  obtain ⟨passed, hpassed, halone⟩ := h.alone
  obtain rfl := List.append_cancel_right (hsource.symm.trans hpassed)
  rw [← String.toList_ofList (l := before)] at halone
  have hscan := scan_of_cut halone
  rwa [String.toList_ofList] at hscan

/-- Every token of a cut is a lexeme with its meaning. -/
theorem Cut.means (h : Cut ahead before text ts) :
    ∀ t ∈ ts, Lexeme t.lexeme.toList t.kind := by
  induction h with
  | done => simp
  | @token before gap lexeme rest kind ts _ _ hlongest _ ih =>
    rintro t (_ | ⟨_, ht⟩)
    · simpa [placed] using hlongest.means
    · exact ih t ht

/-- No token of a lexeme is empty or marks the end. -/
theorem Cut.ne_finish (h : Cut ahead before text ts) :
    ∀ t ∈ ts, t.kind ≠ .finish ∧ t.lexeme ≠ "" := by
  induction h with
  | done => simp
  | @token before gap lexeme rest kind ts _ _ hlongest _ ih =>
    rintro t (_ | ⟨_, ht⟩)
    · refine ⟨hlongest.means.kind_ne_finish, fun hnil => ?_⟩
      exact hlongest.means.ne_nil (by simpa [placed] using hnil)
    · exact ih t ht

/-- The end is marked once, behind all other tokens. -/
theorem finish_of_scan (h : scan source = .ok tokens) :
    ∀ t ∈ tokens.dropWhile (·.kind ≠ .finish), t.kind = .finish := by
  obtain ⟨ts, hcut, rfl⟩ := cut_of_scan h
  intro t ht
  have hts : ∀ u ∈ ts, decide (u.kind ≠ .finish) = true := by
    intro u hu
    simpa using (hcut.ne_finish u hu).1
  rw [List.dropWhile_append_of_pos hts] at ht
  obtain rfl := List.mem_singleton.1 ((List.dropWhile_sublist _).subset ht)
  rfl

/-- A text is cut into its tokens, or it is refused at the first place where no lexeme begins: at a
character astray, or at a quote that nothing closes. What stands before such a place is by itself
cut into the tokens that were found there, and what a token means is told from its lexeme alone. -/
theorem scan_exact (source : String) :
    (∀ tokens, scan source = .ok tokens ↔
      ∃ ts, Cut [] [] source.toList ts ∧ tokens = ts ++ [finishAt source.toList]) ∧
    (∀ e, scan source = .error e ↔ ∃ before c r ts, source.toList = before ++ c :: r ∧
      Cut (c :: r) [] source.toList ts ∧ Blocked (c :: r) ∧ e = refusal before c r) ∧
    (∀ r, Blocked ('"' :: r) ↔ ∀ body rest, Quoted body → r ≠ body ++ '"' :: rest) ∧
    (∀ before c r ts, source.toList = before ++ c :: r → Cut (c :: r) [] source.toList ts →
      scan (String.ofList before) = .ok (ts ++ [finishAt before])) ∧
    (∀ lexeme kind kind', Lexeme lexeme kind → Lexeme lexeme kind' → kind = kind') := by
  refine ⟨fun tokens => ⟨cut_of_scan, ?_⟩, fun e => ⟨blocked_of_scan, ?_⟩, fun r => blocked_quote,
    ?_, fun lexeme kind kind' h h' => h.kind_unique h'⟩
  · rintro ⟨ts, hcut, rfl⟩
    exact scan_of_cut hcut
  · rintro ⟨before, c, r, ts, hsource, hcut, hblocked, rfl⟩
    exact scan_of_blocked hcut hblocked hsource
  · exact fun before c r ts hsource hcut => scan_of_cut_before hcut hsource

end Vibe.Token
