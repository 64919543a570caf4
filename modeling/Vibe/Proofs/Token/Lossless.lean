import Mathlib.Data.List.Chain
import Vibe.Proofs.Token.Cutting

/-! Nothing of a text is lost when it is cut, and every token knows its place. -/

namespace Vibe.Token

open Position (behind offset_behind_append offset_behind_pos)

variable {before text cs : List Char} {ts tokens : List Token} {t u : Token} {source : String}

/-- The token stands in the text, at the place that it names. -/
def Stands (text : List Char) (t : Token) : Prop :=
  ∃ before after, text = before ++ t.lexeme.toList ++ after ∧
    t.span = .between (behind before) (behind (before ++ t.lexeme.toList))

/-- Between two places in the text, told by the bytes before them, is nothing but a gap. -/
def GapBetween (text : List Char) (first last : Nat) : Prop :=
  ∃ before gap after, text = before ++ gap ++ after ∧ Gap after gap ∧
    (behind before).offset = first ∧ (behind (before ++ gap)).offset = last

/-- The second token begins where the first one has ended, and not where it began. -/
def Before (t u : Token) : Prop :=
  t.span.start < u.span.start ∧ t.span.stop ≤ u.span.start

theorem placed_start_lt_stop {lexeme : List Char} {kind : Kind} (h : lexeme ≠ []) :
    (placed before lexeme kind).span.start < (placed before lexeme kind).span.stop := by
  have hpos := offset_behind_pos h
  have hstop := offset_behind_append before lexeme
  simp only [placed, Span.between]
  omega

theorem finishAt_eq (before : List Char) :
    finishAt before = ⟨.finish, .between (behind before) (behind before), ""⟩ := by
  rw [finishAt, placed, List.append_nil]

theorem Cut.stands {ahead : List Char} (h : Cut ahead before text ts) :
    ∀ t ∈ ts, Stands (before ++ text) t := by
  induction h with
  | done => simp
  | @token before gap lexeme rest kind ts _ _ hlongest _ ih =>
    rintro t (_ | ⟨_, ht⟩)
    · exact ⟨before ++ gap, rest, by simp [placed], by simp [placed]⟩
    · simpa using ih t ht

theorem Cut.offset_le {ahead : List Char} (h : Cut ahead before text ts) :
    ∀ t ∈ ts, (behind before).offset ≤ t.span.start := by
  induction h with
  | done => simp
  | @token before gap lexeme rest kind ts _ _ _ _ ih =>
    have hgap := offset_behind_append before gap
    have hlexeme := offset_behind_append (before ++ gap) lexeme
    rintro t (_ | ⟨_, ht⟩)
    · simp only [placed, Span.between]
      omega
    · have := ih t ht
      omega

theorem Cut.ordered {ahead : List Char} (h : Cut ahead before text ts) : ts.Pairwise Before := by
  induction h with
  | done => exact .nil
  | @token before gap lexeme rest kind ts _ _ hlongest hcut ih =>
    refine .cons (fun u hu => ?_) ih
    have hlt : (placed (before ++ gap) lexeme kind).span.start < _ :=
      placed_start_lt_stop hlongest.means.ne_nil
    have hle : (placed (before ++ gap) lexeme kind).span.stop ≤ u.span.start :=
      hcut.offset_le u hu
    exact ⟨Nat.lt_of_lt_of_le hlt hle, hle⟩

/-- All tokens stand before the end mark. -/
theorem Stands.before_finishAt (h : Stands text t) (hne : t.lexeme ≠ "") :
    Before t (finishAt text) := by
  obtain ⟨before, after, rfl, hspan⟩ := h
  have hlist : t.lexeme.toList ≠ [] := by simpa using hne
  have hpos := offset_behind_pos hlist
  have hlexeme := offset_behind_append before t.lexeme.toList
  have hafter := offset_behind_append (before ++ t.lexeme.toList) after
  simp only [Before, hspan, finishAt_eq, Span.between]
  omega

/-- From one token to the next one and to the end mark there are gaps only. -/
theorem Cut.gaps (h : Cut [] before text ts) (t : Token)
    (ht : t.span.stop = (behind before).offset) :
    (t :: (ts ++ [finishAt (before ++ text)])).IsChain
      fun t u => GapBetween (before ++ text) t.span.stop u.span.start := by
  induction h generalizing t with
  | @done before gap hgap =>
    refine .cons_cons ⟨before, gap, [], by simp, hgap, ht.symm, ?_⟩ (.singleton _)
    simp [finishAt_eq, Span.between]
  | @token before gap lexeme rest kind ts hgap _ hlongest _ ih =>
    have hrest := ih (placed (before ++ gap) lexeme kind) rfl
    simp only [List.append_assoc] at hrest
    refine .cons_cons ⟨before, gap, lexeme ++ rest, by simp, hgap, ht.symm, rfl⟩ hrest

/-- Cutting a text loses nothing of it: the tokens stand in it one behind the other, with gaps only
before, between and behind them, and the end of the text is marked once. -/
theorem scan_lossless (h : scan source = .ok tokens) :
    (∃ ts, tokens = ts ++ [⟨.finish, .between (behind source.toList) (behind source.toList), ""⟩] ∧
      ∀ t ∈ ts, t.kind ≠ .finish ∧ t.lexeme ≠ "") ∧
    (∀ t ∈ tokens, Stands source.toList t) ∧ tokens.Pairwise Before ∧
    (∀ t ∈ tokens.head?, GapBetween source.toList 0 t.span.start) ∧
    tokens.IsChain fun t u => GapBetween source.toList t.span.stop u.span.start := by
  obtain ⟨ts, hcut, rfl⟩ := cut_of_scan h
  have hfinish : Stands source.toList (finishAt source.toList) :=
    ⟨source.toList, [], by simp [finishAt_eq], by simp [finishAt_eq]⟩
  have hgaps := hcut.gaps (finishAt []) rfl
  refine ⟨⟨ts, by rw [finishAt_eq], hcut.ne_finish⟩, ?_, ?_, ?_, ?_⟩
  · intro t ht
    rcases List.mem_append.1 ht with ht | ht
    · exact hcut.stands t ht
    · rwa [List.mem_singleton.1 ht]
  · refine List.pairwise_append.2 ⟨hcut.ordered, List.pairwise_singleton _ _, fun t ht u hu => ?_⟩
    obtain rfl := List.mem_singleton.1 hu
    exact (hcut.stands t ht).before_finishAt (hcut.ne_finish t ht).2
  · intro t ht
    exact hgaps.rel_head? ht
  · exact hgaps.tail

/-- Two statements on three lines, with a text of two lines and comments of both kinds. -/
def mixedText : String :=
  "say \"é\nü\" // ö\n note ä\nsay y2"

def mixedTokens : List Token := [
  ⟨.keyword .say, ⟨0, 3, 1, 1⟩, "say"⟩,
  ⟨.string "é\nü", ⟨4, 11, 1, 5⟩, "\"é\nü\""⟩,
  ⟨.keyword .say, ⟨27, 30, 4, 1⟩, "say"⟩,
  ⟨.ident "y2", ⟨31, 33, 4, 5⟩, "y2"⟩,
  ⟨.finish, ⟨33, 33, 4, 7⟩, ""⟩]

theorem scan_mixedText : scan mixedText = .ok mixedTokens := by
  decide +kernel

theorem scan_lossless_mixedText :
    (∃ ts, mixedTokens = ts ++ [⟨.finish, .between (behind mixedText.toList)
        (behind mixedText.toList), ""⟩] ∧ ∀ t ∈ ts, t.kind ≠ .finish ∧ t.lexeme ≠ "") ∧
      (∀ t ∈ mixedTokens, Stands mixedText.toList t) ∧ mixedTokens.Pairwise Before ∧
      (∀ t ∈ mixedTokens.head?, GapBetween mixedText.toList 0 t.span.start) ∧
      mixedTokens.IsChain fun t u => GapBetween mixedText.toList t.span.stop u.span.start :=
  scan_lossless scan_mixedText

end Vibe.Token
