import Vibe.Proofs.Syntax.Composition.Programs
import Vibe.Proofs.Syntax.Progress.Statements

/-! Programs are read to their end whatever their tokens are, and the errors come in the order of
the tokens. -/

namespace Vibe

namespace Parser

/-- A statement that is read takes a token, and one that fails drops one. -/
theorem onward_declaration_lt {ts : List Token} (hts : ts ≠ []) (n b : Nat) :
    (onward (declaration n b ts)).length < ts.length := by
  have hpos := List.length_pos_iff.2 hts
  obtain ⟨hkeeps, hmoves⟩ := (strides_declaration_statement n b ts).1
  have hle := hkeeps.length_le
  rcases hrun : declaration n b ts with ⟨e | s, rest, log⟩ <;> rw [hrun] at hle hmoves
  · have hshort := resume_length rest
    simp only [onward] at hle ⊢
    omega
  · exact hmoves s rfl

end Parser

namespace Program

variable {tokens : List Token}

/-- The tokens with one that marks the end behind them, at the place of the last, unless the last
does that itself. -/
def ended (tokens : List Token) : List Token :=
  if tokens.getLast?.any (·.kind = .finish) then tokens
  else tokens ++ [⟨.finish, (tokens.getLast?.map Token.span).getD ⟨0, 0, 1, 1⟩, ""⟩]

/-- What is read stands before the first token that marks the end. -/
theorem ended_eq (tokens : List Token) : ∃ last behind,
    ended tokens = (input tokens).1 ++ last :: behind ∧ last.kind = .finish ∧
      last.span = (input tokens).2 := by
  have hsplit := List.takeWhile_append_dropWhile (p := (·.kind ≠ .finish)) (l := tokens)
  have hend : ∃ extra, ended tokens = tokens ++ extra := by
    unfold ended
    split
    · exact ⟨[], by rw [List.append_nil]⟩
    · exact ⟨_, rfl⟩
  cases hdrop : tokens.dropWhile (·.kind ≠ .finish) with
  | cons t behind =>
    have ht : t.kind = .finish := by
      have hhead := List.head?_dropWhile_not (·.kind ≠ .finish) tokens
      rw [hdrop] at hhead
      simpa using hhead
    obtain ⟨extra, hextra⟩ := hend
    refine ⟨t, behind ++ extra, ?_, ht, by simp only [input, hdrop]⟩
    rw [hdrop] at hsplit
    rw [hextra, input_fst, ← List.cons_append, ← List.append_assoc, hsplit]
  | nil =>
    have hall := List.dropWhile_eq_nil_iff.1 hdrop
    have hnone : tokens.getLast?.any (·.kind = .finish) = false := by
      cases hlast : tokens.getLast? with
      | none => rfl
      | some t => simpa using hall t (List.mem_of_getLast? hlast)
    rw [hdrop, List.append_nil] at hsplit
    refine ⟨⟨.finish, (tokens.getLast?.map Token.span).getD ⟨0, 0, 1, 1⟩, ""⟩, [], ?_, rfl,
      by simp only [input, hdrop]⟩
    rw [ended, hnone, input_fst, hsplit]
    rfl

/-- Reading goes past the errors up to the end, and there are no more of them than tokens. -/
theorem goesPast_setbacks (tokens : List Token) :
    Parser.GoesPast (input tokens).1 (setbacks tokens) [] ∧
      (setbacks tokens).length ≤ (input tokens).1.length := by
  have hone (ts : List Token) : Parser.Progresses ts
      (Parser.declaration (2 * (input tokens).1.length + 2) Parser.maxNesting ts) :=
    (Parser.progresses_declaration_statement _ _ ts).1
  obtain ⟨ss, rest, log, hrun, hgoes, hcount⟩ := Parser.statements_track (fun _ => false) hone
    (input tokens).1 [] [] (input tokens).1
  obtain ⟨ss', log', hread⟩ := exists_statementsOf (input tokens).1
  have hsame : (ss', [], log') = (ss, rest, [] ++ log) := hread.symm.trans hrun
  simp only [Prod.mk.injEq, List.nil_append] at hsame
  obtain ⟨-, rfl, rfl⟩ := hsame
  rw [setbacks, hread]
  exact ⟨hgoes, hcount⟩

/-- What comes behind the rest is at the end, as often as it may be. -/
theorem pairwise_append_replicate {R : Span → Span → Prop} {places : List Span} {last : Span}
    (h : places.Pairwise R) (hlast : ∀ s ∈ places, R s last) (hsame : R last last) (k : Nat) :
    (places ++ List.replicate k last).Pairwise R := by
  refine List.pairwise_append.2 ⟨h, List.pairwise_replicate.2 (.inr hsame), fun s hs s' hs' => ?_⟩
  obtain rfl := List.eq_of_mem_replicate hs'
  exact hlast s hs

/-- The errors stand at some of the tokens, in their order and each at another one, and those behind
them at the end. -/
theorem exists_struck (tokens : List Token) : ∃ (struck : List Token) (k : Nat),
    struck.Sublist (input tokens).1 ∧ (recover tokens).2.map Error.span =
      (struck.map Token.span ++ List.replicate k (input tokens).2).map some := by
  obtain ⟨struck, k, hstruck, hlog⟩ := (goesPast_setbacks tokens).1.exists_struck
  have hplaced : (recover tokens).2.map Error.span =
      ((setbacks tokens).map (·.error.span)).map fun s => some (s.getD (input tokens).2) := by
    simp [recover_errors, Error.orAt]
  refine ⟨struck, k, hstruck, ?_⟩
  rw [hplaced, hlog]
  simp

/-- Every list of tokens is read to its end: reading goes on at tokens that are left until none is,
and more room or a longer bound make no difference. The errors stand at some of the tokens, in their
order and each at another one, and those behind them at the end. So there are no more errors than
tokens, and where the places of the tokens ascend those of the errors do, apart from errors at the
end. A mark of the end that was missing has the place of the last token. -/
theorem recover_progress {front : List Token} {finish : Span} (h : input tokens = (front, finish)) :
    (∃ last behind, ended tokens = front ++ last :: behind ∧ last.kind = .finish ∧
      last.span = finish) ∧
    (∀ t ∈ front, t.kind ≠ .finish) ∧
    (∀ room bound, 2 * front.length + 2 ≤ room → front.length ≤ bound.length →
      Parser.statements (Parser.declaration room Parser.maxNesting) (fun _ => false) bound [] []
        front = ((recover tokens).1, [], setbacks tokens)) ∧
    (∀ room budget ts, ts ≠ [] →
      (Parser.onward (Parser.declaration room budget ts)).length < ts.length) ∧
    (∀ s ∈ setbacks tokens, s.ahead <:+ front) ∧
    (recover tokens).2.length ≤ front.length ∧
    ∃ places, (recover tokens).2.map Error.span = places.map some ∧
      (∃ (struck : List Token) (k : Nat), struck.Sublist front ∧
        places = struck.map Token.span ++ List.replicate k finish) ∧
      ∀ before : Span → Span → Prop,
        ((front.map Token.span).Pairwise before →
          places.Pairwise fun s s' => before s s' ∨ s' = finish) ∧
        ((front.map Token.span ++ [finish]).Pairwise before →
          places.Pairwise fun s s' => before s s' ∨ (s = finish ∧ s' = finish)) := by
  obtain ⟨rfl, rfl⟩ : (input tokens).1 = front ∧ (input tokens).2 = finish := by simp [h]
  obtain ⟨hgoes, hcount⟩ := goesPast_setbacks tokens
  obtain ⟨struck, k, hstruck, herrors⟩ := exists_struck tokens
  have hlength : (recover tokens).2.length = (setbacks tokens).length := by
    rw [recover_errors, List.length_map]
  have hfront : ∀ t ∈ (input tokens).1, t.kind ≠ .finish := by
    intro t ht
    rw [input_fst] at ht
    simpa using List.mem_takeWhile_imp ht
  have hread (room : Nat) (bound : List Token) (hroom : 2 * (input tokens).1.length + 2 ≤ room)
      (hbound : (input tokens).1.length ≤ bound.length) :
      Parser.statements (Parser.declaration room Parser.maxNesting) (fun _ => false) bound [] []
        (input tokens).1 = ((recover tokens).1, [], setbacks tokens) := by
    obtain ⟨ss, log, hread⟩ := exists_statementsOf (input tokens).1
    rw [statementsOf_of_room hroom hbound, recover_eq, setbacks, hread]
  refine ⟨ended_eq tokens, hfront, hread,
    fun room budget ts hts => Parser.onward_declaration_lt hts room budget, hgoes.ahead_suffix,
    hlength ▸ hcount, _, herrors, ⟨struck, k, hstruck, rfl⟩, fun before => ⟨fun hbefore => ?_,
      fun hbefore => ?_⟩⟩
  · have hplaces := hbefore.sublist (hstruck.map Token.span)
    exact pairwise_append_replicate (hplaces.imp .inl) (fun _ _ => .inr rfl) (.inr rfl) k
  · obtain ⟨hbefore, -, hend⟩ := List.pairwise_append.1 hbefore
    have hplaces := hbefore.sublist (hstruck.map Token.span)
    refine pairwise_append_replicate (hplaces.imp .inl) (fun s hs => .inl ?_) (.inr ⟨rfl, rfl⟩) k
    exact hend s ((hstruck.map Token.span).subset hs) _ (List.mem_singleton_self _)

/-- The tokens of `{ { )` and the end. -/
def openTokens : List Token :=
  [⟨.symbol .leftBrace, spot 0, "\x7b"⟩, ⟨.symbol .leftBrace, spot 1, "\x7b"⟩,
    ⟨.symbol .rightParen, spot 2, ")"⟩, ⟨.finish, spot 3, ""⟩]

/-- There are as many errors as tokens, and both blocks are open at the end. -/
theorem recover_progress_openTokens : input openTokens = (openTokens.take 3, spot 3) ∧
    (recover openTokens).2.map Error.span = [some (spot 2), some (spot 3), some (spot 3)] ∧
    (recover openTokens).2.length ≤ 3 ∧
    Parser.statements (Parser.declaration 20 Parser.maxNesting) (fun _ => false) openTokens [] []
      (openTokens.take 3) = ((recover openTokens).1, [], setbacks openTokens) ∧
    [spot 2, spot 3, spot 3].Pairwise fun s s' =>
      s.start < s'.start ∨ (s = spot 3 ∧ s' = spot 3) := by
  have hinput : input openTokens = (openTokens.take 3, spot 3) := rfl
  have hspans : (recover openTokens).2.map Error.span =
      [some (spot 2), some (spot 3), some (spot 3)] := rfl
  obtain ⟨-, -, hread, -, -, hcount, places, hplaces, -, horder⟩ := recover_progress hinput
  have hsame : places = [spot 2, spot 3, spot 3] :=
    List.map_injective_iff.2 (fun _ _ => Option.some.inj) (hplaces.symm.trans hspans)
  have hascend := (horder fun s s' => s.start < s'.start).2 (by decide)
  exact ⟨hinput, hspans, hcount, hread 20 openTokens (by decide) (by decide), hsame ▸ hascend⟩

end Program
end Vibe
