import Vibe.Proofs.Syntax.Recovery.Statements
import Vibe.Proofs.Syntax.Soundness.Programs

/-! Which bodies are found open when reading goes past errors: those of which the closing brace was
dropped behind an error. -/

namespace Vibe

namespace Parser

variable {one : BodyParser Stmt} {close : Token} {inner after : List Token} {log : List Setback}

theorem lost_eq_zero (h : ∀ s ∈ log, Balanced (dropped s)) : lost log = 0 := by
  induction log with
  | nil => rfl
  | cons s log ih =>
    obtain ⟨hs, hlog⟩ := List.forall_mem_cons.1 h
    rw [lost, hs.level_eq, ih hlog, Int.add_zero]

/-- If what is dropped in a body is balanced, the body ends at its own closing brace. -/
theorem body_closes (ho : ∀ ts, Strides ts (one ts)) (hinner : Balanced inner)
    (hclose : close.kind = .symbol .rightBrace)
    (hlog : ∀ s ∈ (body one (inner ++ close :: after)).2.2, Balanced (dropped s)) :
    ∃ ss log, body one (inner ++ close :: after) = (.ok ss, after, log) := by
  obtain ⟨ss, main, rest, log, hts, hfares, hend⟩ := body_run ho (inner ++ close :: after)
  have hopening : ∀ {t : Token}, t.kind = .symbol .rightBrace → t.kind.opening = -1 := by
    intro t ht
    rw [ht]
    rfl
  rcases hend with ⟨rfl, e, -, hrun⟩ | ⟨t, after', ht, rfl, hrun⟩
  · -- The body would have gone past its own closing brace.
    rw [hrun] at hlog
    have habove := hfares.above fun s hs => (hlog s hs).above
    rw [List.append_nil] at hts
    rw [← hts] at habove
    exact (hinner.not_above (hopening hclose) habove).elim
  · rw [hrun] at hlog
    have hnone : unclosed log = 0 := by
      by_contra hsome
      cases hfares.atEnd (Nat.pos_of_ne_zero (by simpa [owed] using hsome))
    have hmain : Balanced main := by
      refine ⟨hfares.above fun s hs => (hlog s hs).above, ?_⟩
      have hlevel := hfares.level_eq
      simpa [lost_eq_zero hlog, hnone, owed] using hlevel
    obtain rfl := hinner.close_unique hmain (hopening hclose) (hopening ht) hts
    obtain ⟨-, rfl⟩ := List.cons.inj (List.append_cancel_left hts)
    exact ⟨ss, log, hrun⟩

end Parser

namespace Program

variable {tokens : List Token}

/-- The errors that reading a program went past, with what was left where each of them struck. -/
def setbacks (tokens : List Token) : List Setback :=
  (statementsOf (input tokens).1).2.2

theorem recover_errors (tokens : List Token) :
    (recover tokens).2 = (setbacks tokens).map fun s => s.error.orAt (input tokens).2 :=
  rfl

theorem countP_isUnclosed (tokens : List Token) :
    (recover tokens).2.countP Error.isUnclosed = Parser.unclosed (setbacks tokens) := by
  rw [recover_errors, List.countP_map]
  rfl

/-- What is opened and not closed among the tokens of a program is what was dropped of it and the
bodies found open. -/
theorem level_input (tokens : List Token) :
    level (input tokens).1 =
      Parser.lost (setbacks tokens) + Parser.unclosed (setbacks tokens) := by
  have hone : ∀ ts, Parser.Strides ts
      (Parser.declaration (2 * (input tokens).1.length + 2) Parser.maxNesting ts) :=
    fun ts => (Parser.strides_declaration_statement _ _ ts).1
  have hread : ∃ ss rest log, statementsOf (input tokens).1 = (ss, rest, [] ++ log) ∧
      (∀ t ∈ rest.head?, (fun _ => false) t.kind = true) ∧
      Parser.Keeps 0 (input tokens).1 ((.ok ss, rest, log) : Except Error (List Stmt) × _) :=
    Parser.statements_keep hone (Nat.le_refl _)
  obtain ⟨ss, rest, log, hrun, hend, taken, htaken, hfares⟩ := hread
  obtain rfl : rest = [] := by
    cases rest with
    | nil => rfl
    | cons t rest => simp at hend
  have hsetbacks : setbacks tokens = log := by
    rw [setbacks, hrun, List.nil_append]
  have hlevel := hfares.level_eq
  rw [List.append_nil] at htaken
  rw [htaken, hsetbacks, hlevel]
  simp [Parser.owed]

/-- Behind an error tokens are dropped up to the next semicolon or statement, whatever braces are
among them. Where every brace before the end has its partner, bodies are found open as often as the
tokens dropped behind errors hold more closing braces than opening ones. If what is dropped behind
each error is balanced, no body is found open, and every body that is read ends at its own closing
brace. -/
theorem recover_balanced (h : Balanced (input tokens).1) :
    (recover tokens).2 = (setbacks tokens).map (fun s => s.error.orAt (input tokens).2) ∧
      (∀ s ∈ setbacks tokens, Parser.dropped s ++ Parser.resume s.ahead = s.ahead ∧
        Parser.Skips (Parser.dropped s) (Parser.resume s.ahead)) ∧
      ((recover tokens).2.countP Error.isUnclosed : Int) = -Parser.lost (setbacks tokens) ∧
      ((∀ s ∈ setbacks tokens, Balanced (Parser.dropped s)) →
        ∀ e ∈ (recover tokens).2, e.isUnclosed = false) ∧
      ∀ n b inner close after, Balanced inner → close.kind = .symbol .rightBrace →
        (∀ s ∈ (Parser.body (Parser.declaration n b) (inner ++ close :: after)).2.2,
          Balanced (Parser.dropped s)) →
        ∃ ss log, Parser.body (Parser.declaration n b) (inner ++ close :: after) =
          (.ok ss, after, log) := by
  have hlevel := level_input tokens
  rw [h.level_eq] at hlevel
  have hcount := countP_isUnclosed tokens
  refine ⟨recover_errors tokens, fun s _ => Parser.dropped_skips s, by omega,
    fun hdropped e he => ?_, fun n b inner close after hinner hclose hlog => ?_⟩
  · have hlost := Parser.lost_eq_zero hdropped
    have hzero : (recover tokens).2.countP Error.isUnclosed = 0 := by omega
    simpa using List.countP_eq_zero.1 hzero e he
  · exact Parser.body_closes (fun ts => (Parser.strides_declaration_statement n b ts).1) hinner
      hclose hlog

/-- The tokens of `{ say ; } say x` and the end. The error drops the semicolon. -/
def blankTokens : List Token :=
  [⟨.symbol .leftBrace, spot 0, "\x7b"⟩, ⟨.keyword .say, spot 1, "say"⟩,
    ⟨.symbol .semicolon, spot 2, ";"⟩, ⟨.symbol .rightBrace, spot 3, "\x7d"⟩,
    ⟨.keyword .say, spot 4, "say"⟩, ⟨.ident "x", spot 5, "x"⟩, ⟨.finish, spot 6, ""⟩]

theorem recover_balanced_blankTokens : Balanced (input blankTokens).1 ∧
    (setbacks blankTokens).map Parser.dropped = [[⟨.symbol .semicolon, spot 2, ";"⟩]] ∧
    (∀ s ∈ setbacks blankTokens, Parser.Skips (Parser.dropped s) (Parser.resume s.ahead)) ∧
    (∀ s ∈ setbacks blankTokens, Balanced (Parser.dropped s)) ∧
    (∀ e ∈ (recover blankTokens).2, e.isUnclosed = false) ∧
    (recover blankTokens).1 = [.block [] (spot 0), .say (.ident "x" (spot 5)) (spot 4)] := by
  have hbalanced : Balanced (input blankTokens).1 := by decide
  have hdropped : ∀ s ∈ setbacks blankTokens, Balanced (Parser.dropped s) := by decide +kernel
  obtain ⟨-, hskips, -, hnone, -⟩ := recover_balanced hbalanced
  exact ⟨hbalanced, rfl, fun s hs => (hskips s hs).2, hdropped, hnone hdropped, rfl⟩

/-- The tokens of `{ say } say x` and the end. The error drops the closing brace. -/
def bareTokens : List Token :=
  [⟨.symbol .leftBrace, spot 0, "\x7b"⟩, ⟨.keyword .say, spot 1, "say"⟩,
    ⟨.symbol .rightBrace, spot 2, "\x7d"⟩, ⟨.keyword .say, spot 3, "say"⟩,
    ⟨.ident "x", spot 4, "x"⟩, ⟨.finish, spot 5, ""⟩]

/-- Every brace has its partner, and the block is found open: recovery dropped its closing brace
and read on into the statement behind it. -/
theorem recover_bareTokens : Balanced (input bareTokens).1 ∧
    recover bareTokens = ([], [⟨.parsing (.expectedExpression "\x7d"), some (spot 2), none⟩,
      ⟨.parsing (.expected "expected '\x7d' after block" "end of input"), some (spot 5), none⟩]) :=
  ⟨by decide, rfl⟩

end Program
end Vibe
