import Vibe.Proofs.Syntax.Completeness.Statements
import Vibe.Proofs.Syntax.Soundness.Programs

/-! A program of the one shape, written out with a semicolon behind each statement that may have
one, is read back. -/

namespace Vibe.Program

variable {p : Program} {tokens : List Token}

/-- No statement of the program nests deeper than it may. -/
def WithinNesting (p : Program) : Prop :=
  ∀ s ∈ p, s.depth ≤ Parser.maxNesting

theorem deepest_le (h : p.WithinNesting) : Stmt.deepest p ≤ Parser.maxNesting := by
  induction p with
  | nil => simp [Stmt.deepest]
  | cons s p ih =>
    have hs : s.depth ≤ Parser.maxNesting := h s (by simp)
    have hp : Stmt.deepest p ≤ Parser.maxNesting := ih fun s hs => h s (by simp [hs])
    rw [Stmt.deepest]
    omega

theorem statementsOf_complete {ahead : List Token} (hc : p.Canonical) (hn : p.WithinNesting)
    (h : ahead.map Token.kind = (p.marks Parser.semicolon).map Mark.kind) :
    ∃ q, statementsOf ahead = (q, [], []) ∧ unplaced q = p.unplaced := by
  have hone := (Parser.complete_declaration_statement (2 * ahead.length + 2) Parser.maxNesting).1
  obtain ⟨read, hread, hsame⟩ : ∃ read, Parser.statements
      (Parser.declaration (2 * ahead.length + 2) Parser.maxNesting) (fun _ => false) ahead [] []
        (ahead ++ []) = ([].reverse ++ read, [], []) ∧
      read.map Stmt.unplaced = p.map Stmt.unplaced :=
    Parser.statements_complete hone (by simp) (by simp) hc (deepest_le hn) (by omega)
      (Nat.le_refl _) h
  rw [List.append_nil] at hread
  exact ⟨read, hread, hsame⟩

/-- Every program whose tree has the one shape and nests within the limit is read back from its
written form, without an error and equal up to the places of the nodes. -/
theorem ofTokens_of_marks (hc : p.Canonical) (hn : p.WithinNesting)
    (h : (tokens.takeWhile (·.kind ≠ .finish)).map Token.kind =
      (p.marks Parser.semicolon).map Mark.kind) :
    ∃ q, recover tokens = (q, []) ∧ ofTokens tokens = .ok q ∧ unplaced q = p.unplaced := by
  obtain ⟨q, hread, hsame⟩ := statementsOf_complete hc hn h
  have hrecover : recover tokens = (q, []) := by
    rw [recover_eq, input_fst, hread]
    rfl
  refine ⟨q, hrecover, ?_, hsame⟩
  rw [ofTokens, hrecover]

theorem ofTokens_of_sample_marks : sample.Canonical ∧ sample.WithinNesting ∧
    (sampleTokens.takeWhile (·.kind ≠ .finish)).map Token.kind =
      (sample.marks Parser.semicolon).map Mark.kind ∧
    ∃ q, recover sampleTokens = (q, []) ∧ ofTokens sampleTokens = .ok q ∧
      unplaced q = sample.unplaced := by
  have hask : ∀ e ∈ [Expr.ask (.ident "c" (spot 14)) (spot 13)], e.Canonical := by
    intro e he
    obtain rfl := List.mem_singleton.1 he
    exact .ask _ (.ident _ _)
  have hgive : ∀ s ∈ [Stmt.give none (spot 7)], s.Canonical := by
    intro s hs
    obtain rfl := List.mem_singleton.1 hs
    exact .give _ (by simp)
  have htest : (Expr.binary (.ident "a" (spot 2)) .sub (.ident "b" (spot 4)) (spot 3)).Canonical :=
    .binary _ (.ident _ _) (.ident _ _) (by decide) (by decide) rfl
  have hcall : (Expr.call (.ident "f" (spot 11)) [.ask (.ident "c" (spot 14)) (spot 13)]
      (spot 12)).Canonical := .call _ (.ident _ _) rfl rfl (by decide) hask
  have hc : sample.Canonical := by
    intro s hs
    obtain rfl := List.mem_singleton.1 hs
    exact .ifElse _ htest (.block _ hgive) rfl rfl (.expr hcall) rfl
  have hn : sample.WithinNesting := by
    intro s hs
    obtain rfl := List.mem_singleton.1 hs
    decide
  have hkinds : (sampleTokens.takeWhile (·.kind ≠ .finish)).map Token.kind =
      (sample.marks Parser.semicolon).map Mark.kind := by
    simp [sampleTokens, sample, Program.marks, Stmt.marks, Stmt.marksEach, Expr.marks,
      Mark.listed, conditionMarks, bodyMarks, Mark.sign, Mark.word, BinaryOp.symbol]
  exact ⟨hc, hn, hkinds, ofTokens_of_marks hc hn hkinds⟩

end Vibe.Program
