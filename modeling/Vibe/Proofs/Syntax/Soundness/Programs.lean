import Vibe.Proofs.Syntax.Soundness.Statements
import Vibe.Proofs.Token.Cutting

/-! A program that is read without an error is, written out, the tokens that it was read from. -/

namespace Vibe.Program

variable {p : Program} {tokens : List Token}

/-- The tokens that are read: those before the first one that marks the end. -/
theorem input_fst (tokens : List Token) :
    (input tokens).1 = tokens.takeWhile (·.kind ≠ .finish) :=
  rfl

/-- The statements that are read, the tokens left behind them and the errors, all without the
place of the end. -/
def statementsOf (ahead : List Token) : List Stmt × List Token × List Setback :=
  Parser.statements (Parser.declaration (2 * ahead.length + 2) Parser.maxNesting) (fun _ => false)
    ahead [] [] ahead

theorem recover_eq (tokens : List Token) :
    recover tokens = ((statementsOf (input tokens).1).1,
      (statementsOf (input tokens).1).2.2.map (·.error.orAt (input tokens).2)) :=
  rfl

/-- Reading goes up to the first token that marks the end; semicolons are not written. -/
theorem recover_reads (h : recover tokens = (p, [])) :
    List.Forall₂ Mark.Fits (p.marks [])
      ((input tokens).1.filter (·.kind ≠ .symbol .semicolon)) ∧ p.Canonical := by
  rw [recover_eq] at h
  rcases hs : statementsOf (input tokens).1 with ⟨ss, rest, errors⟩
  rw [hs] at h
  obtain ⟨rfl, herrors⟩ := Prod.mk.inj h
  obtain rfl : errors = [] := List.map_eq_nil_iff.1 herrors
  obtain ⟨hend, read, rfl, hc, hg⟩ := Parser.statements_reads
    (Parser.sound_declaration_statement _ _).1 (Nat.le_refl _) hs
  obtain rfl : rest = [] := by
    cases rest with
    | nil => rfl
    | cons t rest => simp at hend
  obtain ⟨used, hused, hfits⟩ := hc
  rw [List.append_nil] at hused
  rw [hused]
  exact ⟨hfits, hg⟩

theorem recover_of_ofTokens (h : ofTokens tokens = .ok p) : recover tokens = (p, []) := by
  unfold ofTokens at h
  split at h
  · next ss hr =>
    cases h
    exact hr
  · cases h

/-- If nothing but the end follows the tokens that are read, they are all the others. -/
theorem input_filter (h : ∀ t ∈ tokens.dropWhile (·.kind ≠ .finish), t.kind = .finish) :
    (input tokens).1.filter (·.kind ≠ .symbol .semicolon) =
      tokens.filter fun t => t.kind ≠ .symbol .semicolon ∧ t.kind ≠ .finish := by
  have hahead : ∀ t ∈ tokens.takeWhile (·.kind ≠ .finish), t.kind ≠ .finish := by
    intro t ht
    simpa using List.mem_takeWhile_imp ht
  rw [input_fst]
  conv_rhs => rw [← List.takeWhile_append_dropWhile (p := (·.kind ≠ .finish)) (l := tokens)]
  have hlast : (tokens.dropWhile (·.kind ≠ .finish)).filter
      (fun t => t.kind ≠ .symbol .semicolon ∧ t.kind ≠ .finish) = [] := by
    rw [List.filter_eq_nil_iff]
    intro t ht
    simp [h t ht]
  rw [List.filter_append, hlast, List.append_nil]
  refine List.filter_congr fun t ht => ?_
  simp [hahead t ht]

/-- A program that tokens form has those before the end as its written form, semicolons aside:
nothing is left out, added or moved, and every node has the place of its token. They are all the
tokens if nothing but the end follows. The operators, calls, branches and bodies of the program have
the one shape that can be written without loss. -/
theorem marks_fit_of_ofTokens (h : ofTokens tokens = .ok p) :
    List.Forall₂ Mark.Fits (p.marks [])
      ((tokens.takeWhile (·.kind ≠ .finish)).filter (·.kind ≠ .symbol .semicolon)) ∧
      ((∀ t ∈ tokens.dropWhile (·.kind ≠ .finish), t.kind = .finish) →
        List.Forall₂ Mark.Fits (p.marks [])
          (tokens.filter fun t => t.kind ≠ .symbol .semicolon ∧ t.kind ≠ .finish)) ∧
      p.Canonical := by
  obtain ⟨hfits, hshape⟩ := recover_reads (recover_of_ofTokens h)
  refine ⟨hfits, fun hlast => ?_, hshape⟩
  rw [← input_filter hlast]
  exact hfits

/-- The place of the token with this number, with a place of its own for each token. -/
def spot (i : Nat) : Span := ⟨i, i + 1, 1, i + 1⟩

/-- The tokens of `if (a - b) { give; } else f(ask c);` and the end. -/
def sampleTokens : List Token :=
  [⟨.keyword .ifWord, spot 0, "if"⟩, ⟨.symbol .leftParen, spot 1, "("⟩, ⟨.ident "a", spot 2, "a"⟩,
    ⟨.symbol .minus, spot 3, "-"⟩, ⟨.ident "b", spot 4, "b"⟩, ⟨.symbol .rightParen, spot 5, ")"⟩,
    ⟨.symbol .leftBrace, spot 6, "\x7b"⟩, ⟨.keyword .give, spot 7, "give"⟩,
    ⟨.symbol .semicolon, spot 8, ";"⟩, ⟨.symbol .rightBrace, spot 9, "\x7d"⟩,
    ⟨.keyword .elseWord, spot 10, "else"⟩, ⟨.ident "f", spot 11, "f"⟩,
    ⟨.symbol .leftParen, spot 12, "("⟩, ⟨.keyword .ask, spot 13, "ask"⟩, ⟨.ident "c", spot 14, "c"⟩,
    ⟨.symbol .rightParen, spot 15, ")"⟩, ⟨.symbol .semicolon, spot 16, ";"⟩, ⟨.finish, spot 17, ""⟩]

/-- The tree of the sample tokens. -/
def sample : Program :=
  [.ifElse (.binary (.ident "a" (spot 2)) .sub (.ident "b" (spot 4)) (spot 3))
    (.block [.give none (spot 7)] (spot 6))
    (.expr (.call (.ident "f" (spot 11)) [.ask (.ident "c" (spot 14)) (spot 13)] (spot 12)))
    (spot 0)]

theorem marks_fit_of_sampleTokens : ofTokens sampleTokens = .ok sample ∧
    (∀ t ∈ sampleTokens.dropWhile (·.kind ≠ .finish), t.kind = .finish) ∧
    List.Forall₂ Mark.Fits (sample.marks [])
      (sampleTokens.filter fun t => t.kind ≠ .symbol .semicolon ∧ t.kind ≠ .finish) ∧
    sample.Canonical := by
  have h : ofTokens sampleTokens = .ok sample := rfl
  have hlast : ∀ t ∈ sampleTokens.dropWhile (·.kind ≠ .finish), t.kind = .finish := by
    simp [sampleTokens]
  obtain ⟨-, hfits, hshape⟩ := marks_fit_of_ofTokens h
  exact ⟨h, hlast, hfits hlast, hshape⟩

/-- The end, and the tokens of `say x` behind it. -/
def lateTokens : List Token :=
  [⟨.finish, spot 0, ""⟩, ⟨.keyword .say, spot 1, "say"⟩, ⟨.ident "x", spot 2, "x"⟩]

/-- Tokens behind the end are left out of the program. -/
theorem marks_unfit_of_lateTokens : ofTokens lateTokens = .ok [] ∧
    ¬ List.Forall₂ Mark.Fits (Program.marks [] [])
      (lateTokens.filter fun t => t.kind ≠ .symbol .semicolon ∧ t.kind ≠ .finish) := by
  refine ⟨rfl, fun hfits => ?_⟩
  cases hfits.length_eq

/-- A program that a text forms is the tokens of the text written out, the semicolons and the end
aside. -/
theorem marks_fit_of_parseAll {source : String} (h : parseAll source = .ok p) :
    ∃ tokens, Token.scan source = .ok tokens ∧
      List.Forall₂ Mark.Fits (p.marks [])
        (tokens.filter fun t => t.kind ≠ .symbol .semicolon ∧ t.kind ≠ .finish) ∧
      p.Canonical := by
  unfold parseAll at h
  split at h
  · next tokens hscan =>
    obtain ⟨hfits, hshape⟩ := recover_reads (recover_of_ofTokens h)
    rw [input_filter (Token.finish_of_scan hscan)] at hfits
    exact ⟨tokens, hscan, hfits, hshape⟩
  · cases h

end Vibe.Program
