import Vibe.Proofs.Syntax.Composition.Statements
import Vibe.Proofs.Syntax.Recovery.Programs

/-! Programs behind one another: the first is read as it is by itself, and what comes behind it is
read as it is by itself, with its errors. -/

namespace Vibe

namespace Program

variable {tokens more ahead behind : List Token} {p : Program}

/-- All tokens of a program are read. -/
theorem exists_statementsOf (ahead : List Token) :
    ∃ ss log, statementsOf ahead = (ss, [], log) := by
  have hone : ∀ ts, Parser.Strides ts
      (Parser.declaration (2 * ahead.length + 2) Parser.maxNesting ts) :=
    fun ts => (Parser.strides_declaration_statement _ _ ts).1
  have hread : ∃ ss rest log, statementsOf ahead = (ss, rest, [] ++ log) ∧
      (∀ t ∈ rest.head?, (fun _ => false) t.kind = true) ∧
      Parser.Keeps 0 ahead ((.ok ss, rest, log) : Except Error (List Stmt) × _) :=
    Parser.statements_keep hone (Nat.le_refl _)
  obtain ⟨ss, rest, log, hread, hend, -⟩ := hread
  obtain rfl : rest = [] := by
    cases rest with
    | nil => rfl
    | cons t rest => cases hend t rfl
  exact ⟨ss, log, hread⟩

/-- More room and a longer bound than the tokens need make no difference. -/
theorem statementsOf_of_room {room : Nat} {bound : List Token}
    (hroom : 2 * ahead.length + 2 ≤ room) (hbound : ahead.length ≤ bound.length) :
    Parser.statements (Parser.declaration room Parser.maxNesting) (fun _ => false) bound [] []
      ahead = statementsOf ahead := by
  have hone (ts : List Token) :
      Parser.Strides ts (Parser.declaration (2 * ahead.length + 2) Parser.maxNesting ts) :=
    (Parser.strides_declaration_statement _ _ ts).1
  obtain ⟨ss, log, hread⟩ := exists_statementsOf ahead
  have hroomy : Parser.Carries [] ahead.length
      (Parser.declaration (2 * ahead.length + 2) Parser.maxNesting)
      (Parser.declaration room Parser.maxNesting) :=
    (Parser.carries_declaration_statement _ _ _ _).1 (Nat.le_refl _) hroom
  rw [← List.append_nil ahead] at hbound
  obtain ⟨-, bound', -, hsame⟩ := Parser.statements_carry hroomy hone (Nat.le_refl _)
    (Nat.le_refl _) hbound (.of_nil ahead) (.inl rfl) hread
  have hend : Parser.statements (Parser.declaration room Parser.maxNesting) (fun _ => false) bound'
      ss.reverse log [] = (ss.reverse.reverse, [], log) :=
    Parser.statements_of_closes (by simp) bound' ss.reverse log
  rw [List.append_nil, List.append_nil, hend, List.reverse_reverse] at hsame
  rw [hsame, hread]

/-- Behind tokens that are read without an error reading goes on as if it began there. -/
theorem statementsOf_append (h : statementsOf ahead = (p, [], []))
    (hapart : Parser.Apart behind ahead) : statementsOf (ahead ++ behind) =
      (p ++ (statementsOf behind).1, [], (statementsOf behind).2.2) := by
  have hone (ts : List Token) :
      Parser.Strides ts (Parser.declaration (2 * ahead.length + 2) Parser.maxNesting ts) :=
    (Parser.strides_declaration_statement _ _ ts).1
  have hlen : (ahead ++ behind).length = ahead.length + behind.length := List.length_append
  have hfirst := Parser.carries_declaration behind Parser.maxNesting
    (show ahead.length ≤ (ahead ++ behind).length by omega)
  obtain ⟨-, bound, hbound, hahead⟩ := Parser.statements_carry hfirst hone (Nat.le_refl _)
    (Nat.le_refl _) (Nat.le_refl _) hapart (.inr rfl) h
  rw [List.nil_append] at hbound hahead
  obtain ⟨ss, log, hbehind⟩ := exists_statementsOf behind
  rw [statementsOf, hahead, Parser.statements_done, statementsOf_of_room (by omega) hbound, hbehind,
    List.reverse_reverse, List.nil_append]

/-- Tokens without one that marks the end are all read, and the place of the end is that of what
comes behind them. -/
theorem input_append (hfinish : ∀ t ∈ tokens, t.kind ≠ .finish) (hmore : more ≠ []) :
    input (tokens ++ more) = (tokens ++ (input more).1, (input more).2) := by
  have hall : ∀ t ∈ tokens, (decide (t.kind ≠ .finish)) = true := by simpa using hfinish
  have hlast : (tokens ++ more).getLast? = more.getLast? :=
    List.getLast?_append_of_ne_nil tokens hmore
  simp only [input]
  rw [List.takeWhile_append_of_pos hall, List.dropWhile_append_of_pos hall, hlast]

/-- If tokens are read without an error and end with no `give`, then with tokens behind them that
begin with a statement they are read as before, and the others as they are by themselves: their
statements come behind, and their errors are all there are. -/
theorem recover_append (hfinish : ∀ t ∈ tokens, t.kind ≠ .finish) (h : ofTokens tokens = .ok p)
    (hgive : ∀ t ∈ tokens.getLast?, t.kind ≠ .keyword .give)
    (hmore : ∀ t ∈ more.head?, t.kind.startsStatement = true) :
    recover (tokens ++ more) = (p ++ (recover more).1, (recover more).2) := by
  have hread := recover_of_ofTokens h
  cases more with
  | nil =>
    rw [List.append_nil, hread]
    simp [recover_eq, statementsOf, Parser.statements, input]
  | cons t more =>
    have hinput : (input tokens).1 = tokens := by
      rw [input_fst, List.takeWhile_eq_self_iff]
      simpa using hfinish
    obtain ⟨ss, log, hahead⟩ := exists_statementsOf tokens
    rw [recover_eq, hinput, hahead] at hread
    obtain ⟨rfl, hlog⟩ := Prod.mk.inj hread
    obtain rfl : log = [] := List.map_eq_nil_iff.1 hlog
    have hfresh : Fresh (input (t :: more)).1 := by
      intro u hu
      have hhead : u ∈ (t :: more).head? := by
        rw [input_fst, List.head?_takeWhile] at hu
        exact (Option.filter_eq_some_iff.1 hu).1
      exact hmore u hhead
    have happend := statementsOf_append hahead ⟨hfresh, fun _ => hgive⟩
    rw [recover_eq, input_append hfinish (List.cons_ne_nil t more), happend]
    rfl

/-- The tokens of `if (a - b) { give; } else f(ask c);`, without the end. -/
def firstTokens : List Token :=
  sampleTokens.takeWhile (·.kind ≠ .finish)

/-- The tokens of `say } say x` and the end behind them: one statement survives. -/
def secondTokens : List Token :=
  [⟨.keyword .say, spot 17, "say"⟩, ⟨.symbol .rightBrace, spot 18, "\x7d"⟩,
    ⟨.keyword .say, spot 19, "say"⟩, ⟨.ident "x", spot 20, "x"⟩, ⟨.finish, spot 21, ""⟩]

theorem recover_append_secondTokens : (∀ t ∈ firstTokens, t.kind ≠ .finish) ∧
    ofTokens firstTokens = .ok sample ∧
    (∀ t ∈ firstTokens.getLast?, t.kind ≠ .keyword .give) ∧
    (∀ t ∈ secondTokens.head?, t.kind.startsStatement = true) ∧
    recover secondTokens = ([.say (.ident "x" (spot 20)) (spot 19)],
      [⟨.parsing (.expectedExpression "\x7d"), some (spot 18), none⟩]) ∧
    recover (firstTokens ++ secondTokens) = (sample ++ [.say (.ident "x" (spot 20)) (spot 19)],
      [⟨.parsing (.expectedExpression "\x7d"), some (spot 18), none⟩]) := by
  have hfinish : ∀ t ∈ firstTokens, t.kind ≠ .finish := by
    intro t ht
    simpa using List.mem_takeWhile_imp ht
  have hread : ofTokens firstTokens = .ok sample := rfl
  have hgive : ∀ t ∈ firstTokens.getLast?, t.kind ≠ .keyword .give := by decide
  have hmore : ∀ t ∈ secondTokens.head?, t.kind.startsStatement = true := by decide
  have hsecond : recover secondTokens = ([.say (.ident "x" (spot 20)) (spot 19)],
      [⟨.parsing (.expectedExpression "\x7d"), some (spot 18), none⟩]) := rfl
  have happend := recover_append hfinish hread hgive hmore
  rw [hsecond] at happend
  exact ⟨hfinish, hread, hgive, hmore, hsecond, happend⟩

end Program
end Vibe
