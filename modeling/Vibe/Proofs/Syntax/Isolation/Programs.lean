import Vibe.Proofs.Syntax.Composition.Programs
import Vibe.Proofs.Syntax.Isolation.Statements

/-! Clauses, each with its semicolon, are read as each of them is by itself: what is wrong with one
neither hides nor adds anything of another. -/

namespace Vibe

/-- Tokens with the semicolon behind them. None of them divides statements, and none but the first
begins one. -/
structure Clause where
  front : List Token
  close : Token
  undivided : ∀ t ∈ front, t.kind.divides = false
  later : ∀ t ∈ front.tail, t.kind.startsStatement = false
  close_kind : close.kind = .symbol .semicolon

namespace Clause

def tokens (c : Clause) : List Token :=
  c.front ++ [c.close]

theorem kind_ne_finish (c : Clause) {t : Token} (ht : t ∈ c.tokens) : t.kind ≠ .finish := by
  rcases List.mem_append.1 ht with ht | ht
  · exact Parser.Undivided.kind_ne c.undivided ht rfl
  · rw [List.mem_singleton.1 ht, c.close_kind]
    decide

theorem noElse (c : Clause) (behind : List Token) : Parser.NoElse (c.tokens ++ behind) := by
  intro t ht
  rw [List.head?_append_of_ne_nil _ (by simp [tokens])] at ht
  exact Parser.noElse_of_suffix c.close_kind c.undivided (List.suffix_refl _) t ht

theorem noElse_flatMap (cs : List Clause) : Parser.NoElse (cs.flatMap tokens) := by
  cases cs with
  | nil => exact nofun
  | cons c cs => exact c.noElse _

end Clause

theorem Error.orAt_of_span (e : Error) (h : ∃ s, e.span = some s) (finish : Span) :
    e.orAt finish = e := by
  obtain ⟨s, hs⟩ := h
  cases e
  simp_all [Error.orAt]

namespace Program

/-- The errors that reading tokens goes past, without the place of the end. -/
def errorsOf (ahead : List Token) : List Error :=
  (statementsOf ahead).2.2.map Setback.error

/-- A clause is read as it is by itself, and then what comes behind it. It has one error at most,
and that stands at one of its tokens. -/
theorem statementsOf_clause_append (c : Clause) {behind : List Token}
    (hbehind : Parser.NoElse behind) :
    (statementsOf (c.tokens ++ behind)).1 = (statementsOf c.tokens).1 ++ (statementsOf behind).1 ∧
      errorsOf (c.tokens ++ behind) = errorsOf c.tokens ++ errorsOf behind ∧
      (errorsOf c.tokens).length ≤ 1 ∧ ∀ e ∈ errorsOf c.tokens, ∃ s, e.span = some s := by
  let one := Parser.declaration (2 * (c.tokens ++ behind).length + 2) Parser.maxNesting
  have hroom {ts : List Token} (hts : ts.length ≤ (c.tokens ++ behind).length) :
      Parser.readAll one ts = statementsOf ts :=
    statementsOf_of_room (by omega) (Nat.le_refl _)
  have hlength : (c.tokens ++ behind).length = c.tokens.length + behind.length :=
    List.length_append
  obtain ⟨ss, es, hes, hspan, hread⟩ := Parser.readAll_clause c.close_kind c.undivided
    c.later (Parser.solo_declaration_statement c.close_kind _ _).1
    (fun ts => (Parser.strides_declaration_statement _ _ ts).1)
    (fun ts => (Parser.progresses_declaration_statement _ _ ts).1) (List.suffix_refl c.tokens)
  obtain ⟨hstatements, herrors⟩ := hread [] nofun
  obtain ⟨hstatements', herrors'⟩ := hread behind hbehind
  rw [List.append_nil, hroom (by omega)] at hstatements herrors
  rw [hroom (Nat.le_refl _), hroom (by omega)] at hstatements' herrors'
  have hself : (statementsOf c.tokens).1 = ss ∧ errorsOf c.tokens = es :=
    ⟨hstatements.trans (List.append_nil ss), herrors.trans (List.append_nil es)⟩
  rw [hself.1, hself.2]
  exact ⟨hstatements', herrors', hes, hspan⟩

theorem statementsOf_clauses (cs : List Clause) :
    (statementsOf (cs.flatMap Clause.tokens)).1 = (cs.flatMap fun c => (statementsOf c.tokens).1) ∧
      errorsOf (cs.flatMap Clause.tokens) = cs.flatMap fun c => errorsOf c.tokens := by
  induction cs with
  | nil => exact ⟨rfl, rfl⟩
  | cons c cs ih =>
    obtain ⟨hstatements, herrors, -⟩ := statementsOf_clause_append c (Clause.noElse_flatMap cs)
    simp only [List.flatMap_cons, hstatements, herrors, ih.1, ih.2]
    exact ⟨trivial, trivial⟩

/-- Errors that have places keep them, wherever the end is. -/
theorem recover_of_spans (ahead : List Token) {ending : List Token}
    (hahead : ∀ t ∈ ahead, t.kind ≠ .finish) (hending : ∀ t ∈ ending.head?, t.kind = .finish)
    (hspans : ∀ e ∈ errorsOf ahead, ∃ s, e.span = some s) :
    recover (ahead ++ ending) = ((statementsOf ahead).1, errorsOf ahead) := by
  have hinput : (input (ahead ++ ending)).1 = ahead := by
    have hnone : ending.takeWhile (·.kind ≠ .finish) = [] := by
      cases ending with
      | nil => rfl
      | cons t ending => simp [hending t rfl]
    rw [input_fst, List.takeWhile_append_of_pos (by simpa using hahead), hnone, List.append_nil]
  have hkept : (errorsOf ahead).map (·.orAt (input (ahead ++ ending)).2) = errorsOf ahead :=
    (List.map_congr_left fun e he => e.orAt_of_span (hspans e he) _).trans (List.map_id _)
  rw [recover_eq, hinput, ← hkept, errorsOf, List.map_map]
  rfl

theorem recover_clause (c : Clause) :
    recover c.tokens = ((statementsOf c.tokens).1, errorsOf c.tokens) := by
  obtain ⟨-, -, -, hspans⟩ := statementsOf_clause_append c (Clause.noElse_flatMap [])
  have hread : recover (c.tokens ++ []) = ((statementsOf c.tokens).1, errorsOf c.tokens) :=
    recover_of_spans c.tokens (fun t ht => c.kind_ne_finish ht) nofun hspans
  rwa [List.append_nil] at hread

/-- Clauses behind one another are read as each of them is by itself: their statements and errors
come one behind the other, at most one error of each. -/
theorem recover_clauses (cs : List Clause) {ending : List Token}
    (hending : ∀ t ∈ ending.head?, t.kind = .finish) :
    recover (cs.flatMap Clause.tokens ++ ending) =
        (cs.flatMap fun c => (recover c.tokens).1, cs.flatMap fun c => (recover c.tokens).2) ∧
      ∀ c ∈ cs, (recover c.tokens).2.length ≤ 1 := by
  have hone (c : Clause) := statementsOf_clause_append c (Clause.noElse_flatMap [])
  obtain ⟨hstatements, herrors⟩ := statementsOf_clauses cs
  have hfinish : ∀ t ∈ cs.flatMap Clause.tokens, t.kind ≠ .finish := by
    intro t ht
    obtain ⟨c, -, ht⟩ := List.mem_flatMap.1 ht
    exact c.kind_ne_finish ht
  have hspans : ∀ e ∈ errorsOf (cs.flatMap Clause.tokens), ∃ s, e.span = some s := by
    intro e he
    rw [herrors] at he
    obtain ⟨c, -, he⟩ := List.mem_flatMap.1 he
    exact (hone c).2.2.2 e he
  simp only [recover_clause]
  refine ⟨?_, fun c _ => (hone c).2.2.1⟩
  rw [recover_of_spans _ hfinish hending hspans, hstatements, herrors]

/-- `;`, `a ) b;` and `if (x) y;`. -/
def sampleClauses : List Clause := [
  ⟨[], ⟨.symbol .semicolon, spot 0, ";"⟩, by decide, by decide, rfl⟩,
  ⟨[⟨.ident "a", spot 1, "a"⟩, ⟨.symbol .rightParen, spot 2, ")"⟩, ⟨.ident "b", spot 3, "b"⟩],
    ⟨.symbol .semicolon, spot 4, ";"⟩, by decide, by decide, rfl⟩,
  ⟨[⟨.keyword .ifWord, spot 5, "if"⟩, ⟨.symbol .leftParen, spot 6, "("⟩,
      ⟨.ident "x", spot 7, "x"⟩, ⟨.symbol .rightParen, spot 8, ")"⟩, ⟨.ident "y", spot 9, "y"⟩],
    ⟨.symbol .semicolon, spot 10, ";"⟩, by decide, by decide, rfl⟩]

/-- Two of the clauses have an error, and two have a statement. -/
theorem recover_clauses_sample :
    recover (sampleClauses.flatMap Clause.tokens ++ [⟨.finish, spot 11, ""⟩]) =
        (sampleClauses.flatMap fun c => (recover c.tokens).1,
          sampleClauses.flatMap fun c => (recover c.tokens).2) ∧
      (sampleClauses.map fun c => (recover c.tokens).1) = [[], [.expr (.ident "a" (spot 1))],
        [.ifThen (.ident "x" (spot 7)) (.expr (.ident "y" (spot 9))) (spot 5)]] ∧
      (sampleClauses.map fun c => (recover c.tokens).2) =
        [[⟨.parsing (.expectedExpression ";"), some (spot 0), none⟩],
          [⟨.parsing (.expectedExpression ")"), some (spot 2), none⟩], []] :=
  ⟨(recover_clauses sampleClauses (by decide)).1, rfl, rfl⟩

end Program

end Vibe
