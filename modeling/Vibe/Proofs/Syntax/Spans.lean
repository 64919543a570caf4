import Vibe.Proofs.Syntax.Soundness.Programs
import Vibe.Proofs.Token.Lossless

/-! The places in a tree: those of its nodes, which are those of tokens. -/

namespace Vibe

mutual

/-- The places of an expression and of all expressions in it. -/
def Expr.spans : Expr → List Span
  | literal _ s | ident _ s => [s]
  | binary left _ right s | logical left _ right s | index left right s =>
    s :: (left.spans ++ right.spans)
  | unary _ inner s | group inner s | assign _ inner s | ask inner s => s :: inner.spans
  | call callee args s => s :: (callee.spans ++ Expr.spansEach args)
  | array elements s => s :: Expr.spansEach elements

def Expr.spansEach : List Expr → List Span
  | [] => []
  | e :: es => e.spans ++ Expr.spansEach es

end

def Sweep.spans : Sweep → List Span
  | range first last => first.spans ++ last.spans
  | items collection => collection.spans

mutual

/-- The places of a statement and of all statements and expressions in it. -/
def Stmt.spans : Stmt → List Span
  | expr e => e.spans
  | say value s | bind _ _ value s | give (some value) s => s :: value.spans
  | block body s | skill _ _ body s => s :: Stmt.spansEach body
  | ifThen test yes s => s :: (test.spans ++ yes.spans)
  | ifElse test yes no s => s :: (test.spans ++ yes.spans ++ no.spans)
  | keep test body s => s :: (test.spans ++ body.spans)
  | each _ sweep body s => s :: (sweep.spans ++ body.spans)
  | give none s | stop s | skip s => [s]
  | attempt body _ handler s => s :: (Stmt.spansEach body ++ Stmt.spansEach handler)

def Stmt.spansEach : List Stmt → List Span
  | [] => []
  | s :: ss => s.spans ++ Stmt.spansEach ss

end

def Program.spans (p : Program) : List Span :=
  Stmt.spansEach p

/-! ### Places and marks -/

namespace Mark

variable {m : Mark} {ms ns : List Mark} {s : Span}

/-- Whether a place is that of one of the marks. -/
def Places (ms : List Mark) (s : Span) : Prop :=
  ∃ m ∈ ms, m.span = some s

@[simp] theorem not_places_nil : ¬ Places [] s := by
  simp [Places]

@[simp] theorem places_cons : Places (m :: ms) s ↔ m.span = some s ∨ Places ms s := by
  simp [Places]

@[simp] theorem places_append : Places (ms ++ ns) s ↔ Places ms s ∨ Places ns s := by
  simp [Places, or_and_right, exists_or]

@[simp] theorem span_sign (x : Symbol) : (sign x).span = none :=
  rfl

@[simp] theorem span_word (x : Keyword) : (word x).span = none :=
  rfl

@[simp] theorem span_name (x : String) : (name x).span = none :=
  rfl

/-- The commas have no places. -/
@[simp] theorem places_listed (parts : List (List Mark)) :
    Places (listed parts) s ↔ Places parts.flatten s := by
  induction parts with
  | nil => rfl
  | cons part parts ih =>
    cases parts with
    | nil => simp [listed]
    | cons next parts =>
      have hlisted : listed (part :: next :: parts) =
          part ++ sign .comma :: listed (next :: parts) := by
        simp [listed, List.intercalate_cons_cons]
      simp [hlisted, ih]

/-- The place of a mark is that of the token that fits it. -/
theorem Places.exists_token {ts : List Token} (h : Places ms s)
    (hfits : List.Forall₂ Fits ms ts) : ∃ t ∈ ts, t.span = s := by
  induction hfits with
  | nil => exact (not_places_nil h).elim
  | cons hfit _ ih =>
    rcases places_cons.1 h with hspan | h
    · exact ⟨_, List.mem_cons_self, hfit.2 s hspan⟩
    · obtain ⟨t, ht, hspan⟩ := ih h
      exact ⟨t, List.mem_cons_of_mem _ ht, hspan⟩

/-- Parameters are no nodes. -/
@[simp] theorem not_places_params (params : List String) :
    ¬ Places (params.map fun p => [name p]).flatten s := by
  induction params with
  | nil => simp
  | cons p params ih => simp [ih]

@[simp] theorem not_places_errorName (errorName : Option String) :
    ¬ Places (errorNameMarks errorName) s := by
  cases errorName <;> simp [errorNameMarks]

end Mark

variable {s : Span}

mutual

/-- The places of a tree are those of its marks. -/
theorem Expr.places_marks : ∀ e : Expr, Mark.Places e.marks s ↔ s ∈ e.spans
  | .literal .. | .ident .. => by simp [Expr.marks, Expr.spans, eq_comm]
  | .binary left _ right _ | .logical left _ right _ | .index left right _ => by
    simp [Expr.marks, Expr.spans, left.places_marks, right.places_marks, eq_comm, or_left_comm]
  | .unary _ inner _ | .group inner _ | .assign _ inner _ | .ask inner _ => by
    simp [Expr.marks, Expr.spans, inner.places_marks, eq_comm]
  | .call callee args _ => by
    simp [Expr.marks, Expr.spans, callee.places_marks, Expr.places_marksEach args, eq_comm,
      or_left_comm]
  | .array elements _ => by
    simp [Expr.marks, Expr.spans, Expr.places_marksEach elements, eq_comm]

theorem Expr.places_marksEach : ∀ es : List Expr,
    Mark.Places (es.map Expr.marks).flatten s ↔ s ∈ Expr.spansEach es
  | [] => by simp [Expr.spansEach]
  | e :: es => by simp [Expr.spansEach, e.places_marks, Expr.places_marksEach es]

end

theorem Sweep.places_marks (sweep : Sweep) : Mark.Places sweep.marks s ↔ s ∈ sweep.spans := by
  cases sweep <;> simp [Sweep.marks, Sweep.spans, Expr.places_marks]

mutual

theorem Stmt.places_marks : ∀ st : Stmt, Mark.Places (st.marks []) s ↔ s ∈ st.spans
  | .expr e => by simp [Stmt.marks, Stmt.spans, e.places_marks]
  | .say value _ | .bind _ _ value _ | .give (some value) _ => by
    simp [Stmt.marks, Stmt.spans, value.places_marks, eq_comm]
  | .block body _ | .skill _ _ body _ => by
    simp [Stmt.marks, Stmt.spans, bodyMarks, Stmt.places_marksEach body, eq_comm]
  | .ifThen test body _ | .keep test body _ => by
    simp [Stmt.marks, Stmt.spans, conditionMarks, test.places_marks, body.places_marks, eq_comm]
  | .ifElse test yes no _ => by
    simp [Stmt.marks, Stmt.spans, conditionMarks, test.places_marks, yes.places_marks,
      no.places_marks, eq_comm]
  | .each _ sweep body _ => by
    simp [Stmt.marks, Stmt.spans, sweep.places_marks, body.places_marks, eq_comm]
  | .give none _ | .stop _ | .skip _ => by simp [Stmt.marks, Stmt.spans, eq_comm]
  | .attempt body _ handler _ => by
    simp [Stmt.marks, Stmt.spans, bodyMarks, Stmt.places_marksEach body,
      Stmt.places_marksEach handler, eq_comm]

theorem Stmt.places_marksEach : ∀ ss : List Stmt,
    Mark.Places (ss.map (Stmt.marks [])).flatten s ↔ s ∈ Stmt.spansEach ss
  | [] => by simp [Stmt.spansEach]
  | s :: ss => by simp [Stmt.spansEach, s.places_marks, Stmt.places_marksEach ss]

end

/-- The caret under a column stands under the first character of a token in a line. -/
def Token.Above (line : String) (column : Nat) (t : Token) : Prop :=
  t.lexeme ≠ "" ∧ ∃ before after, line.toList = before ++ t.lexeme.toList ++ after ∧
    column = before.length + 1

theorem Token.Stands.of_line {source : String} {t : Token} (h : Stands source.toList t)
    (hline : '\n' ∉ source.toList) : t.span.line = 1 ∧ ∃ before after,
      source.toList = before ++ t.lexeme.toList ++ after ∧ t.span.column = before.length + 1 := by
  obtain ⟨before, after, hsource, hspan⟩ := h
  have hbefore : '\n' ∉ before := by
    intro hmem
    exact hline (hsource ▸ List.mem_append_left _ (List.mem_append_left _ hmem))
  rw [hspan]
  refine ⟨?_, before, after, hsource, ?_⟩
  · simp [Span.between, Position.behind, List.count_eq_zero.2 hbefore]
  · have hall : ∀ c ∈ before.reverse, decide (c ≠ '\n') = true := by
      intro c hc
      simpa using fun heq : c = '\n' => hbefore (heq ▸ List.mem_reverse.1 hc)
    simp only [Span.between, Position.behind]
    rw [List.takeWhile_eq_self_iff.2 hall, List.length_reverse]

namespace Program

variable {p : Program}

theorem places_marks : Mark.Places (p.marks []) s ↔ s ∈ p.spans :=
  Stmt.places_marksEach p

/-- Every node of a program that a text forms has the place of a token of the text, which is not the
end mark. -/
theorem exists_token_of_span {source : String} (h : parseAll source = .ok p) (hs : s ∈ p.spans) :
    ∃ tokens, Token.scan source = .ok tokens ∧ ∃ t ∈ tokens, t.kind ≠ .finish ∧ t.span = s := by
  obtain ⟨tokens, hscan, hfits, -⟩ := marks_fit_of_parseAll h
  obtain ⟨t, ht, hspan⟩ := (places_marks.2 hs).exists_token hfits
  have hkind : t.kind ≠ .symbol .semicolon ∧ t.kind ≠ .finish := by
    simpa using List.of_mem_filter ht
  exact ⟨tokens, hscan, t, List.mem_of_mem_filter ht, hkind.2, hspan⟩

/-- A node of a program that a line forms has the place of a token of the line. -/
theorem exists_token_above {source : String} (h : parseAll source = .ok p)
    (hline : '\n' ∉ source.toList) (hs : s ∈ p.spans) : s.line = 1 ∧
      ∃ tokens, Token.scan source = .ok tokens ∧
        ∃ t ∈ tokens, t.span = s ∧ t.Above source s.column := by
  obtain ⟨tokens, hscan, t, ht, hkind, rfl⟩ := exists_token_of_span h hs
  obtain ⟨ts, hcut, rfl⟩ := Token.cut_of_scan hscan
  have hts : t ∈ ts := by
    rcases List.mem_append.1 ht with ht | ht
    · exact ht
    · exact (hkind (by rw [List.mem_singleton.1 ht]; rfl)).elim
  obtain ⟨hfirst, hcaret⟩ := (hcut.stands t hts).of_line hline
  exact ⟨hfirst, _, hscan, t, ht, rfl, (hcut.ne_finish t hts).2, hcaret⟩

end Program
end Vibe
