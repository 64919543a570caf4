import Vibe.Proofs.Syntax.Soundness.Expressions

/-! What the parser reads as a statement without an error is the statement written out, in its one
shape. -/

namespace Vibe.Parser

variable {n b : Nat} {declares : Bool} {expression : Parser Expr} {statement one : BodyParser Stmt}
  {block : BodyParser (List Stmt)} {closes : Kind → Bool} {span : Span} {s : Stmt}
  {ss done : List Stmt} {errors : List Setback} {u : Unit} {ts rest : List Token}

/-- Reading from `ts` to `rest` takes a statement, and an `else` that the statement wants is not
left behind it. -/
structure ReadsStmt (s : Stmt) (ts rest : List Token) : Prop where
  consumes : Consumes (s.marks []) ts rest
  canonical : s.Canonical
  noElse : s.wantsElse = true → ∀ t ∈ rest.head?, t.kind ≠ .keyword .elseWord

/-- Without errors the parser reads only statements, and declarations only if it may. -/
def SoundStmt (declares : Bool) (p : BodyParser Stmt) : Prop :=
  ∀ ⦃ts s rest⦄, p ts = (.ok s, rest, []) →
    ReadsStmt s ts rest ∧ (s.isDeclaration = true → declares = true)

def SoundBody (p : BodyParser (List Stmt)) : Prop :=
  ∀ ⦃ts ss rest⦄, p ts = (.ok ss, rest, []) →
    Consumes (bodyMarks (ss.map (Stmt.marks []))) ts rest ∧ ∀ s ∈ ss, s.Canonical

theorem terminator_consumes (h : terminator ts = (.ok u, rest)) : Consumes [] ts rest := by
  unfold terminator at h
  obtain ⟨_ | s, mid, ha, h⟩ := bind_eq_ok.1 h
  · obtain ⟨-, rfl⟩ := pure_eq_ok.1 h
    obtain ⟨rfl, -⟩ := accept_eq_none.1 ha
    exact .nil
  · obtain ⟨-, rfl⟩ := pure_eq_ok.1 h
    obtain ⟨t, rfl, ht, -⟩ := accept_eq_some.1 ha
    exact .semicolon ht

/-- Errors that were noted stay noted. -/
theorem statements_noErrors {bound : List Token}
    (h : statements one closes bound done errors ts = (ss, rest, [])) : errors = [] := by
  induction bound generalizing done errors ts with
  | nil =>
    cases h
    rfl
  | cons _ bound ih =>
    unfold statements at h
    split at h
    · cases h
      rfl
    · split at h
      · cases h
        rfl
      · split at h
        · exact (List.append_eq_nil_iff.1 (ih h)).1
        · simpa using ih h

/-- A list of statements that is read without an error ends where it is closed. -/
theorem statements_reads (ho : SoundStmt declares one) {bound : List Token}
    (hb : ts.length ≤ bound.length)
    (h : statements one closes bound done errors ts = (ss, rest, [])) :
    (∀ t ∈ rest.head?, closes t.kind = true) ∧ ∃ read, ss = done.reverse ++ read ∧
      Consumes (read.map (Stmt.marks [])).flatten ts rest ∧ ∀ s ∈ read, s.Canonical := by
  induction bound generalizing done errors ts with
  | nil =>
    obtain rfl : ts = [] := by simpa using hb
    cases h
    exact ⟨by simp, [], by simp, .nil, by simp⟩
  | cons _ bound ih =>
    unfold statements at h
    split at h
    · cases h
      exact ⟨by simp, [], by simp, .nil, by simp⟩
    · next t mid =>
      split at h
      · next hclose =>
        cases h
        exact ⟨by simpa using hclose, [], by simp, .nil, by simp⟩
      · split at h
        · next s mid' more hs =>
          obtain rfl : more = [] := (List.append_eq_nil_iff.1 (statements_noErrors h)).2
          obtain ⟨hr, -⟩ := ho hs
          have hlen := hr.consumes.length_le
          have hpos := List.length_pos_iff.2 (s.marks_ne_nil [])
          simp only [List.length_cons] at hlen hb
          obtain ⟨hend, read, rfl, hc, hg⟩ := ih (by omega) h
          refine ⟨hend, s :: read, by simp, ?_, by simpa using ⟨hr.canonical, hg⟩⟩
          rw [List.map_cons, List.flatten_cons]
          exact hr.consumes.append hc
        · next e mid' more hs =>
          have hnone := statements_noErrors h
          simp at hnone

theorem sound_body (ho : SoundStmt declares one) : SoundBody (body one) := by
  intro ts ss rest h
  unfold body at h
  obtain ⟨ss', mid, hread, h⟩ := BodyParser.bind_eq_ok.1 h
  obtain ⟨_, mid', hclose, h⟩ := BodyParser.bind_eq_ok.1 h
  obtain ⟨rfl, rfl, -⟩ := BodyParser.pure_eq_ok.1 h
  split at hread
  next stmts end' errs hs =>
    cases hread
    obtain ⟨-, read, rfl, hc, hg⟩ := statements_reads ho (Nat.le_refl _) hs
    obtain ⟨hclose, -⟩ := BodyParser.lift_eq_ok.1 hclose
    exact ⟨hc.append (expect_consumes hclose (by simp)), hg⟩

theorem binding_reads {binder : Binder} (hx : Sound 0 expression) {t : Token}
    (ht : t.kind = .keyword binder.keyword)
    (h : binding binder expression ts = (.ok s, rest)) :
    ReadsStmt s (t :: ts) rest ∧ s.isDeclaration = true := by
  unfold binding at h
  obtain ⟨⟨name, span⟩, mid, hname, h⟩ := bind_eq_ok.1 h
  obtain ⟨_, mid', hequal, h⟩ := bind_eq_ok.1 h
  obtain ⟨value, mid'', hvalue, h⟩ := bind_eq_ok.1 h
  obtain ⟨_, end', hend, h⟩ := bind_eq_ok.1 h
  obtain ⟨rfl, rfl⟩ := pure_eq_ok.1 h
  have hr := hx hvalue
  refine ⟨⟨?_, .bind binder name span hr.canonical, by simp [Stmt.wantsElse]⟩, rfl⟩
  have hc := (expectName_consumes hname).append ((expect_consumes hequal (by simp)).append
    (hr.consumes.append (terminator_consumes hend)))
  exact .bare ht (by simp) hc

theorem parameter_reads {what p : String}
    (h : (Prod.fst <$> expectName what) ts = (.ok p, rest)) :
    Consumes [Mark.name p] ts rest ∧ True := by
  obtain ⟨⟨name, span⟩, hp, rfl⟩ := map_eq_ok.1 h
  obtain ⟨t, rfl, ht, -⟩ := expectName_eq_ok.1 hp
  exact ⟨.bare ht (by simp) .nil, trivial⟩

theorem skillRest_reads (hb : SoundBody block) {t : Token} (ht : t.kind = .keyword .skill)
    (h : skillRest block ts = (.ok s, rest, [])) :
    ReadsStmt s (t :: ts) rest ∧ s.isDeclaration = true := by
  unfold skillRest at h
  obtain ⟨⟨name, span⟩, mid, hname, h⟩ := BodyParser.bind_lift_eq_ok.1 h
  obtain ⟨_, mid, hopen, h⟩ := BodyParser.bind_lift_eq_ok.1 h
  obtain ⟨params, mid, hparams, h⟩ := BodyParser.bind_lift_eq_ok.1 h
  obtain ⟨_, mid, hbrace, h⟩ := BodyParser.bind_lift_eq_ok.1 h
  obtain ⟨ss, mid, hbody, h⟩ := BodyParser.bind_eq_ok.1 h
  obtain ⟨rfl, rfl, -⟩ := BodyParser.pure_eq_ok.1 h
  obtain ⟨hc, hg⟩ := hb hbody
  obtain ⟨hcp, count, -⟩ := listUntil_reads (fun _ _ _ => parameter_reads) (by simp) hparams
  refine ⟨⟨?_, .skill name span count hg, by simp [Stmt.wantsElse]⟩, rfl⟩
  rw [Stmt.marks, Stmt.marksEach_eq_map]
  have hc := (expectName_consumes hname).append ((expect_consumes hopen (by simp)).append
    (hcp.append ((expect_consumes hbrace (by simp)).append hc)))
  refine .bare ht (by simp) ?_
  simpa [Mark.sign] using hc

theorem condition_consumes {what what' : String} {test : Expr} {mid mid' : List Token}
    (hopen : expect (.symbol .leftParen) what ts = (.ok u, mid))
    (ht : Consumes test.marks mid mid')
    (hclose : expect (.symbol .rightParen) what' mid' = (.ok u, rest)) :
    Consumes (conditionMarks test) ts rest :=
  (expect_consumes hopen (by simp)).append (ht.append (expect_consumes hclose (by simp)))

theorem ifRest_reads (hx : Sound 0 expression) (hs : SoundStmt false statement) {t : Token}
    (ht : t.kind = .keyword .ifWord)
    (h : ifRest t.span expression statement ts = (.ok s, rest, [])) :
    ReadsStmt s (t :: ts) rest ∧ s.isDeclaration = false := by
  unfold ifRest at h
  obtain ⟨_, mid, hopen, h⟩ := BodyParser.bind_lift_eq_ok.1 h
  obtain ⟨test, mid, htest, h⟩ := BodyParser.bind_lift_eq_ok.1 h
  obtain ⟨_, mid, hclose, h⟩ := BodyParser.bind_lift_eq_ok.1 h
  obtain ⟨yes, mid, hyes, h⟩ := BodyParser.bind_eq_ok.1 h
  obtain ⟨_ | other, mid, helse, h⟩ := BodyParser.bind_lift_eq_ok.1 h
  · obtain ⟨rfl, rfl, -⟩ := BodyParser.pure_eq_ok.1 h
    obtain ⟨rfl, hne⟩ := accept_eq_none.1 helse
    obtain ⟨hr, hd⟩ := hs hyes
    refine ⟨⟨?_, .ifThen t.span (hx htest).canonical hr.canonical (by simpa using hd),
      fun _ => hne⟩, rfl⟩
    exact .placed ht (by simp)
      ((condition_consumes hopen (hx htest).consumes hclose).append hr.consumes)
  · obtain ⟨no, mid, hno, h⟩ := BodyParser.bind_eq_ok.1 h
    obtain ⟨rfl, rfl, -⟩ := BodyParser.pure_eq_ok.1 h
    obtain ⟨t', rfl, ht', -⟩ := accept_eq_some.1 helse
    obtain ⟨hr, hd⟩ := hs hyes
    obtain ⟨hr', hd'⟩ := hs hno
    -- The first branch would have taken the `else` if it had wanted one.
    have taken : yes.wantsElse = false := by
      by_contra hw
      exact hr.noElse (by simpa using hw) t' rfl ht'
    refine ⟨⟨?_, .ifElse t.span (hx htest).canonical hr.canonical (by simpa using hd) taken
      hr'.canonical (by simpa using hd'), hr'.noElse⟩, rfl⟩
    have hc := ((condition_consumes hopen (hx htest).consumes hclose).append hr.consumes).append
      (.bare ht' (by simp) hr'.consumes)
    exact .placed ht (by simp) hc

theorem keepRest_reads (hx : Sound 0 expression) (hs : SoundStmt false statement) {t : Token}
    (ht : t.kind = .keyword .keep)
    (h : keepRest t.span expression statement ts = (.ok s, rest, [])) :
    ReadsStmt s (t :: ts) rest ∧ s.isDeclaration = false := by
  unfold keepRest at h
  obtain ⟨_, mid, hopen, h⟩ := BodyParser.bind_lift_eq_ok.1 h
  obtain ⟨test, mid, htest, h⟩ := BodyParser.bind_lift_eq_ok.1 h
  obtain ⟨_, mid, hclose, h⟩ := BodyParser.bind_lift_eq_ok.1 h
  obtain ⟨body, mid, hbody, h⟩ := BodyParser.bind_eq_ok.1 h
  obtain ⟨rfl, rfl, -⟩ := BodyParser.pure_eq_ok.1 h
  obtain ⟨hr, hd⟩ := hs hbody
  refine ⟨⟨?_, .keep t.span (hx htest).canonical hr.canonical (by simpa using hd),
    hr.noElse⟩, rfl⟩
  exact .placed ht (by simp)
    ((condition_consumes hopen (hx htest).consumes hclose).append hr.consumes)

/-- What a loop runs over, and the parenthesis behind it. -/
theorem sweep_reads (hx : Sound 0 expression) {sw : Sweep}
    (h : sweep expression ts = (.ok sw, rest)) :
    Consumes (sw.marks ++ [Mark.sign .rightParen]) ts rest ∧ sw.Canonical := by
  unfold sweep at h
  obtain ⟨_ | s, mid, hfrom, h⟩ := bind_eq_ok.1 h
  · obtain ⟨rfl, -⟩ := accept_eq_none.1 hfrom
    obtain ⟨_ | s, mid, hin, h⟩ := bind_eq_ok.1 h
    · cases h
    · obtain ⟨collection, mid, hc, h⟩ := bind_eq_ok.1 h
      obtain ⟨_, mid, hclose, h⟩ := bind_eq_ok.1 h
      obtain ⟨rfl, rfl⟩ := pure_eq_ok.1 h
      obtain ⟨t, rfl, ht, -⟩ := accept_eq_some.1 hin
      refine ⟨?_, .items (hx hc).canonical⟩
      exact .bare ht (by simp)
        ((hx hc).consumes.append (expect_consumes hclose (by simp)))
  · obtain ⟨first, mid, hf, h⟩ := bind_eq_ok.1 h
    obtain ⟨_, mid, hto, h⟩ := bind_eq_ok.1 h
    obtain ⟨last, mid, hl, h⟩ := bind_eq_ok.1 h
    obtain ⟨_, mid, hclose, h⟩ := bind_eq_ok.1 h
    obtain ⟨rfl, rfl⟩ := pure_eq_ok.1 h
    obtain ⟨t, rfl, ht, -⟩ := accept_eq_some.1 hfrom
    refine ⟨?_, .range (hx hf).canonical (hx hl).canonical⟩
    have hc := (hx hf).consumes.append ((expect_consumes hto (by simp)).append
      ((hx hl).consumes.append (expect_consumes hclose (by simp))))
    refine .bare ht (by simp) ?_
    simpa [Mark.sign, Mark.word] using hc

theorem eachRest_reads (hx : Sound 0 expression) (hs : SoundStmt false statement) {t : Token}
    (ht : t.kind = .keyword .each)
    (h : eachRest t.span expression statement ts = (.ok s, rest, [])) :
    ReadsStmt s (t :: ts) rest ∧ s.isDeclaration = false := by
  unfold eachRest at h
  obtain ⟨_, mid, hopen, h⟩ := BodyParser.bind_lift_eq_ok.1 h
  obtain ⟨⟨var, _⟩, mid, hvar, h⟩ := BodyParser.bind_lift_eq_ok.1 h
  obtain ⟨swept, mid, hswept, h⟩ := BodyParser.bind_lift_eq_ok.1 h
  obtain ⟨body, mid, hbody, h⟩ := BodyParser.bind_eq_ok.1 h
  obtain ⟨rfl, rfl, -⟩ := BodyParser.pure_eq_ok.1 h
  obtain ⟨hcs, hg⟩ := sweep_reads hx hswept
  obtain ⟨hr, hd⟩ := hs hbody
  obtain ⟨t', rfl, hk, -⟩ := expectName_eq_ok.1 hvar
  refine ⟨⟨?_, .each var t.span hg hr.canonical (by simpa using hd), hr.noElse⟩, rfl⟩
  have hc := (expect_consumes hopen (by simp)).append
    ((Consumes.bare hk (by simp) hcs).append hr.consumes)
  refine .placed ht (by simp) ?_
  simpa [Mark.sign, Mark.name] using hc

theorem giveRest_reads (hx : Sound 0 expression) {t : Token} (ht : t.kind = .keyword .give)
    (h : giveRest t.span expression ts = (.ok s, rest)) :
    ReadsStmt s (t :: ts) rest ∧ s.isDeclaration = false := by
  unfold giveRest at h
  obtain ⟨value, mid, hvalue, h⟩ := bind_eq_ok.1 h
  obtain ⟨_, mid, hend, h⟩ := bind_eq_ok.1 h
  obtain ⟨rfl, rfl⟩ := pure_eq_ok.1 h
  have hc := terminator_consumes hend
  split at hvalue
  · obtain ⟨rfl, rfl⟩ := pure_eq_ok.1 hvalue
    exact ⟨⟨.placed ht (by simp) hc, .give t.span (by simp), by simp [Stmt.wantsElse]⟩, rfl⟩
  · obtain ⟨e, he, rfl⟩ := map_eq_ok.1 hvalue
    refine ⟨⟨?_, .give t.span ?_, by simp [Stmt.wantsElse]⟩, rfl⟩
    · exact .placed ht (by simp) ((hx he).consumes.append hc)
    · simpa using (hx he).canonical

theorem errorName_reads {name : Option String}
    (h : attemptRest.errorName? ts = (.ok name, rest)) :
    Consumes (errorNameMarks name) ts rest := by
  unfold attemptRest.errorName? at h
  obtain ⟨_ | s, mid, hopen, h⟩ := bind_eq_ok.1 h
  · obtain ⟨rfl, rfl⟩ := pure_eq_ok.1 h
    obtain ⟨rfl, -⟩ := accept_eq_none.1 hopen
    exact .nil
  · obtain ⟨⟨name, span⟩, mid, hname, h⟩ := bind_eq_ok.1 h
    obtain ⟨_, mid, hclose, h⟩ := bind_eq_ok.1 h
    obtain ⟨rfl, rfl⟩ := pure_eq_ok.1 h
    obtain ⟨t, rfl, ht, -⟩ := accept_eq_some.1 hopen
    obtain ⟨t', rfl, hk, -⟩ := expectName_eq_ok.1 hname
    exact .bare ht (by simp) (.bare hk (by simp) (expect_consumes hclose (by simp)))

theorem attemptRest_reads (hb : SoundBody block) {t : Token} (ht : t.kind = .keyword .tryWord)
    (h : attemptRest t.span block ts = (.ok s, rest, [])) :
    ReadsStmt s (t :: ts) rest ∧ s.isDeclaration = false := by
  unfold attemptRest at h
  obtain ⟨_, mid, hopen, h⟩ := BodyParser.bind_lift_eq_ok.1 h
  obtain ⟨tried, mid, htried, h⟩ := BodyParser.bind_eq_ok.1 h
  obtain ⟨_, mid, hcaught, h⟩ := BodyParser.bind_lift_eq_ok.1 h
  obtain ⟨name, mid, hname, h⟩ := BodyParser.bind_lift_eq_ok.1 h
  obtain ⟨_, mid, hopen', h⟩ := BodyParser.bind_lift_eq_ok.1 h
  obtain ⟨handler, mid, hhandler, h⟩ := BodyParser.bind_eq_ok.1 h
  obtain ⟨rfl, rfl, -⟩ := BodyParser.pure_eq_ok.1 h
  obtain ⟨hct, hgt⟩ := hb htried
  obtain ⟨hch, hgh⟩ := hb hhandler
  refine ⟨⟨?_, .attempt name t.span hgt hgh, by simp [Stmt.wantsElse]⟩, rfl⟩
  rw [Stmt.marks, Stmt.marksEach_eq_map, Stmt.marksEach_eq_map]
  have hc := (expect_consumes hopen (by simp)).append (hct.append
    ((expect_consumes hcaught (by simp)).append ((errorName_reads hname).append
      ((expect_consumes hopen' (by simp)).append hch))))
  refine .placed ht (by simp) ?_
  simpa [Mark.sign, Mark.word] using hc

theorem expressionStatement_reads (hx : Sound 0 expression)
    (h : (do let e ← expression; terminator; return .expr e : Parser Stmt) ts = (.ok s, rest)) :
    ReadsStmt s ts rest ∧ s.isDeclaration = false := by
  obtain ⟨e, mid, he, h⟩ := bind_eq_ok.1 h
  obtain ⟨_, mid, hend, h⟩ := bind_eq_ok.1 h
  obtain ⟨rfl, rfl⟩ := pure_eq_ok.1 h
  exact ⟨⟨(hx he).consumes.append (terminator_consumes hend), .expr (hx he).canonical,
    by simp [Stmt.wantsElse]⟩, rfl⟩

theorem sound_simpleStatement (hx : Sound 0 expression) (hs : SoundStmt false statement)
    (hb : SoundBody block) : SoundStmt false (simpleStatement expression statement block) := by
  suffices h : ∀ ⦃ts s rest⦄, simpleStatement expression statement block ts = (.ok s, rest, []) →
      ReadsStmt s ts rest ∧ s.isDeclaration = false by
    intro ts s rest hp
    obtain ⟨hr, hd⟩ := h hp
    exact ⟨hr, by simp [hd]⟩
  intro ts s rest h
  unfold simpleStatement at h
  split at h
  · exact expressionStatement_reads hx (BodyParser.lift_eq_ok.1 h).1
  · next kind span lexeme mid =>
    split at h
    · obtain ⟨h, -⟩ := BodyParser.lift_eq_ok.1 h
      obtain ⟨e, mid, he, h⟩ := bind_eq_ok.1 h
      obtain ⟨_, mid, hend, h⟩ := bind_eq_ok.1 h
      obtain ⟨rfl, rfl⟩ := pure_eq_ok.1 h
      exact ⟨⟨.placed rfl (by simp) ((hx he).consumes.append (terminator_consumes hend)),
        .say span (hx he).canonical, by simp [Stmt.wantsElse]⟩, rfl⟩
    · exact ifRest_reads hx hs rfl h
    · exact keepRest_reads hx hs rfl h
    · exact eachRest_reads hx hs rfl h
    · exact giveRest_reads hx rfl (BodyParser.lift_eq_ok.1 h).1
    · obtain ⟨h, -⟩ := BodyParser.lift_eq_ok.1 h
      obtain ⟨_, mid, hend, h⟩ := bind_eq_ok.1 h
      obtain ⟨rfl, rfl⟩ := pure_eq_ok.1 h
      exact ⟨⟨.placed rfl (by simp) (terminator_consumes hend), .stop span,
        by simp [Stmt.wantsElse]⟩, rfl⟩
    · obtain ⟨h, -⟩ := BodyParser.lift_eq_ok.1 h
      obtain ⟨_, mid, hend, h⟩ := bind_eq_ok.1 h
      obtain ⟨rfl, rfl⟩ := pure_eq_ok.1 h
      exact ⟨⟨.placed rfl (by simp) (terminator_consumes hend), .skip span,
        by simp [Stmt.wantsElse]⟩, rfl⟩
    · exact attemptRest_reads hb rfl h
    · obtain ⟨ss, mid, hbody, h⟩ := BodyParser.bind_eq_ok.1 h
      obtain ⟨rfl, rfl, -⟩ := BodyParser.pure_eq_ok.1 h
      obtain ⟨hc, hg⟩ := hb hbody
      refine ⟨⟨?_, .block span hg, by simp [Stmt.wantsElse]⟩, rfl⟩
      rw [Stmt.marks, Stmt.marksEach_eq_map]
      exact .placed rfl (by simp) hc
    · exact expressionStatement_reads hx (BodyParser.lift_eq_ok.1 h).1

theorem SoundStmt.tooDeep : SoundStmt declares (tooDeep : Parser Stmt) := by
  intro ts s rest h
  cases h

/-- With any room and any budget, what is read is the statement written out. -/
theorem sound_declaration_statement (n : Nat) :
    ∀ b, SoundStmt true (declaration n b) ∧ SoundStmt false (Parser.statement n b) := by
  induction n with
  | zero => exact fun b => ⟨.tooDeep, .tooDeep⟩
  | succ n ih =>
    intro b
    constructor
    · intro ts s rest h
      refine ⟨?_, fun _ => rfl⟩
      unfold declaration at h
      split at h
      · exact (binding_reads (sound_expression_unary b).1 rfl (BodyParser.lift_eq_ok.1 h).1).1
      · exact (binding_reads (sound_expression_unary b).1 rfl (BodyParser.lift_eq_ok.1 h).1).1
      · exact (skillRest_reads (sound_body (ih b).1) rfl h).1
      · exact ((ih b).2 h).1
    · cases b with
      | zero => exact .tooDeep
      | succ b =>
        exact sound_simpleStatement (sound_expression_unary b).1 (ih b).2 (sound_body (ih b).1)

end Vibe.Parser
