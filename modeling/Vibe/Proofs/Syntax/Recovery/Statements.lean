import Vibe.Proofs.Syntax.Recovery.Expressions
import Vibe.Proofs.Syntax.Soundness.Statements

/-! Every brace that opens a body is followed by the one that closes it, unless that one was dropped
behind an error: what was read, what was dropped and the bodies found open add up. -/

namespace Vibe.Parser

variable {α β : Type} {k : Int} {n b : Nat} {p : BodyParser α} {q : Parser α} {f : α → BodyParser β}
  {value : Parser Expr} {one : BodyParser Stmt} {block : BodyParser (List Stmt)}
  {closes : Kind → Bool} {t : Token} {ts mid rest taken : List Token} {log log' : List Setback}
  {run : Except Error α × List Token × List Setback} {e : Error} {a : α} {what : String}
  {span : Span}

/-! ### What is dropped -/

/-- Between these tokens reading is taken up again: behind a semicolon, or before a token that begins
a statement. -/
def Resumes (last next : Token) : Prop :=
  last.kind = .symbol .semicolon ∨ next.kind.startsStatement = true

/-- A token is dropped, if there is one, and then all others up to the first place where reading is
taken up again. -/
structure Skips (dropped rest : List Token) : Prop where
  first : dropped = [] → rest = []
  within : dropped.IsChain fun last next => ¬ Resumes last next
  resumes : ∀ last ∈ dropped.getLast?, ∀ next ∈ rest.head?, Resumes last next

theorem Skips.singleton {rest : List Token} (h : ∀ next ∈ rest.head?, Resumes t next) :
    Skips [t] rest where
  first := nofun
  within := .singleton t
  resumes last hlast := by
    cases hlast
    exact h

/-- Where reading is not taken up again, one token more is dropped. -/
theorem Skips.cons {next : Token} {more rest : List Token} (h : Skips (next :: more) rest)
    (hgoes : ¬ Resumes t next) : Skips (t :: next :: more) rest where
  first := nofun
  within := .cons_cons hgoes h.within
  resumes last hlast := h.resumes last (List.getLast?_cons_cons ▸ hlast)

theorem exists_skips (ts : List Token) :
    ∃ dropped, dropped ++ resume ts = ts ∧ Skips dropped (resume ts) := by
  induction ts with
  | nil => exact ⟨[], rfl, fun _ => rfl, .nil, nofun⟩
  | cons t rest ih =>
    obtain ⟨more, hmore, hskips⟩ := ih
    unfold resume
    split
    · exact ⟨[t], rfl, .singleton nofun⟩
    · split
      · next hresumes =>
        refine ⟨[t], rfl, .singleton fun u hu => ?_⟩
        cases hu
        exact hresumes
      · next hgoes =>
        -- The next token is dropped as well, so it is the first of the others.
        have hsome : more ≠ [] := by
          rintro rfl
          rw [hskips.first rfl] at hmore
          cases hmore
        obtain ⟨u, more, rfl⟩ := List.exists_cons_of_ne_nil hsome
        obtain ⟨rfl, -⟩ := List.cons.inj hmore
        exact ⟨t :: u :: more, by rw [List.cons_append, hmore], hskips.cons hgoes⟩

theorem resume_suffix (ts : List Token) : resume ts <:+ ts := by
  obtain ⟨dropped, hdropped, -⟩ := exists_skips ts
  exact ⟨dropped, hdropped⟩

/-- One token at least is dropped, if there is one. -/
theorem resume_length (ts : List Token) : (resume ts).length ≤ ts.length - 1 := by
  induction ts with
  | nil => exact Nat.le_refl 0
  | cons dropped rest ih =>
    unfold resume
    split
    · exact Nat.zero_le _
    · split
      · exact Nat.le_refl _
      · simp only [List.length_cons] at ih ⊢
        omega

/-- The tokens that were dropped behind the error. -/
def dropped (s : Setback) : List Token :=
  s.ahead.take (s.ahead.length - (resume s.ahead).length)

/-- What was dropped and what reading goes on with make up what was left at the error. -/
theorem dropped_skips (s : Setback) :
    dropped s ++ resume s.ahead = s.ahead ∧ Skips (dropped s) (resume s.ahead) := by
  obtain ⟨front, hfront, hskips⟩ := exists_skips s.ahead
  have hlength : s.ahead.length - (resume s.ahead).length = front.length := by
    rw [← congrArg List.length hfront, List.length_append]
    omega
  have hdropped : dropped s = front := by
    rw [dropped, hlength, ← hfront]
    exact List.take_left
  rw [hdropped]
  exact ⟨hfront, hskips⟩

/-- Opening braces that were dropped, less the closing ones. -/
def lost : List Setback → Int
  | [] => 0
  | s :: log => level (dropped s) + lost log

/-- How many of the errors are those of bodies without a closing brace. -/
def unclosed (log : List Setback) : Nat :=
  log.countP (·.error.isUnclosed)

/-- Whether a body without a closing brace is what stopped the run, as a number. -/
def owed : Except Error α → Nat
  | .ok _ => 0
  | .error e => e.isUnclosed.toNat

@[simp] theorem lost_append (log log' : List Setback) :
    lost (log ++ log') = lost log + lost log' := by
  induction log with
  | nil => simp [lost]
  | cons s log ih => simp [lost, ih, Int.add_assoc]

@[simp] theorem unclosed_append (log log' : List Setback) :
    unclosed (log ++ log') = unclosed log + unclosed log' := by
  simp [unclosed]

theorem unclosed_singleton (s : Setback) : unclosed [s] = s.error.isUnclosed.toNat := by
  cases h : s.error.isUnclosed <;> simp [unclosed, h]

theorem lost_singleton (s : Setback) : lost [s] = level (dropped s) := by
  simp [lost]

/-! ### The balance of a run -/

/-- The tokens that a run went past hold `k` more opening braces than closing ones, those that were
dropped and those of the bodies found open aside. If nothing was closed among what was dropped,
nothing was closed before it was opened. Open bodies are found at the end only. -/
structure Fares (k : Int) (taken : List Token)
    (run : Except Error α × List Token × List Setback) : Prop where
  level_eq : level taken = lost run.2.2 + unclosed run.2.2 + owed run.1 + k
  above : (∀ s ∈ run.2.2, Above 0 (dropped s)) → Above k taken
  atEnd : 0 < unclosed run.2.2 + owed run.1 → run.2.1 = []

/-- The run went past tokens at the front of `ts`, with the given balance. -/
def Keeps (k : Int) (ts : List Token) (run : Except Error α × List Token × List Setback) : Prop :=
  ∃ taken, ts = taken ++ run.2.1 ∧ Fares k taken run

/-- Every run of the parser has the given balance. -/
def Steady (k : Int) (p : BodyParser α) : Prop :=
  ∀ ts, Keeps k ts (p ts)

theorem Keeps.length_le (h : Keeps k ts run) : run.2.1.length ≤ ts.length := by
  obtain ⟨taken, rfl, -⟩ := h
  simp

theorem Keeps.ok (a : α) (ts : List Token) : Keeps 0 ts (.ok a, ts, []) :=
  ⟨[], rfl, by simp [lost, unclosed, owed], fun _ => .nil (Int.le_refl 0),
    by simp [unclosed, owed]⟩

theorem Keeps.cons (h : Keeps (-t.kind.opening) rest run) : Keeps 0 (t :: rest) run := by
  obtain ⟨taken, rfl, hfares⟩ := h
  refine ⟨t :: taken, rfl, ?_, fun hlog => ?_, hfares.atEnd⟩
  · have hlevel := hfares.level_eq
    rw [level_cons]
    omega
  · refine .cons (Int.le_refl 0) ?_
    rw [Int.zero_sub]
    exact hfares.above hlog

/-- A run goes on where one without an error came to its end. -/
theorem Keeps.seq {run : Except Error β × List Token × List Setback}
    (h : Keeps k ts (.ok a, mid, log)) (h' : Keeps 0 mid run) :
    Keeps k ts (run.1, run.2.1, log ++ run.2.2) := by
  obtain ⟨taken, rfl, hfares⟩ := h
  obtain ⟨taken', hmid, hfares'⟩ := h'
  have hlevel := hfares.level_eq
  have hlevel' := hfares'.level_eq
  refine ⟨taken ++ taken', by rw [List.append_assoc, ← hmid], ?_, fun hlog => ?_, fun hpos => ?_⟩
  · simp only [owed] at hlevel
    simp only [level_append, lost_append, unclosed_append]
    omega
  · have hlogs := List.forall_mem_append.1 hlog
    exact (hfares.above hlogs.1).followed (hfares'.above hlogs.2)
  · by_cases hlater : 0 < unclosed run.2.2 + owed run.1
    · exact hfares'.atEnd hlater
    · -- An open body was found before, so that the second run had nothing left to read.
      simp only [unclosed_append] at hpos
      have hnil : mid = [] := hfares.atEnd (by simp only [owed]; omega)
      rw [hnil] at hmid
      exact (List.append_eq_nil_iff.1 hmid.symm).2

/-- A run goes on behind what is dropped after its error. -/
theorem Keeps.recover (h : Keeps 0 ts ((.error e, rest, log) : Except Error β × _)) (a : α) :
    Keeps 0 ts (.ok a, resume rest, log ++ [⟨e, rest⟩]) := by
  obtain ⟨taken, rfl, hfares⟩ := h
  have hlevel := hfares.level_eq
  have hdropped : dropped ⟨e, rest⟩ ++ resume rest = rest := (dropped_skips ⟨e, rest⟩).1
  refine ⟨taken ++ dropped ⟨e, rest⟩, ?_, ?_, fun hlog => ?_, fun hpos => ?_⟩
  · rw [List.append_assoc, hdropped]
  · simp only [owed] at hlevel
    simp only [level_append, lost_append, lost_singleton, unclosed_append, unclosed_singleton, owed]
    omega
  · have hlogs := List.forall_mem_append.1 hlog
    exact (hfares.above hlogs.1).followed (hlogs.2 _ (List.mem_singleton_self _))
  · simp only [unclosed_append, unclosed_singleton, owed] at hpos
    have hnil : rest = [] := hfares.atEnd hpos
    rw [hnil]
    rfl

theorem bind_run_ok (h : p ts = (.ok a, mid, log)) :
    (p >>= f) ts = ((f a mid).1, (f a mid).2.1, log ++ (f a mid).2.2) := by
  rw [BodyParser.bind_apply, h]

theorem bind_run_error (h : p ts = (.error e, mid, log)) :
    (p >>= f) ts = (.error e, mid, log) := by
  rw [BodyParser.bind_apply, h]

theorem Keeps.bind (h : Keeps k ts (p ts)) (hf : ∀ a, Steady 0 (f a)) :
    Keeps k ts ((p >>= f) ts) := by
  cases hp : p ts with
  | mk r out =>
    obtain ⟨mid, log⟩ := out
    rw [hp] at h
    cases r with
    | ok a =>
      rw [bind_run_ok hp]
      exact h.seq (hf a mid)
    | error e =>
      rw [bind_run_error hp]
      obtain ⟨taken, hts, hfares⟩ := h
      exact ⟨taken, hts, hfares.level_eq, hfares.above, hfares.atEnd⟩

theorem steady_pure (a : α) : Steady 0 (pure a : BodyParser α) :=
  fun ts => .ok a ts

theorem Steady.bind (h : Steady k p) (hf : ∀ a, Steady 0 (f a)) : Steady k (p >>= f) :=
  fun ts => (h ts).bind hf

theorem lift_run (q : Parser α) (ts : List Token) :
    (liftM q : BodyParser α) ts = ((q ts).1, (q ts).2, []) :=
  rfl

theorem keeps_lift (h : PlainRun ts (q ts)) : Keeps 0 ts ((liftM q : BodyParser α) ts) := by
  obtain ⟨⟨taken, hts, htaken⟩, hclosed⟩ := h
  have howed : owed (q ts).1 = 0 := by
    cases hq : (q ts).1 with
    | ok a => rfl
    | error e => simp [owed, hclosed e hq]
  rw [lift_run]
  refine ⟨taken, hts, ?_, fun _ => .of_flat htaken, fun hpos => ?_⟩
  · simp [level_of_flat htaken, lost, unclosed, howed]
  · simp [unclosed, howed] at hpos

theorem steady_lift (h : Plain q) : Steady 0 (liftM q : BodyParser α) :=
  fun ts => keeps_lift (h ts)

/-- An opening brace is made up for by what follows it. -/
theorem steady_open (h : Steady (-1) p) (hw : what ≠ "expected '\x7d' after block") :
    Steady 0 ((liftM (expect (.symbol .leftBrace) what) : BodyParser Unit) >>= fun _ => p) := by
  intro ts
  by_cases hnext : ∃ t rest, ts = t :: rest ∧ t.kind = .symbol .leftBrace
  · obtain ⟨t, rest, rfl, ht⟩ := hnext
    have hopen : (liftM (expect (.symbol .leftBrace) what) : BodyParser Unit) (t :: rest) =
        (.ok (), rest, []) := BodyParser.lift_eq_ok.2 ⟨expect_of_kind ht, rfl⟩
    rw [bind_run_ok hopen]
    refine Keeps.cons ?_
    rw [ht]
    exact h rest
  · have hstop : expect (.symbol .leftBrace) what ts = expected what ts := by
      refine expect_eq_expected fun t ht hk => ?_
      cases ts with
      | nil => cases ht
      | cons u rest =>
        cases ht
        exact hnext ⟨t, rest, rfl, hk⟩
    have hrun : (liftM (expect (.symbol .leftBrace) what) : BodyParser Unit) ts =
        ((expected what ts : Except Error Unit × _).1, ts, []) := by
      rw [lift_run, hstop]
      rfl
    rw [bind_run_error hrun]
    exact keeps_lift (plain_expected hw ts)

/-! ### Statements -/

theorem plain_terminator : Plain terminator :=
  (plain_accept rfl).bind fun _ => plain_pure ()

theorem plain_binding (binder : Binder) (h : Plain value) : Plain (binding binder value) := by
  refine (plain_expectName (by cases binder <;> decide)).bind fun name => ?_
  refine (plain_expect rfl (by decide)).bind fun _ => h.bind fun v => ?_
  exact plain_terminator.bind fun _ => plain_pure _

theorem steady_skillRest (h : Steady (-1) block) : Steady 0 (skillRest block) := by
  have hname : Plain (Prod.fst <$> expectName "expected parameter name") :=
    (plain_expectName (by decide)).map
  refine (steady_lift (plain_expectName (by decide))).bind fun name => ?_
  refine (steady_lift (plain_expect rfl (by decide))).bind fun _ => ?_
  refine (steady_lift (plain_listUntil hname rfl (by decide) _)).bind fun params => ?_
  exact steady_open (h.bind fun body => steady_pure _) (by decide)

theorem plain_sweep (h : Plain value) : Plain (sweep value) := by
  refine (plain_accept rfl).bind fun found => ?_
  cases found with
  | some s =>
    refine h.bind fun first => (plain_expect rfl (by decide)).bind fun _ => ?_
    exact h.bind fun last => (plain_expect rfl (by decide)).bind fun _ => plain_pure _
  | none =>
    refine (plain_accept rfl).bind fun found => ?_
    cases found with
    | some s => exact h.bind fun items => (plain_expect rfl (by decide)).bind fun _ => plain_pure _
    | none => exact plain_expected (by decide)

theorem plain_giveRest (h : Plain value) : Plain (giveRest span value) := by
  intro ts
  refine PlainRun.bind ?_ fun v => plain_terminator.bind fun _ => plain_pure _
  split
  · exact .ok none ts
  · exact h.map ts

theorem plain_errorName? : Plain attemptRest.errorName? := by
  refine (plain_accept rfl).bind fun found => ?_
  cases found with
  | none => exact plain_pure none
  | some s =>
    refine (plain_expectName (by decide)).bind fun name => ?_
    exact (plain_expect rfl (by decide)).bind fun _ => plain_pure _

theorem steady_ifRest (hx : Plain value) (hs : Steady 0 one) :
    Steady 0 (ifRest span value one) := by
  refine (steady_lift (plain_expect rfl (by decide))).bind fun _ => ?_
  refine (steady_lift hx).bind fun test => ?_
  refine (steady_lift (plain_expect rfl (by decide))).bind fun _ => hs.bind fun yes => ?_
  refine (steady_lift (plain_accept rfl)).bind fun found => ?_
  cases found with
  | none => exact steady_pure _
  | some s => exact hs.bind fun no => steady_pure _

theorem steady_keepRest (hx : Plain value) (hs : Steady 0 one) :
    Steady 0 (keepRest span value one) := by
  refine (steady_lift (plain_expect rfl (by decide))).bind fun _ => ?_
  refine (steady_lift hx).bind fun test => ?_
  refine (steady_lift (plain_expect rfl (by decide))).bind fun _ => ?_
  exact hs.bind fun body => steady_pure _

theorem steady_eachRest (hx : Plain value) (hs : Steady 0 one) :
    Steady 0 (eachRest span value one) := by
  refine (steady_lift (plain_expect rfl (by decide))).bind fun _ => ?_
  refine (steady_lift (plain_expectName (by decide))).bind fun name => ?_
  refine (steady_lift (plain_sweep hx)).bind fun swept => ?_
  exact hs.bind fun body => steady_pure _

theorem steady_attemptRest (h : Steady (-1) block) : Steady 0 (attemptRest span block) := by
  refine steady_open (h.bind fun tried => ?_) (by decide)
  refine (steady_lift (plain_expect rfl (by decide))).bind fun _ => ?_
  refine (steady_lift plain_errorName?).bind fun name => ?_
  exact steady_open (h.bind fun handler => steady_pure _) (by decide)

/-! ### Statements in a row -/

section

variable {u : Token} {bound : List Token} {done : List Stmt} {errors : List Setback} {s : Stmt}

theorem statements_of_ok (hclose : closes t.kind = false) (h : one (t :: ts) = (.ok s, rest, log)) :
    statements one closes (u :: bound) done errors (t :: ts) =
      statements one closes bound (s :: done) (errors ++ log) rest := by
  simp [statements, hclose, h]

theorem statements_of_error (hclose : closes t.kind = false)
    (h : one (t :: ts) = (.error e, rest, log)) :
    statements one closes (u :: bound) done errors (t :: ts) =
      statements one closes bound done (errors ++ log ++ [⟨e, rest⟩]) (resume rest) := by
  simp [statements, hclose, h]

end

/-- What has been read and noted before stays in front. -/
theorem statements_done (bound : List Token) (done : List Stmt) (errors : List Setback)
    (ts : List Token) : statements one closes bound done errors ts =
      (done.reverse ++ (statements one closes bound [] [] ts).1,
        (statements one closes bound [] [] ts).2.1,
        errors ++ (statements one closes bound [] [] ts).2.2) := by
  induction bound generalizing done errors ts with
  | nil => simp [statements]
  | cons _ bound ih =>
    cases ts with
    | nil => simp [statements]
    | cons t ts =>
      cases hclose : closes t.kind with
      | true => simp [statements, hclose]
      | false =>
        rcases hone : one (t :: ts) with ⟨e | s, mid, more⟩
        · rw [statements_of_error hclose hone, statements_of_error hclose hone, ih,
            ih [] ([] ++ more ++ _)]
          simp
        · rw [statements_of_ok hclose hone, statements_of_ok hclose hone, ih, ih [s] ([] ++ more)]
          simp

/-- The run has its balance and, if it ends without an error, went past a token. -/
structure Strides (ts : List Token) (run : Except Error α × List Token × List Setback) : Prop where
  keeps : Keeps 0 ts run
  moves : ∀ a, run.1 = .ok a → run.2.1.length < ts.length

theorem Strides.cons (h : Keeps (-t.kind.opening) rest run) : Strides (t :: rest) run := by
  refine ⟨h.cons, fun a _ => ?_⟩
  have hle := h.length_le
  rw [List.length_cons]
  omega

/-- Statements are read up to the end or up to a token that closes, with the balance of all. -/
theorem statements_keep (ho : ∀ ts, Strides ts (one ts)) {bound : List Token} {done : List Stmt}
    {errors : List Setback} (hb : ts.length ≤ bound.length) : ∃ ss rest log,
    statements one closes bound done errors ts = (ss, rest, errors ++ log) ∧
      (∀ t ∈ rest.head?, closes t.kind = true) ∧
      Keeps 0 ts ((.ok ss, rest, log) : Except Error (List Stmt) × _) := by
  induction bound generalizing done errors ts with
  | nil =>
    obtain rfl : ts = [] := by simpa using hb
    exact ⟨done.reverse, [], [], by simp [statements], by simp, .ok _ []⟩
  | cons _ bound ih =>
    cases ts with
    | nil => exact ⟨done.reverse, [], [], by simp [statements], by simp, .ok _ []⟩
    | cons t ts =>
      cases hclose : closes t.kind with
      | true =>
        refine ⟨done.reverse, t :: ts, [], ?_, by simpa using hclose, .ok _ _⟩
        simp [statements, hclose]
      | false =>
        obtain ⟨hkeeps, hmoves⟩ := ho (t :: ts)
        simp only [List.length_cons] at hb hmoves
        rcases hone : one (t :: ts) with ⟨e | s, mid, more⟩
        · rw [hone] at hkeeps
          have hle : mid.length ≤ ts.length + 1 := hkeeps.length_le
          have hshort := resume_length mid
          obtain ⟨ss, rest, log, hrun, hend, hrest⟩ :=
            @ih (resume mid) done (errors ++ more ++ [⟨e, mid⟩]) (by omega)
          refine ⟨ss, rest, more ++ [⟨e, mid⟩] ++ log, ?_, hend, (hkeeps.recover ()).seq hrest⟩
          rw [statements_of_error hclose hone, hrun]
          simp
        · rw [hone] at hkeeps hmoves
          have hshort : mid.length < ts.length + 1 := hmoves s rfl
          obtain ⟨ss, rest, log, hrun, hend, hrest⟩ :=
            @ih mid (s :: done) (errors ++ more) (by omega)
          refine ⟨ss, rest, more ++ log, ?_, hend, hkeeps.seq hrest⟩
          rw [statements_of_ok hclose hone, hrun, List.append_assoc]

/-- Behind its statements a body is its closing brace. -/
theorem body_eq {ss : List Stmt} {r : Except Error Unit} {after : List Token}
    (h : statements one (· = .symbol .rightBrace) ts [] [] ts = (ss, rest, log))
    (hclose : expect (.symbol .rightBrace) "expected '\x7d' after block" rest = (r, after)) :
    body one ts = (r.map fun _ => ss, after, log) := by
  have hread : (fun ts => (.ok (statements one (· = .symbol .rightBrace) ts [] [] ts).1,
      (statements one (· = .symbol .rightBrace) ts [] [] ts).2) : BodyParser (List Stmt)) ts =
      (.ok ss, rest, log) := by
    simp only [h]
  have hlift : (liftM (expect (.symbol .rightBrace) "expected '\x7d' after block") :
      BodyParser Unit) rest = (r, after, []) := by
    rw [lift_run, hclose]
  refine (bind_run_ok hread).trans ?_
  cases r with
  | error e =>
    simp only [bind_run_error hlift, List.append_nil]
    rfl
  | ok u =>
    have hpure : (pure ss : BodyParser (List Stmt)) after = (.ok ss, after, []) := rfl
    simp only [bind_run_ok hlift, hpure, List.append_nil]
    rfl

/-- A body is read up to its closing brace, or up to the end where it is found open. -/
theorem body_run (ho : ∀ ts, Strides ts (one ts)) (ts : List Token) : ∃ ss main rest log,
    ts = main ++ rest ∧ Fares 0 main ((.ok ss, rest, log) : Except Error (List Stmt) × _) ∧
      ((rest = [] ∧ ∃ e, e.isUnclosed = true ∧ body one ts = (.error e, [], log)) ∨
        ∃ t after, t.kind = .symbol .rightBrace ∧ rest = t :: after ∧
          body one ts = (.ok ss, after, log)) := by
  have hread : ∃ ss rest log,
      statements one (· = .symbol .rightBrace) ts [] [] ts = (ss, rest, [] ++ log) ∧
        (∀ t ∈ rest.head?, decide (t.kind = .symbol .rightBrace) = true) ∧
        Keeps 0 ts ((.ok ss, rest, log) : Except Error (List Stmt) × _) :=
    statements_keep ho (Nat.le_refl ts.length)
  obtain ⟨ss, rest, log, hrun, hend, main, hts, hfares⟩ := hread
  rw [List.nil_append] at hrun
  refine ⟨ss, main, rest, log, hts, hfares, ?_⟩
  cases rest with
  | nil => exact .inl ⟨rfl, _, rfl, body_eq hrun rfl⟩
  | cons t after =>
    have ht := of_decide_eq_true (hend t rfl)
    exact .inr ⟨t, after, ht, rfl, body_eq hrun (expect_of_kind ht)⟩

theorem steady_body (ho : ∀ ts, Strides ts (one ts)) : Steady (-1) (body one) := by
  intro ts
  obtain ⟨ss, main, rest, log, rfl, hfares, hend⟩ := body_run ho ts
  have hlevel := hfares.level_eq
  have habove := hfares.above
  have hatEnd := hfares.atEnd
  simp only [owed] at hlevel habove hatEnd
  rcases hend with ⟨rfl, e, he, hrun⟩ | ⟨t, after, ht, rfl, hrun⟩
  · rw [hrun]
    refine ⟨main, rfl, ?_, fun hlog => (habove hlog).mono (by omega), fun _ => rfl⟩
    simp only [owed, he, Bool.toNat_true]
    omega
  · rw [hrun]
    have hopening : t.kind.opening = -1 := by rw [ht]; rfl
    refine ⟨main ++ [t], by simp, ?_, fun hlog => ?_, fun hpos => ?_⟩
    · simp only [level_append, level_cons, level_nil, owed, hopening]
      omega
    · have hmain := (habove hlog).le_level
      refine ((habove hlog).mono (by omega)).append (.cons (by omega) (.nil ?_))
      rw [hopening]
      omega
    · cases hatEnd hpos

/-! ### All statements -/

theorem strides_expressionStatement (hx : Plain value) (hs : Sound 0 value) (ts : List Token) :
    Strides ts ((liftM (do let e ← value; terminator; return .expr e : Parser Stmt) :
      BodyParser Stmt) ts) := by
  refine ⟨keeps_lift ((hx ts).bind fun e => plain_terminator.bind fun _ => plain_pure _), ?_⟩
  intro s hok
  obtain ⟨hread, -⟩ := expressionStatement_reads hs (Prod.ext hok rfl)
  have hle := hread.consumes.length_le
  have hpos := List.length_pos_iff.2 (s.marks_ne_nil [])
  exact Nat.lt_of_lt_of_le (Nat.lt_add_of_pos_left hpos) hle

theorem strides_simpleStatement (hx : Plain value) (hv : Sound 0 value) (hs : Steady 0 one)
    (hb : Steady (-1) block) (ts : List Token) :
    Strides ts (simpleStatement value one block ts) := by
  unfold simpleStatement
  split
  · exact strides_expressionStatement hx hv []
  · next kind span lexeme rest =>
    split
    · refine .cons (keeps_lift ((hx rest).bind fun e => ?_))
      exact plain_terminator.bind fun _ => plain_pure _
    · exact .cons (steady_ifRest hx hs rest)
    · exact .cons (steady_keepRest hx hs rest)
    · exact .cons (steady_eachRest hx hs rest)
    · exact .cons (steady_lift (plain_giveRest hx) rest)
    · exact .cons (keeps_lift ((plain_terminator rest).bind fun _ => plain_pure _))
    · exact .cons (keeps_lift ((plain_terminator rest).bind fun _ => plain_pure _))
    · exact .cons (steady_attemptRest hb rest)
    · exact .cons ((hb rest).bind fun body => steady_pure _)
    · exact strides_expressionStatement hx hv _

theorem strides_tooDeep (ts : List Token) :
    Strides ts ((liftM (tooDeep : Parser Stmt) : BodyParser Stmt) ts) :=
  ⟨steady_lift plain_tooDeep ts, fun _ h => by cases h⟩

/-- With any room and any budget, a statement has its balance. -/
theorem strides_declaration_statement (n : Nat) : ∀ b ts,
    Strides ts (declaration n b ts) ∧ Strides ts (Parser.statement n b ts) := by
  induction n with
  | zero => exact fun b ts => ⟨strides_tooDeep ts, strides_tooDeep ts⟩
  | succ n ih =>
    have hbody : ∀ b, Steady (-1) (body (declaration n b)) :=
      fun b => steady_body fun ts => (ih b ts).1
    intro b ts
    constructor
    · unfold declaration
      split
      · exact .cons (steady_lift (plain_binding .hold (plain_expression_unary b).1) _)
      · exact .cons (steady_lift (plain_binding .lock (plain_expression_unary b).1) _)
      · exact .cons (steady_skillRest (hbody b) _)
      · exact (ih b ts).2
    · cases b with
      | zero => exact strides_tooDeep ts
      | succ b =>
        exact strides_simpleStatement (plain_expression_unary b).1 (sound_expression_unary b).1
          (fun ts => (ih b ts).2.keeps) (hbody b) ts

end Vibe.Parser
