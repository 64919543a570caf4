import Vibe.Proofs.Syntax.Progress.Expressions
import Vibe.Proofs.Syntax.Recovery.Statements

/-! Reading past errors makes progress: each error stands at a token behind those of the errors
before it, or at the end, and every error has a token of its own that was used up. -/

namespace Vibe.Parser

variable {α β : Type} {n b : Nat} {p : BodyParser α} {q : Parser α} {f : α → BodyParser β}
  {value : Parser Expr} {one : BodyParser Stmt} {block : BodyParser (List Stmt)}
  {closes : Kind → Bool} {t : Token} {ts mid rest : List Token} {log log' : List Setback}
  {run : Except Error α × List Token × List Setback} {e : Error} {span : Span}

/-! ### Errors in a row -/

/-- From `ts` on reading went past the errors of the log, and `rest` is left. Each error stands at
a token behind those of the errors before it, or at the end, where all that come later stand too. -/
inductive GoesPast : List Token → List Setback → List Token → Prop
  | done {ts rest : List Token} (h : rest <:+ ts) : GoesPast ts [] rest
  | token {ts mid rest : List Token} {t : Token} {s : Setback} {log : List Setback}
      (hmid : t :: mid <:+ ts) (hspan : s.error.span = some t.span) (hahead : s.ahead <:+ t :: mid)
      (h : GoesPast mid log rest) : GoesPast ts (s :: log) rest
  | atEnd {ts rest : List Token} {s : Setback} {log : List Setback} (hspan : s.error.span = none)
      (hahead : s.ahead = []) (h : GoesPast [] log rest) : GoesPast ts (s :: log) rest

namespace GoesPast

theorem mono (h : GoesPast mid log rest) (hmid : mid <:+ ts) : GoesPast ts log rest := by
  cases h with
  | done hrest => exact .done (hrest.trans hmid)
  | token ht hspan hahead h => exact .token (ht.trans hmid) hspan hahead h
  | atEnd hspan hahead h => exact .atEnd hspan hahead h

theorem append (h : GoesPast ts log mid) (h' : GoesPast mid log' rest) :
    GoesPast ts (log ++ log') rest := by
  induction h with
  | done hmid => exact h'.mono hmid
  | token ht hspan hahead _ ih => exact .token ht hspan hahead (ih h')
  | atEnd hspan hahead _ ih => exact .atEnd hspan hahead (ih h')

/-- At each error the tokens left are the last ones of those to read. -/
theorem ahead_suffix (h : GoesPast ts log rest) : ∀ s ∈ log, s.ahead <:+ ts := by
  induction h with
  | done hrest => nofun
  | token ht hspan hahead _ ih =>
    refine List.forall_mem_cons.2 ⟨hahead.trans ht, fun s hs => ?_⟩
    exact (ih s hs).trans ((List.suffix_cons _ _).trans ht)
  | atEnd hspan hahead _ ih =>
    refine List.forall_mem_cons.2 ⟨hahead ▸ List.nil_suffix, fun s hs => ?_⟩
    exact (ih s hs).trans List.nil_suffix

/-- The errors stand at some of the tokens, in their order and each at another one, and the others
at the end. -/
theorem exists_struck (h : GoesPast ts log rest) : ∃ (struck : List Token) (k : Nat),
    struck.Sublist ts ∧
      log.map (·.error.span) = struck.map (fun t => some t.span) ++ List.replicate k none := by
  induction h with
  | done hrest => exact ⟨[], 0, List.nil_sublist _, rfl⟩
  | @token _ _ _ t _ _ ht hspan hahead _ ih =>
    obtain ⟨struck, k, hstruck, hlog⟩ := ih
    exact ⟨t :: struck, k, (hstruck.cons_cons t).trans ht.sublist, by simp [hspan, hlog]⟩
  | atEnd hspan hahead _ ih =>
    obtain ⟨struck, k, hstruck, hlog⟩ := ih
    obtain rfl := List.sublist_nil.1 hstruck
    exact ⟨[], k + 1, List.nil_sublist _, by simp [hspan, hlog, List.replicate_succ]⟩

end GoesPast

/-- Behind an error reading goes on behind its token. -/
theorem resume_suffix_of_suffix_cons (h : rest <:+ t :: mid) : resume rest <:+ mid := by
  rcases List.suffix_cons_iff.1 h with rfl | h
  · unfold resume
    split
    · exact List.nil_suffix
    · split
      · exact List.suffix_refl _
      · exact resume_suffix _
  · exact (resume_suffix rest).trans h

theorem SitedRun.goesPast (h : SitedRun ts ((.error e, rest) : Except Error α × List Token)) :
    GoesPast ts [⟨e, rest⟩] (resume rest) := by
  rcases h.site e rfl with ⟨hspan, rfl⟩ | ⟨t, mid, hspan, hleft, hmid⟩
  · exact .atEnd hspan rfl (.done (List.suffix_refl []))
  · exact .token hmid hspan hleft (.done (resume_suffix_of_suffix_cons hleft))

/-! ### Runs -/

/-- All errors that a run comes to, with the one that stopped it. -/
def noted (run : Except Error α × List Token × List Setback) : List Setback :=
  match run with
  | (.ok _, _, log) => log
  | (.error e, rest, log) => log ++ [⟨e, rest⟩]

/-- Where reading goes on behind a run. -/
def onward (run : Except Error α × List Token × List Setback) : List Token :=
  match run with
  | (.ok _, rest, _) => rest
  | (.error _, rest, _) => resume rest

theorem noted_append (r : Except Error α) (rest : List Token) (log log' : List Setback) :
    noted (r, rest, log ++ log') = log ++ noted (r, rest, log') := by
  cases r <;> simp [noted]

theorem onward_congr (r : Except Error α) (rest : List Token) (log log' : List Setback) :
    onward (r, rest, log) = onward (r, rest, log') := by
  cases r <;> rfl

theorem noted_length_le (run : Except Error α × List Token × List Setback) :
    (noted run).length ≤ run.2.2.length + 1 := by
  rcases run with ⟨e | a, rest, log⟩ <;> simp [noted]

theorem onward_length_le (run : Except Error α × List Token × List Setback) :
    (onward run).length ≤ run.2.1.length := by
  rcases run with ⟨e | a, rest, log⟩
  · exact (resume_suffix rest).length_le
  · exact Nat.le_refl _

/-- What is known of a run from `ts` on: where its errors stand, and that there are no more of those
that it went past than tokens that it took. -/
structure Tracks (ts : List Token) (run : Except Error α × List Token × List Setback) : Prop where
  goes : GoesPast ts (noted run) (onward run)
  count : run.2.2.length + run.2.1.length ≤ ts.length

/-- The run of a statement: the error that stops it has a token too, if there is one. -/
structure Progresses (ts : List Token) (run : Except Error α × List Token × List Setback) : Prop
    extends Tracks ts run where
  pays : ts ≠ [] → (noted run).length + (onward run).length ≤ ts.length

/-- It is so for all runs of the parser. -/
def Tracking (p : BodyParser α) : Prop :=
  ∀ ts, Tracks ts (p ts)

theorem Tracks.cons (h : Tracks rest run) : Progresses (t :: rest) run := by
  have hcount := h.count
  have hnoted := noted_length_le run
  have honward := onward_length_le run
  refine ⟨⟨h.goes.mono (List.suffix_cons t rest), ?_⟩, fun _ => ?_⟩
  all_goals
    rw [List.length_cons]
    omega

theorem Tracks.bind (h : Tracks ts (p ts)) (hf : ∀ a, Tracking (f a)) :
    Tracks ts ((p >>= f) ts) := by
  rcases hp : p ts with ⟨e | a, mid, log⟩ <;> rw [hp] at h
  · rw [bind_run_error hp]
    exact ⟨h.goes, h.count⟩
  · obtain ⟨hgoes, hcount⟩ := hf a mid
    have hcount' := h.count
    rw [bind_run_ok hp]
    refine ⟨?_, ?_⟩
    · rw [noted_append, onward_congr _ _ _ (f a mid).2.2]
      exact h.goes.append hgoes
    · simp only [List.length_append] at hcount' ⊢
      omega

theorem tracking_pure (a : α) : Tracking (pure a : BodyParser α) :=
  fun ts => ⟨.done (List.suffix_refl ts), Nat.le_of_eq (Nat.zero_add _)⟩

theorem Tracking.bind (h : Tracking p) (hf : ∀ a, Tracking (f a)) : Tracking (p >>= f) :=
  fun ts => (h ts).bind hf

/-- A parser that reads no bodies goes past no errors. -/
theorem progresses_lift (h : SitedRun ts (q ts)) :
    Progresses ts ((liftM q : BodyParser α) ts) := by
  have hle := h.suffix.length_le
  rw [lift_run]
  rcases hq : q ts with ⟨e | a, rest⟩ <;> rw [hq] at h hle
  · refine ⟨⟨h.goesPast, by simpa using hle⟩, fun hts => ?_⟩
    have hpos := List.length_pos_iff.2 hts
    have hshort := resume_length rest
    simp only [noted, onward, List.nil_append, List.length_singleton] at hle ⊢
    omega
  · exact ⟨⟨.done h.suffix, by simpa using hle⟩, fun _ => by simpa [noted, onward] using hle⟩

theorem tracking_lift (h : Sited q) : Tracking (liftM q : BodyParser α) :=
  fun ts => (progresses_lift (h ts)).toTracks

/-! ### Statements -/

theorem sited_terminator : Sited terminator :=
  (sited_accept _).bind fun _ => sited_pure ()

theorem sited_binding (binder : Binder) (h : Sited value) : Sited (binding binder value) := by
  refine (sited_expectName _).bind fun name => (sited_expect _ _).bind fun _ => ?_
  exact h.bind fun v => sited_terminator.bind fun _ => sited_pure _

theorem sited_sweep (h : Sited value) : Sited (sweep value) := by
  refine (sited_accept _).bind fun found => ?_
  cases found with
  | some s =>
    refine h.bind fun first => (sited_expect _ _).bind fun _ => ?_
    exact h.bind fun last => (sited_expect _ _).bind fun _ => sited_pure _
  | none =>
    refine (sited_accept _).bind fun found => ?_
    cases found with
    | some s => exact h.bind fun items => (sited_expect _ _).bind fun _ => sited_pure _
    | none => exact sited_expected _

theorem sited_giveRest (h : Sited value) : Sited (giveRest span value) := by
  intro ts
  refine SitedRun.bind ?_ fun v => sited_terminator.bind fun _ => sited_pure _
  split
  · exact .ok none ts
  · exact h.map ts

theorem sited_errorName? : Sited attemptRest.errorName? := by
  refine (sited_accept _).bind fun found => ?_
  cases found with
  | none => exact sited_pure none
  | some s =>
    exact (sited_expectName _).bind fun name => (sited_expect _ _).bind fun _ => sited_pure _

theorem tracking_skillRest (h : Tracking block) : Tracking (skillRest block) := by
  refine (tracking_lift (sited_expectName _)).bind fun name => ?_
  refine (tracking_lift (sited_expect _ _)).bind fun _ => ?_
  refine (tracking_lift (sited_listUntil _ (sited_expectName _).map _ _)).bind fun params => ?_
  exact (tracking_lift (sited_expect _ _)).bind fun _ => h.bind fun body => tracking_pure _

theorem tracking_ifRest (hx : Sited value) (hs : Tracking one) :
    Tracking (ifRest span value one) := by
  refine (tracking_lift (sited_expect _ _)).bind fun _ => (tracking_lift hx).bind fun test => ?_
  refine (tracking_lift (sited_expect _ _)).bind fun _ => hs.bind fun yes => ?_
  refine (tracking_lift (sited_accept _)).bind fun found => ?_
  cases found with
  | none => exact tracking_pure _
  | some s => exact hs.bind fun no => tracking_pure _

theorem tracking_keepRest (hx : Sited value) (hs : Tracking one) :
    Tracking (keepRest span value one) := by
  refine (tracking_lift (sited_expect _ _)).bind fun _ => (tracking_lift hx).bind fun test => ?_
  exact (tracking_lift (sited_expect _ _)).bind fun _ => hs.bind fun body => tracking_pure _

theorem tracking_eachRest (hx : Sited value) (hs : Tracking one) :
    Tracking (eachRest span value one) := by
  refine (tracking_lift (sited_expect _ _)).bind fun _ => ?_
  refine (tracking_lift (sited_expectName _)).bind fun name => ?_
  exact (tracking_lift (sited_sweep hx)).bind fun swept => hs.bind fun body => tracking_pure _

theorem tracking_attemptRest (h : Tracking block) : Tracking (attemptRest span block) := by
  refine (tracking_lift (sited_expect _ _)).bind fun _ => h.bind fun tried => ?_
  refine (tracking_lift (sited_expect _ _)).bind fun _ => ?_
  refine (tracking_lift sited_errorName?).bind fun name => ?_
  exact (tracking_lift (sited_expect _ _)).bind fun _ => h.bind fun handler => tracking_pure _

/-! ### Statements in a row -/

/-- One statement is read or failed, and reading goes on behind it. -/
theorem statements_cons {u : Token} {bound : List Token} {done : List Stmt} {errors : List Setback}
    (hclose : closes t.kind = false) :
    ∃ done', statements one closes (u :: bound) done errors (t :: ts) =
      statements one closes bound done' (errors ++ noted (one (t :: ts)))
        (onward (one (t :: ts))) := by
  rcases h : one (t :: ts) with ⟨e | s, rest, log⟩
  · exact ⟨done, by rw [statements_of_error hclose h, List.append_assoc, noted, onward]⟩
  · exact ⟨s :: done, statements_of_ok hclose h⟩

theorem statements_track (closes : Kind → Bool) (ho : ∀ ts, Progresses ts (one ts))
    (bound : List Token) (done : List Stmt) (errors : List Setback) (ts : List Token) :
    ∃ ss rest log, statements one closes bound done errors ts = (ss, rest, errors ++ log) ∧
      GoesPast ts log rest ∧ log.length + rest.length ≤ ts.length := by
  induction bound generalizing done errors ts with
  | nil => exact ⟨done.reverse, ts, [], by simp [statements], .done (List.suffix_refl ts), by simp⟩
  | cons u bound ih =>
    cases ts with
    | nil =>
      exact ⟨done.reverse, [], [], by simp [statements], .done (List.suffix_refl []), by simp⟩
    | cons t ts =>
      cases hclose : closes t.kind with
      | true =>
        refine ⟨done.reverse, t :: ts, [], ?_, .done (List.suffix_refl _), by simp⟩
        simp [statements, hclose]
      | false =>
        obtain ⟨⟨hgoes, -⟩, hpays⟩ := ho (t :: ts)
        obtain ⟨done', hstep⟩ : ∃ done', statements one closes (u :: bound) done errors (t :: ts) =
            statements one closes bound done' (errors ++ noted (one (t :: ts)))
              (onward (one (t :: ts))) := statements_cons hclose
        obtain ⟨ss, rest, log, hrun, hrest, hcount⟩ :=
          ih done' (errors ++ noted (one (t :: ts))) (onward (one (t :: ts)))
        have hfirst := hpays (List.cons_ne_nil t ts)
        refine ⟨ss, rest, noted (one (t :: ts)) ++ log, ?_, hgoes.append hrest, ?_⟩
        · rw [hstep, hrun, List.append_assoc]
        · rw [List.length_append]
          omega

theorem tracking_body (ho : ∀ ts, Progresses ts (one ts)) : Tracking (body one) := by
  intro ts
  refine Tracks.bind ?_ fun ss => (tracking_lift (sited_expect _ _)).bind fun _ => tracking_pure ss
  obtain ⟨ss, rest, log, hrun, hgoes, hcount⟩ :=
    statements_track (· = .symbol .rightBrace) ho ts [] [] ts
  simp only [hrun, List.nil_append]
  exact ⟨hgoes, hcount⟩

/-! ### All statements -/

theorem progresses_simpleStatement (hx : Sited value) (hs : Tracking one) (hb : Tracking block)
    (ts : List Token) : Progresses ts (simpleStatement value one block ts) := by
  have hexpression : Sited (do let e ← value; terminator; return Stmt.expr e) :=
    hx.bind fun e => sited_terminator.bind fun _ => sited_pure _
  unfold simpleStatement
  split
  · exact progresses_lift (hexpression [])
  · next kind span lexeme rest =>
    split
    · refine (progresses_lift (SitedRun.bind (hx rest) fun e => ?_)).toTracks.cons
      exact sited_terminator.bind fun _ => sited_pure _
    · exact (tracking_ifRest hx hs rest).cons
    · exact (tracking_keepRest hx hs rest).cons
    · exact (tracking_eachRest hx hs rest).cons
    · exact (tracking_lift (sited_giveRest hx) rest).cons
    · exact (tracking_lift (sited_terminator.bind fun _ => sited_pure _) rest).cons
    · exact (tracking_lift (sited_terminator.bind fun _ => sited_pure _) rest).cons
    · exact (tracking_attemptRest hb rest).cons
    · exact ((hb rest).bind fun body => tracking_pure _).cons
    · exact progresses_lift (hexpression _)

/-- With any room and any budget, reading a statement makes progress. -/
theorem progresses_declaration_statement (n : Nat) : ∀ b ts,
    Progresses ts (declaration n b ts) ∧ Progresses ts (Parser.statement n b ts) := by
  induction n with
  | zero =>
    exact fun b ts => ⟨progresses_lift (sited_tooDeep ts), progresses_lift (sited_tooDeep ts)⟩
  | succ n ih =>
    have hbody : ∀ b, Tracking (body (declaration n b)) :=
      fun b => tracking_body fun ts => (ih b ts).1
    intro b ts
    constructor
    · unfold declaration
      split
      · exact (tracking_lift (sited_binding .hold (sited_expression_unary b).1) _).cons
      · exact (tracking_lift (sited_binding .lock (sited_expression_unary b).1) _).cons
      · exact (tracking_skillRest (hbody b) _).cons
      · exact (ih b ts).2
    · cases b with
      | zero => exact progresses_lift (sited_tooDeep ts)
      | succ b =>
        exact progresses_simpleStatement (sited_expression_unary b).1
          (fun ts => (ih b ts).2.toTracks) (hbody b) ts

end Vibe.Parser
