import Vibe.Proofs.Syntax.Isolation.Expressions
import Vibe.Proofs.Syntax.Progress.Statements

/-! A statement without braces in front of a semicolon is read, or fails, in the same way whatever
comes behind the semicolon, and after an error reading goes on just behind the semicolon. -/

namespace Vibe

/-- Whether a token of this kind ends or divides statements: a clause contains none of these. -/
def Kind.divides : Kind → Bool
  | symbol .semicolon | symbol .leftBrace | symbol .rightBrace | keyword .elseWord | finish => true
  | _ => false

namespace Parser

variable {α β : Type} {n b : Nat} {p q : BodyParser α} {f : α → BodyParser β} {r : Parser α}
  {value : Parser Expr} {one : BodyParser Stmt} {block : BodyParser (List Stmt)}
  {t close : Token} {ts left front behind : List Token} {span : Span} {e : Error}

/-- No `else` comes next, so that an `if` before it is at its end. -/
def NoElse (behind : List Token) : Prop :=
  ∀ t ∈ behind.head?, t.kind ≠ .keyword .elseWord

/-- The parser reads and leaves the same of these tokens whatever comes behind them, without going
past an error. If it fails it has not taken them all. -/
def Alone (ts : List Token) (p : BodyParser α) : Prop :=
  ∃ r left, left <:+ ts ∧ (∀ e, r = .error e → left ≠ []) ∧
    ∀ behind, NoElse behind → p (ts ++ behind) = (r, left ++ behind, [])

theorem alone_pure (a : α) : Alone ts (pure a) :=
  ⟨.ok a, ts, List.suffix_refl ts, nofun, fun _ _ => rfl⟩

theorem Alone.bind (h : Alone ts p) (hf : ∀ a left, left <:+ ts → Alone left (f a)) :
    Alone ts (p >>= f) := by
  obtain ⟨r, left, hleft, hne, hrun⟩ := h
  cases r with
  | error e =>
    exact ⟨.error e, left, hleft, fun _ _ => hne e rfl, fun behind hbehind =>
      bind_run_error (hrun behind hbehind)⟩
  | ok a =>
    obtain ⟨r, left', hleft', hne', hrun'⟩ := hf a left hleft
    refine ⟨r, left', hleft'.trans hleft, hne', fun behind hbehind => ?_⟩
    rw [bind_run_ok (hrun behind hbehind), hrun' behind hbehind]
    rfl

theorem Alone.congr (h : Alone ts p) (hq : ∀ behind, q (ts ++ behind) = p (ts ++ behind)) :
    Alone ts q := by
  obtain ⟨r, left, hleft, hne, hrun⟩ := h
  exact ⟨r, left, hleft, hne, fun behind hbehind => (hq behind).trans (hrun behind hbehind)⟩

/-- A token in front makes no difference to what is done behind it. -/
theorem Alone.cons (h : Alone ts p) (hq : ∀ us, q (t :: us) = p us) : Alone (t :: ts) q := by
  obtain ⟨r, left, hleft, hne, hrun⟩ := h
  refine ⟨r, left, hleft.trans (List.suffix_cons t ts), hne, fun behind hbehind => ?_⟩
  rw [List.cons_append, hq, hrun behind hbehind]

/-- What stops before the semicolon leaves it to what is read behind. -/
theorem StopsAt.alone_bind {f : α → BodyParser β} (h : StopsAt close front r)
    (hf : ∀ a left, left <:+ front → Alone (left ++ [close]) (f a)) :
    Alone (front ++ [close]) (liftM r >>= f) := by
  obtain ⟨r', left, hleft, hrun⟩ := h
  have hlift (behind : List Token) : (liftM r : BodyParser α) (front ++ [close] ++ behind) =
      (r', left ++ [close] ++ behind, []) := by
    rw [lift_run, List.append_assoc, List.singleton_append, hrun]
    simp
  cases r' with
  | error e =>
    exact ⟨.error e, left ++ [close], List.suffix_append_self_iff.2 hleft, by simp,
      fun behind _ => bind_run_error (hlift behind)⟩
  | ok a =>
    obtain ⟨r, left', hleft', hne, hrun'⟩ := hf a left hleft
    refine ⟨r, left', hleft'.trans (List.suffix_append_self_iff.2 hleft), hne,
      fun behind hbehind => ?_⟩
    rw [bind_run_ok (hlift behind), hrun' behind hbehind]
    rfl

theorem lift_bind (r : Parser α) (g : α → Parser β) :
    (liftM (r >>= g) : BodyParser β) = liftM r >>= fun a => liftM (g a) := by
  funext ts
  rw [lift_run, BodyParser.bind_apply, lift_run, bind_apply]
  rcases r ts with ⟨e | a, rest⟩ <;> rfl

/-! ### Clauses -/

/-- None of the tokens divides statements. -/
def Undivided (front : List Token) : Prop :=
  ∀ t ∈ front, t.kind.divides = false

theorem Undivided.suffix (h : Undivided front) (hleft : left <:+ front) : Undivided left :=
  fun t ht => h t (hleft.subset ht)

theorem Undivided.kind_ne {kind : Kind} (h : Undivided front) (ht : t ∈ front)
    (hkind : kind.divides = true) : t.kind ≠ kind := by
  rintro rfl
  rw [h t ht] at hkind
  cases hkind

/-- The parser reads clauses alone. -/
def Solo (close : Token) (p : BodyParser α) : Prop :=
  ∀ front, Undivided front → Alone (front ++ [close]) p

theorem Stops.solo_bind {f : α → BodyParser β} (h : Stops close r) (hf : ∀ a, Solo close (f a)) :
    Solo close (liftM r >>= f) := by
  intro front hfront
  refine (h front fun t ht => hfront.kind_ne ht rfl).alone_bind fun a left hleft => ?_
  exact hf a left (hfront.suffix hleft)

theorem Stops.solo_lift_bind {g : α → Parser β} (h : Stops close r)
    (hg : ∀ a, Solo close (liftM (g a))) : Solo close (liftM (r >>= g) : BodyParser β) := by
  rw [lift_bind]
  exact h.solo_bind hg

theorem Stops.solo (h : Stops close r) : Solo close (liftM r : BodyParser α) := by
  have hpure : (liftM r : BodyParser α) = liftM r >>= pure := by
    funext ts
    rw [lift_run, BodyParser.bind_apply, lift_run]
    rcases r ts with ⟨e | a, rest⟩ <;> rfl
  rw [hpure]
  exact h.solo_bind fun a front _ => alone_pure a

variable (hclose : close.kind = .symbol .semicolon)

include hclose

theorem noElse_of_suffix (hfront : Undivided front) (hleft : left <:+ front ++ [close]) :
    NoElse left := by
  intro t ht
  rcases List.mem_append.1 (hleft.subset (List.mem_of_mem_head? ht)) with ht | ht
  · exact hfront.kind_ne ht rfl
  · rw [List.mem_singleton.1 ht, hclose]
    decide

/-- An `if` does not take up anything that comes behind the clause. -/
theorem alone_accept_else {f : Option Span → BodyParser α} (hfront : Undivided front)
    (hleft : left <:+ front ++ [close]) (hf : Alone left (f none)) :
    Alone left (liftM (accept (.keyword .elseWord)) >>= f) := by
  have hnone (behind : List Token) (hbehind : NoElse behind) :
      accept (.keyword .elseWord) (left ++ behind) = (.ok none, left ++ behind) := by
    refine accept_eq_none.2 ⟨rfl, fun t ht => ?_⟩
    cases left with
    | nil => exact hbehind t ht
    | cons u left => exact noElse_of_suffix hclose hfront hleft t ht
  obtain ⟨r, left', hleft', hne, hrun⟩ := hf
  refine ⟨r, left', hleft', hne, fun behind hbehind => ?_⟩
  rw [bind_run_ok (BodyParser.lift_eq_ok.2 ⟨hnone behind hbehind, rfl⟩), hrun behind hbehind]
  rfl

/-- What needs a brace fails before the semicolon. -/
theorem solo_open {f : Unit → BodyParser α} (what : String) :
    Solo close (liftM (expect (.symbol .leftBrace) what) >>= f) := by
  intro front hfront
  have hnone (behind : List Token) : ∀ t ∈ (front ++ [close] ++ behind).head?,
      t.kind ≠ .symbol .leftBrace := by
    intro t ht
    cases front with
    | nil =>
      cases ht
      rw [hclose]
      decide
    | cons u front =>
      cases ht
      exact hfront.kind_ne List.mem_cons_self rfl
  refine ((stops_expected what).solo front hfront).congr fun behind => bind_run_error ?_
  rw [lift_run, expect_eq_expected (hnone behind)]
  rfl

/-- The semicolon is taken if it comes next. -/
theorem solo_terminator (a : α) :
    Solo close (liftM (terminator >>= fun _ => (pure a : Parser α)) : BodyParser α) := by
  intro front hfront
  rw [lift_bind]
  refine Alone.bind ?_ fun _ left _ => alone_pure a
  cases front with
  | nil =>
    exact ⟨.ok (), [], List.nil_suffix, nofun, fun behind _ => BodyParser.lift_eq_ok.2
      ⟨bind_of_ok (p := accept _) (if_pos hclose), rfl⟩⟩
  | cons t front =>
    have ht : t.kind ≠ .symbol .semicolon := hfront.kind_ne List.mem_cons_self rfl
    exact ⟨.ok (), t :: front ++ [close], List.suffix_refl _, nofun, fun behind _ =>
      BodyParser.lift_eq_ok.2 ⟨bind_of_ok (p := accept _) (if_neg ht), rfl⟩⟩

/-! ### Statements -/

section

variable (hx : Stops close value)

include hx

theorem solo_value (make : Expr → Stmt) : Solo close
    (liftM (do let e ← value; terminator; return make e : Parser Stmt) : BodyParser Stmt) :=
  hx.solo_lift_bind fun e => solo_terminator hclose (make e)

theorem solo_binding (binder : Binder) :
    Solo close (liftM (binding binder value) : BodyParser Stmt) := by
  refine (stops_expectName hclose _).solo_lift_bind fun name => ?_
  exact (stops_expect hclose (by decide) _).solo_lift_bind fun _ => solo_value hclose hx _

theorem stops_sweep : Stops close (sweep value) := by
  refine (stops_accept hclose (by decide)).bind fun found => ?_
  cases found with
  | some s =>
    refine hx.bind fun first => (stops_expect hclose (by decide) _).bind fun _ => ?_
    exact hx.bind fun last => (stops_expect hclose (by decide) _).bind fun _ => stops_pure _
  | none =>
    refine (stops_accept hclose (by decide)).bind fun found => ?_
    cases found with
    | some s =>
      exact hx.bind fun items => (stops_expect hclose (by decide) _).bind fun _ => stops_pure _
    | none => exact stops_expected _

theorem solo_giveRest : Solo close (liftM (giveRest span value) : BodyParser Stmt) := by
  intro front hfront
  cases front with
  | nil =>
    refine (solo_terminator hclose (Stmt.give none span) [] hfront).congr fun behind => ?_
    have hnext : nextIs (.symbol .semicolon) ([] ++ [close] ++ behind) = true :=
      decide_eq_true hclose
    rw [lift_run, lift_run, giveRest, hnext, Bool.or_true, Bool.true_or, if_pos rfl]
    rfl
  | cons t front =>
    have hsome : Solo close (liftM (do
        let v ← some <$> value
        terminator
        return .give v span : Parser Stmt) : BodyParser Stmt) :=
      (Stops.map hx).solo_lift_bind fun v => solo_terminator hclose _
    refine (hsome (t :: front) hfront).congr fun behind => ?_
    have hnext {sign : Symbol} (hsign : (Kind.symbol sign).divides = true) :
        nextIs (.symbol sign) (t :: front ++ [close] ++ behind) = false :=
      decide_eq_false (hfront.kind_ne List.mem_cons_self hsign)
    rw [lift_run, lift_run, giveRest, hnext rfl, hnext rfl]
    rfl

omit hx in
theorem solo_skillRest : Solo close (skillRest block) := by
  have hname : Stops close (Prod.fst <$> expectName "expected parameter name") :=
    (stops_expectName hclose _).map
  refine (stops_expectName hclose _).solo_bind fun name => ?_
  refine (stops_expect hclose (by decide) _).solo_bind fun _ => ?_
  exact (stops_listUntil hclose (by decide) hname _ _).solo_bind fun params => solo_open hclose _

omit hx in
theorem solo_attemptRest : Solo close (attemptRest span block) :=
  solo_open hclose _

theorem solo_ifRest (hs : Solo close one) : Solo close (ifRest span value one) := by
  refine (stops_expect hclose (by decide) _).solo_bind fun _ => hx.solo_bind fun test => ?_
  refine (stops_expect hclose (by decide) _).solo_bind fun _ front hfront => ?_
  refine (hs front hfront).bind fun yes left hleft => ?_
  exact alone_accept_else hclose hfront hleft (alone_pure _)

theorem solo_keepRest (hs : Solo close one) : Solo close (keepRest span value one) := by
  refine (stops_expect hclose (by decide) _).solo_bind fun _ => hx.solo_bind fun test => ?_
  refine (stops_expect hclose (by decide) _).solo_bind fun _ front hfront => ?_
  exact (hs front hfront).bind fun body _ _ => alone_pure _

theorem solo_eachRest (hs : Solo close one) : Solo close (eachRest span value one) := by
  refine (stops_expect hclose (by decide) _).solo_bind fun _ => ?_
  refine (stops_expectName hclose _).solo_bind fun name => ?_
  refine (stops_sweep hclose hx).solo_bind fun swept front hfront => ?_
  exact (hs front hfront).bind fun body _ _ => alone_pure _

theorem solo_simpleStatement (hs : Solo close one) :
    Solo close (simpleStatement value one block) := by
  intro front hfront
  have hexpression := solo_value hclose hx .expr front hfront
  cases front with
  | nil =>
    obtain ⟨kind, span, lexeme⟩ := close
    obtain rfl : kind = .symbol .semicolon := hclose
    exact hexpression.congr fun behind => rfl
  | cons t front =>
    have hrest : Undivided front := hfront.suffix (List.suffix_cons t front)
    obtain ⟨kind, span, lexeme⟩ := t
    cases kind with
    | keyword word =>
      cases word with
      | say => exact .cons (solo_value hclose hx _ front hrest) fun us => rfl
      | ifWord => exact .cons (solo_ifRest hclose hx hs front hrest) fun us => rfl
      | keep => exact .cons (solo_keepRest hclose hx hs front hrest) fun us => rfl
      | each => exact .cons (solo_eachRest hclose hx hs front hrest) fun us => rfl
      | give => exact .cons (solo_giveRest hclose hx front hrest) fun us => rfl
      | stop | skip => exact .cons (solo_terminator hclose _ front hrest) fun us => rfl
      | tryWord => exact .cons (solo_attemptRest hclose front hrest) fun us => rfl
      | _ => exact hexpression.congr fun behind => rfl
    | symbol sign =>
      cases sign with
      | leftBrace => exact absurd rfl (hfront.kind_ne List.mem_cons_self rfl)
      | _ => exact hexpression.congr fun behind => rfl
    | _ => exact hexpression.congr fun behind => rfl

end

/-- With any room and any budget, clauses are read alone. -/
theorem solo_declaration_statement (n : Nat) : ∀ b,
    Solo close (declaration n b) ∧ Solo close (Parser.statement n b) := by
  induction n with
  | zero => exact fun b => ⟨stops_tooDeep.solo, stops_tooDeep.solo⟩
  | succ n ih =>
    intro b
    have hexpression := (stops_expression_unary hclose b).1
    constructor
    · intro front hfront
      have hstatement := (ih b).2 front hfront
      cases front with
      | nil =>
        obtain ⟨kind, span, lexeme⟩ := close
        obtain rfl : kind = .symbol .semicolon := hclose
        exact hstatement.congr fun behind => rfl
      | cons t front =>
        have hrest : Undivided front := hfront.suffix (List.suffix_cons t front)
        obtain ⟨kind, span, lexeme⟩ := t
        cases kind with
        | keyword word =>
          cases word with
          | hold => exact .cons (solo_binding hclose hexpression .hold front hrest) fun us => rfl
          | lock => exact .cons (solo_binding hclose hexpression .lock front hrest) fun us => rfl
          | skill => exact .cons (solo_skillRest hclose front hrest) fun us => rfl
          | _ => exact hstatement.congr fun behind => rfl
        | _ => exact hstatement.congr fun behind => rfl
    · cases b with
      | zero => exact stops_tooDeep.solo
      | succ b => exact solo_simpleStatement hclose (stops_expression_unary hclose b).1 (ih b).2

/-! ### Statements in a row -/

omit hclose

/-- All statements that tokens hold, with the errors. -/
def readAll (one : BodyParser Stmt) (ts : List Token) : List Stmt × List Token × List Setback :=
  statements one (fun _ => false) ts [] [] ts

section

variable {rest : List Token} {log : List Setback} {s : Stmt} (hone : ∀ ts, Strides ts (one ts))

include hone

/-- Bounds that are long enough make no difference. -/
theorem statements_bound {bound bound' : List Token} (done : List Stmt) (errors : List Setback)
    (hbound : ts.length ≤ bound.length) (hbound' : ts.length ≤ bound'.length) :
    statements one (fun _ => false) bound done errors ts =
      statements one (fun _ => false) bound' done errors ts := by
  induction bound generalizing bound' done errors ts with
  | nil =>
    obtain rfl : ts = [] := by simpa using hbound
    cases bound' <;> rfl
  | cons u bound ih =>
    cases ts with
    | nil => cases bound' <;> rfl
    | cons t ts =>
      obtain ⟨u', bound', rfl⟩ :=
        List.exists_cons_of_length_pos (Nat.lt_of_lt_of_le (Nat.succ_pos _) hbound')
      simp only [List.length_cons, Nat.add_le_add_iff_right] at hbound hbound'
      obtain ⟨hkeeps, hmoves⟩ := hone (t :: ts)
      have hle := hkeeps.length_le
      rcases hrun : one (t :: ts) with ⟨e | s, rest, log⟩ <;> rw [hrun] at hle hmoves
      · have hshort := resume_length rest
        simp only [List.length_cons] at hle
        rw [statements_of_error rfl hrun, statements_of_error rfl hrun]
        exact ih _ _ (by omega) (by omega)
      · have hshort : rest.length < ts.length + 1 := hmoves s rfl
        rw [statements_of_ok rfl hrun, statements_of_ok rfl hrun]
        exact ih _ _ (by omega) (by omega)

theorem statements_eq_readAll {bound : List Token} (done : List Stmt) (errors : List Setback)
    (hbound : ts.length ≤ bound.length) : statements one (fun _ => false) bound done errors ts =
      (done.reverse ++ (readAll one ts).1, (readAll one ts).2.1,
        errors ++ (readAll one ts).2.2) := by
  rw [statements_done, readAll, statements_bound hone [] [] hbound (Nat.le_refl _)]

theorem readAll_of_ok (hts : ts ≠ []) (hrun : one ts = (.ok s, rest, log)) : readAll one ts =
    (s :: (readAll one rest).1, (readAll one rest).2.1, log ++ (readAll one rest).2.2) := by
  obtain ⟨t, ts, rfl⟩ := List.exists_cons_of_ne_nil hts
  have hshort : rest.length < ts.length + 1 := by
    simpa [hrun] using (hone (t :: ts)).moves s (by rw [hrun])
  rw [readAll, statements_of_ok rfl hrun, statements_eq_readAll hone _ _ (by omega)]
  rfl

theorem readAll_of_error (hts : ts ≠ []) (hrun : one ts = (.error e, rest, log)) :
    readAll one ts = ((readAll one (resume rest)).1, (readAll one (resume rest)).2.1,
      log ++ [⟨e, rest⟩] ++ (readAll one (resume rest)).2.2) := by
  obtain ⟨t, ts, rfl⟩ := List.exists_cons_of_ne_nil hts
  have hle : rest.length ≤ ts.length + 1 := by simpa [hrun] using (hone (t :: ts)).keeps.length_le
  have hshort := resume_length rest
  rw [readAll, statements_of_error rfl hrun, statements_eq_readAll hone _ _ (by omega)]
  rfl

end

theorem mem_tail_of_suffix (hleft : left <:+ front) (ht : t ∈ left.tail) : t ∈ front.tail := by
  cases front with
  | nil =>
    obtain rfl := List.suffix_nil.1 hleft
    cases ht
  | cons u front =>
    rcases List.suffix_cons_iff.1 hleft with rfl | hleft
    · exact ht
    · exact hleft.subset (List.mem_of_mem_tail ht)

/-- An error in front of tokens that are left has a place. -/
theorem exists_span (hprogress : Progresses ts (one ts)) (hrun : one ts = (.error e, left, []))
    (hleft : left ≠ []) : ∃ s, e.span = some s := by
  have hgoes := hprogress.goes
  rw [hrun] at hgoes
  cases hgoes with
  | token _ hspan => exact ⟨_, hspan⟩
  | atEnd _ hahead => exact absurd hahead hleft

include hclose

/-- Behind an error reading goes on at the end of the clause. -/
theorem resume_clause (hfront : Undivided front)
    (hlater : ∀ t ∈ front.tail, t.kind.startsStatement = false) :
    resume (front ++ [close] ++ behind) = behind := by
  induction front with
  | nil => cases behind <;> simp [resume, hclose]
  | cons t front ih =>
    have ht : t.kind ≠ .symbol .semicolon := hfront.kind_ne List.mem_cons_self rfl
    have hrest := ih (hfront.suffix (List.suffix_cons t front)) fun u hu =>
      hlater u (List.mem_of_mem_tail hu)
    cases front with
    | nil =>
      have hsign : close.kind.startsStatement = false := by rw [hclose]; rfl
      simpa [resume, ht, hsign] using hrest
    | cons u front => simpa [resume, ht, hlater u List.mem_cons_self] using hrest

/-- From anywhere in a clause on the same statements and errors are read whatever comes behind it,
with one error at most, and then what comes behind it. -/
theorem readAll_clause (hfront : Undivided front)
    (hlater : ∀ t ∈ front.tail, t.kind.startsStatement = false) (hsolo : Solo close one)
    (hone : ∀ ts, Strides ts (one ts)) (hprogress : ∀ ts, Progresses ts (one ts))
    (hts : ts <:+ front ++ [close]) : ∃ (ss : List Stmt) (es : List Error), es.length ≤ 1 ∧
      (∀ e ∈ es, ∃ s, e.span = some s) ∧ ∀ behind, NoElse behind →
        (readAll one (ts ++ behind)).1 = ss ++ (readAll one behind).1 ∧
        (readAll one (ts ++ behind)).2.2.map Setback.error =
          es ++ (readAll one behind).2.2.map Setback.error := by
  induction hlen : ts.length using Nat.strongRecOn generalizing ts with
  | ind n ih =>
    subst hlen
    rcases List.suffix_concat_iff.1 hts with rfl | ⟨mid, rfl, hmid⟩
    · exact ⟨[], [], Nat.zero_le 1, nofun, fun behind _ => ⟨rfl, rfl⟩⟩
    obtain ⟨r, left, hleft, hne, hrun⟩ := hsolo mid (hfront.suffix hmid)
    have hself := hrun [] nofun
    rw [List.append_nil, List.append_nil] at hself
    cases r with
    | error e =>
      obtain ⟨mid', rfl, hmid'⟩ := (List.suffix_concat_iff.1 hleft).resolve_left (hne e rfl)
      have hspan := exists_span (hprogress _) hself (hne e rfl)
      refine ⟨[], [e], Nat.le_refl 1, by simpa using hspan, fun behind hbehind => ?_⟩
      have hresume : resume (mid' ++ [close] ++ behind) = behind :=
        resume_clause hclose (hfront.suffix (hmid'.trans hmid)) fun t ht =>
          hlater t (mem_tail_of_suffix (hmid'.trans hmid) ht)
      rw [readAll_of_error hone (by simp) (hrun behind hbehind), hresume]
      simp
    | ok s =>
      have hshort := (hone _).moves s (by rw [hself])
      rw [hself] at hshort
      obtain ⟨ss, es, hes, hspan, hrest⟩ := ih left.length hshort (hleft.trans hts) rfl
      refine ⟨s :: ss, es, hes, hspan, fun behind hbehind => ?_⟩
      obtain ⟨hstatements, herrors⟩ := hrest behind hbehind
      rw [readAll_of_ok hone (by simp) (hrun behind hbehind)]
      simp [hstatements, herrors]

end Parser

end Vibe
