import Vibe.Proofs.Syntax.Completeness.Expressions

/-! Every statement of the one shape is read back from its written form, if its nesting is within
the budget. -/

namespace Vibe.Parser

variable {n b d room : Nat} {declares : Bool} {expression : Parser Expr}
  {statement one : BodyParser Stmt} {block : BodyParser (List Stmt)} {closes : Kind → Bool}
  {span : Span} {kind : Kind} {e test value : Expr} {s yes no : Stmt} {ss done : List Stmt}
  {name : String} {t : Token} {us ts rest bound : List Token}

/-- What is written behind each statement that may be followed by a semicolon. -/
abbrev semicolon : List Mark := [Mark.sign .semicolon]

/-- The parser reads back every statement that takes at most half of `room` and nests at most `d`
levels, declarations only if it may. -/
def CompleteStmt (declares : Bool) (room d : Nat) (p : BodyParser Stmt) : Prop :=
  ∀ ⦃s : Stmt⦄ ⦃us rest : List Token⦄, s.Canonical →
    (s.isDeclaration = true → declares = true) → s.depth ≤ d → 2 * us.length ≤ room →
    Spells us (s.marks semicolon) →
    (s.wantsElse = true → ∀ t ∈ rest.head?, t.kind ≠ .keyword .elseWord) →
    ∃ s', p (us ++ rest) = (.ok s', rest, []) ∧ s'.unplaced = s.unplaced

/-- The same for the statements of a body, up to the closing brace and with it. -/
def CompleteBody (room d : Nat) (p : BodyParser (List Stmt)) : Prop :=
  ∀ ⦃ss : List Stmt⦄ ⦃us rest : List Token⦄, (∀ s ∈ ss, s.Canonical) → Stmt.deepest ss ≤ d →
    2 * us.length ≤ room → Spells us (bodyMarks (ss.map (Stmt.marks semicolon))) →
    ∃ ss', p (us ++ rest) = (.ok ss', rest, []) ∧
      ss'.map Stmt.unplaced = ss.map Stmt.unplaced

/-- What a written statement begins with ends no body and no branch; only a declaration begins
with the keyword of one. -/
theorem stmt_head_marks (s : Stmt) (close : List Mark) : ∃ m ms, s.marks close = m :: ms ∧
    m.kind ≠ .keyword .elseWord ∧ m.kind ≠ .symbol .rightBrace ∧
    (s.isDeclaration = false →
      m.kind ≠ .keyword .hold ∧ m.kind ≠ .keyword .lock ∧ m.kind ≠ .keyword .skill) := by
  cases s with
  | expr e =>
    obtain ⟨m, ms, hm, hk⟩ := e.head_marks
    rw [Stmt.marks, hm]
    refine ⟨m, _, rfl, ?_, ?_, fun _ => ⟨?_, ?_, ?_⟩⟩ <;> intro h <;>
      simp [h, Kind.startsExpr] at hk
  | give value => cases value <;> exact ⟨_, _, rfl, by simp⟩
  | bind binder => exact ⟨_, _, rfl, by cases binder <;> simp [Mark.word, Stmt.isDeclaration,
      Binder.keyword]⟩
  | skill => exact ⟨_, _, rfl, by simp [Mark.word, Stmt.isDeclaration]⟩
  | _ => exact ⟨_, _, rfl, by simp⟩

/-! ### Lists of statements -/

/-- No `else` follows a statement where another statement or the end of the body follows. -/
theorem statements_head_ne_else (hclose : ∀ kind, closes kind = true → kind = .symbol .rightBrace)
    (hrest : ∀ t ∈ rest.head?, closes t.kind = true)
    (hus : Spells us (ss.map (Stmt.marks semicolon)).flatten) :
    ∀ t ∈ (us ++ rest).head?, t.kind ≠ .keyword .elseWord := by
  intro t ht
  cases ss with
  | nil =>
    obtain rfl : us = [] := by simpa using hus
    rw [hclose _ (hrest t ht)]
    simp
  | cons s ss =>
    obtain ⟨m, ms, hm, hk, -⟩ := stmt_head_marks s semicolon
    rw [List.map_cons, List.flatten_cons, hm] at hus
    obtain ⟨u, us, rfl, hu, -⟩ := Spells.cons_iff.1 hus
    obtain rfl : u = t := by simpa using ht
    rwa [hu]

theorem statements_complete (ho : CompleteStmt true room d one)
    (hclose : ∀ kind, closes kind = true → kind = .symbol .rightBrace)
    (hrest : ∀ t ∈ rest.head?, closes t.kind = true)
    (hss : ∀ s ∈ ss, s.Canonical) (hd : Stmt.deepest ss ≤ d) (hroom : 2 * us.length ≤ room)
    (hb : us.length ≤ bound.length)
    (hus : Spells us (ss.map (Stmt.marks semicolon)).flatten) :
    ∃ read, statements one closes bound done [] (us ++ rest) = (done.reverse ++ read, rest, []) ∧
      read.map Stmt.unplaced = ss.map Stmt.unplaced := by
  induction ss generalizing us bound done with
  | nil =>
    obtain rfl : us = [] := by simpa using hus
    refine ⟨[], ?_, rfl⟩
    cases bound with
    | nil => simp [statements]
    | cons _ bound =>
      cases rest with
      | nil => simp [statements]
      | cons t rest =>
        have ht := hrest t rfl
        simp [statements, ht]
  | cons s ss ih =>
    rw [List.map_cons, List.flatten_cons, Spells.append_iff] at hus
    obtain ⟨u₁, u₂, rfl, hu₁, hu₂⟩ := hus
    rw [Stmt.deepest] at hd
    simp only [List.length_append] at hroom hb
    have helse := statements_head_ne_else hclose hrest hu₂
    obtain ⟨s', hread, hsame⟩ := ho (hss s (by simp)) (fun _ => rfl) (by omega) (by omega) hu₁
      (fun _ => helse)
    obtain ⟨m, ms, hm, -, hk, -⟩ := stmt_head_marks s semicolon
    rw [hm] at hu₁
    obtain ⟨u, u₁, rfl, hu, -⟩ := Spells.cons_iff.1 hu₁
    have hgoes : closes u.kind = false := by
      by_contra h
      exact hk (hu ▸ hclose _ (by simpa using h))
    cases bound with
    | nil => simp at hb
    | cons _ bound =>
      simp only [List.length_cons] at hb
      obtain ⟨read, hreads, hsames⟩ : ∃ read, statements one closes bound (s' :: done) []
          (u₂ ++ rest) = ((s' :: done).reverse ++ read, rest, []) ∧
          read.map Stmt.unplaced = ss.map Stmt.unplaced :=
        ih (fun s hs => hss s (by simp [hs])) (by omega) (by omega) (by omega) hu₂
      refine ⟨s' :: read, ?_, by simp [hsame, hsames]⟩
      rw [List.cons_append] at hread
      rw [List.append_assoc, List.cons_append, statements]
      simp only [hgoes, hread]
      exact hreads.trans (by simp)

theorem complete_body (ho : CompleteStmt true room d one) : CompleteBody room d (body one) := by
  intro ss us rest hss hd hroom hus
  simp only [bodyMarks, Spells.append_iff, Spells.cons_iff, Spells.nil_iff] at hus
  obtain ⟨us, _, rfl, hus, close, _, rfl, hclose, rfl⟩ := hus
  simp only [List.length_append, List.length_cons] at hroom
  rw [List.append_assoc, List.singleton_append]
  have hrest : ∀ t ∈ (close :: rest).head?, decide (t.kind = .symbol .rightBrace) = true := by
    rintro _ ⟨⟩
    simp [hclose, Mark.sign]
  have hb : us.length ≤ (us ++ close :: rest).length := by simp
  obtain ⟨read, hread, hsame⟩ : ∃ read, statements one (· = .symbol .rightBrace)
      (us ++ close :: rest) [] [] (us ++ close :: rest) = ([].reverse ++ read, close :: rest, []) ∧
      read.map Stmt.unplaced = ss.map Stmt.unplaced :=
    statements_complete ho (by simp) hrest hss hd (by omega) hb hus
  refine ⟨read, ?_, hsame⟩
  unfold body
  refine BodyParser.bind_eq_ok.2 ⟨read, close :: rest, by simp [hread], ?_⟩
  exact BodyParser.bind_lift_eq_ok.2 ⟨_, _, expect_of_kind hclose, rfl⟩

/-! ### Parts of statements -/

theorem terminator_of_semicolon (ht : t.kind = .symbol .semicolon) :
    terminator (t :: rest) = (.ok (), rest) := by
  have hsome : accept (.symbol .semicolon) (t :: rest) = (.ok (some t.span), rest) :=
    accept_eq_some.2 ⟨t, rfl, ht, rfl⟩
  exact bind_eq_ok.2 ⟨_, _, hsome, rfl⟩

/-- An expression and the semicolon behind it. -/
theorem terminated_complete (rest : List Token) (hx : Complete 0 d expression)
    (he : e.Canonical) (hd : e.depth < d) (hus : Spells us (e.marks ++ semicolon)) :
    ∃ e' mid, expression (us ++ rest) = (.ok e', mid) ∧ terminator mid = (.ok (), rest) ∧
      e'.unplaced = e.unplaced := by
  simp only [Spells.append_iff, Spells.cons_iff, Spells.nil_iff] at hus
  obtain ⟨us, _, rfl, hus, t, _, rfl, ht, rfl⟩ := hus
  have hends : Ends 0 (t :: rest) := .of_reach (by rw [ht]; rfl)
  obtain ⟨e', hread, hsame⟩ := hx he (Nat.zero_le _) hd hus hends fun _ => hends
  refine ⟨e', t :: rest, ?_, terminator_of_semicolon ht, hsame⟩
  rwa [List.append_assoc]

/-- An expression and a token behind it that goes on with no expression. -/
theorem expression_complete (rest : List Token) (hx : Complete 0 d expression)
    (he : e.Canonical) (hd : e.depth < d) (hus : Spells us e.marks) (ht : t.kind.reach = none) :
    ∃ e', expression (us ++ t :: rest) = (.ok e', t :: rest) ∧ e'.unplaced = e.unplaced :=
  hx he (Nat.zero_le _) hd hus (.of_reach ht) fun _ => .of_reach ht

/-- An expression in parentheses. -/
theorem condition_complete (rest : List Token) (hx : Complete 0 d expression) (he : test.Canonical)
    (hd : test.depth < d) (hus : Spells us (conditionMarks test)) : ∃ test' mid mid',
      (∀ what, expect (.symbol .leftParen) what (us ++ rest) = (.ok (), mid)) ∧
      expression mid = (.ok test', mid') ∧
      (∀ what, expect (.symbol .rightParen) what mid' = (.ok (), rest)) ∧
      test'.unplaced = test.unplaced := by
  simp only [conditionMarks, List.cons_append, Spells.append_iff, Spells.cons_iff,
    Spells.nil_iff] at hus
  obtain ⟨t, _, rfl, ht, us, _, rfl, hus, t', _, rfl, ht', rfl⟩ := hus
  obtain ⟨test', hread, hsame⟩ :=
    expression_complete rest hx he hd hus (show t'.kind.reach = none by rw [ht']; rfl)
  refine ⟨test', us ++ t' :: rest, t' :: rest, fun _ => ?_, hread, fun _ => expect_of_kind ht',
    hsame⟩
  simpa [Mark.sign] using expect_of_kind ht

theorem binding_complete (binder : Binder) (rest : List Token) (hx : Complete 0 d expression)
    (hv : value.Canonical) (hd : value.depth < d)
    (hus : Spells us (⟨.ident name, span⟩ :: Mark.sign .equal :: value.marks ++ semicolon)) :
    ∃ s', binding binder expression (us ++ rest) = (.ok s', rest) ∧
      s'.unplaced = (Stmt.bind binder name value span).unplaced := by
  simp only [List.cons_append, Spells.cons_iff] at hus
  obtain ⟨t, _, rfl, ht, t', us, rfl, ht', hus⟩ := hus
  obtain ⟨value', mid, hread, hend, hsame⟩ := terminated_complete rest hx hv hd hus
  refine ⟨.bind binder name value' t.span, ?_, by rw [Stmt.unplaced, Stmt.unplaced, hsame]⟩
  refine bind_eq_ok.2 ⟨(name, t.span), _, expectName_eq_ok.2 ⟨t, rfl, ht, rfl⟩, ?_⟩
  refine bind_eq_ok.2 ⟨(), _, expect_of_kind ht', ?_⟩
  exact bind_eq_ok.2 ⟨_, _, hread, bind_eq_ok.2 ⟨_, _, hend, rfl⟩⟩

theorem parameters_complete {params : List String} {what items what' : String}
    (count : params.length ≤ 255) (ht : t.kind = .symbol .rightParen)
    (hus : Spells us (Mark.listed (params.map fun p => [Mark.name p]))) :
    listUntil .rightParen (Prod.fst <$> expectName what) items what' (us ++ t :: rest) =
      (.ok params, rest) := by
  have hparam : ∀ ⦃p : String⦄ ⦃us rest : List Token⦄, True → Spells us [Mark.name p] →
      Ends 0 rest → ∃ p', (Prod.fst <$> expectName what) (us ++ rest) = (.ok p', rest) ∧
        id p' = id p := by
    intro p us rest _ hus _
    obtain ⟨t, us, rfl, ht, hnil⟩ := Spells.cons_iff.1 hus
    obtain rfl := Spells.nil_iff.1 hnil
    exact ⟨p, map_eq_ok.2 ⟨(p, t.span), expectName_eq_ok.2 ⟨t, rfl, ht, rfl⟩, rfl⟩, rfl⟩
  obtain ⟨params', hread, hsame⟩ := listUntil_complete hparam
    (fun p _ => ⟨_, _, rfl, by simp [Mark.name]⟩) (by simp) rfl count (by simp) hus ht
  obtain rfl : params' = params := by simpa using hsame
  exact hread

theorem skillRest_complete {params : List String} (hb : CompleteBody room d block)
    (count : params.length ≤ 255) (hss : ∀ s ∈ ss, s.Canonical) (hd : Stmt.deepest ss ≤ d)
    (hroom : 2 * us.length ≤ room)
    (hus : Spells us (⟨.ident name, span⟩ :: Mark.sign .leftParen ::
      Mark.listed (params.map fun p => [Mark.name p]) ++ Mark.sign .rightParen ::
        Mark.sign .leftBrace :: bodyMarks (ss.map (Stmt.marks semicolon)))) :
    ∃ s', skillRest block (us ++ rest) = (.ok s', rest, []) ∧
      s'.unplaced = (Stmt.skill name params ss span).unplaced := by
  simp only [List.cons_append, Spells.append_iff, Spells.cons_iff] at hus
  obtain ⟨t, _, rfl, ht, t', _, rfl, ht', up, _, rfl, hup, close, _, rfl, hclose, brace, us, rfl,
    hbrace, hus⟩ := hus
  simp only [List.length_append, List.length_cons] at hroom
  obtain ⟨ss', hread, hsame⟩ := hb hss hd (by omega) hus
  refine ⟨.skill name params ss' t.span, ?_, ?_⟩
  · simp only [List.cons_append, List.append_assoc]
    have hname : ∀ what, expectName what (t :: t' :: (up ++ close :: brace :: (us ++ rest))) =
        (.ok (name, t.span), t' :: (up ++ close :: brace :: (us ++ rest))) :=
      fun _ => expectName_eq_ok.2 ⟨t, rfl, ht, rfl⟩
    refine BodyParser.bind_lift_eq_ok.2 ⟨_, _, hname _, ?_⟩
    refine BodyParser.bind_lift_eq_ok.2 ⟨(), _, expect_of_kind ht', ?_⟩
    refine BodyParser.bind_lift_eq_ok.2 ⟨_, _, parameters_complete count hclose hup, ?_⟩
    refine BodyParser.bind_lift_eq_ok.2 ⟨(), _, expect_of_kind hbrace, ?_⟩
    exact BodyParser.bind_eq_ok.2 ⟨_, _, hread, rfl⟩
  · simp only [Stmt.unplaced, Stmt.unplacedEach_eq_map, hsame]

/-! ### Branches and loops -/

section Branches

-- The statements in a branch or a loop have what the whole takes, less the token it begins with.
variable (hx : Complete 0 d expression) (hs : CompleteStmt false room d statement)
  (ht : test.Canonical) (hdt : test.depth < d)

include hx hs ht hdt

theorem ifThen_complete (hy : yes.Canonical) (dy : yes.isDeclaration = false) (hdy : yes.depth ≤ d)
    (hroom : 2 * us.length ≤ room)
    (hus : Spells us (conditionMarks test ++ yes.marks semicolon))
    (helse : ∀ t ∈ rest.head?, t.kind ≠ .keyword .elseWord) :
    ∃ s', ifRest span expression statement (us ++ rest) = (.ok s', rest, []) ∧
      s'.unplaced = (Stmt.ifThen test yes span).unplaced := by
  obtain ⟨ut, uy, rfl, hut, huy⟩ := Spells.append_iff.1 hus
  simp only [List.length_append] at hroom
  obtain ⟨test', mid, mid', hopen, hread, hclose, hsame⟩ :=
    condition_complete (uy ++ rest) hx ht hdt hut
  obtain ⟨yes', hread', hsame'⟩ := hs hy (by simp [dy]) hdy (by omega) huy fun _ => helse
  have hnone : accept (.keyword .elseWord) rest = (.ok none, rest) :=
    accept_eq_none.2 ⟨rfl, helse⟩
  refine ⟨.ifThen test' yes' span, ?_, by rw [Stmt.unplaced, Stmt.unplaced, hsame, hsame']⟩
  rw [List.append_assoc]
  refine BodyParser.bind_lift_eq_ok.2 ⟨(), _, hopen _, ?_⟩
  refine BodyParser.bind_lift_eq_ok.2 ⟨_, _, hread, ?_⟩
  refine BodyParser.bind_lift_eq_ok.2 ⟨(), _, hclose _, ?_⟩
  refine BodyParser.bind_eq_ok.2 ⟨_, _, hread', ?_⟩
  exact BodyParser.bind_lift_eq_ok.2 ⟨_, _, hnone, rfl⟩

theorem ifElse_complete (hy : yes.Canonical) (dy : yes.isDeclaration = false)
    (ey : yes.wantsElse = false) (hdy : yes.depth ≤ d) (hn : no.Canonical)
    (dn : no.isDeclaration = false) (hdn : no.depth ≤ d) (hroom : 2 * us.length ≤ room)
    (hus : Spells us (conditionMarks test ++ yes.marks semicolon ++
      Mark.word .elseWord :: no.marks semicolon))
    (helse : no.wantsElse = true → ∀ t ∈ rest.head?, t.kind ≠ .keyword .elseWord) :
    ∃ s', ifRest span expression statement (us ++ rest) = (.ok s', rest, []) ∧
      s'.unplaced = (Stmt.ifElse test yes no span).unplaced := by
  simp only [Spells.append_iff, Spells.cons_iff] at hus
  obtain ⟨_, _, rfl, ⟨ut, uy, rfl, hut, huy⟩, other, un, rfl, hother, hun⟩ := hus
  simp only [List.length_append, List.length_cons] at hroom
  obtain ⟨test', mid, mid', hopen, hread, hclose, hsame⟩ :=
    condition_complete (uy ++ (other :: un ++ rest)) hx ht hdt hut
  obtain ⟨yes', hread', hsame'⟩ := hs hy (by simp [dy]) hdy (by omega) huy
    (show _ → ∀ t ∈ (other :: un ++ rest).head?, _ by simp [ey])
  obtain ⟨no', hread'', hsame''⟩ := hs hn (by simp [dn]) hdn (by omega) hun helse
  have hsome : accept (.keyword .elseWord) (other :: un ++ rest) =
      (.ok (some other.span), un ++ rest) := accept_eq_some.2 ⟨other, rfl, hother, rfl⟩
  refine ⟨.ifElse test' yes' no' span, ?_, ?_⟩
  · simp only [List.append_assoc] at hopen hread' ⊢
    refine BodyParser.bind_lift_eq_ok.2 ⟨(), _, hopen _, ?_⟩
    refine BodyParser.bind_lift_eq_ok.2 ⟨_, _, hread, ?_⟩
    refine BodyParser.bind_lift_eq_ok.2 ⟨(), _, hclose _, ?_⟩
    refine BodyParser.bind_eq_ok.2 ⟨_, _, hread', ?_⟩
    refine BodyParser.bind_lift_eq_ok.2 ⟨_, _, hsome, ?_⟩
    exact BodyParser.bind_eq_ok.2 ⟨_, _, hread'', rfl⟩
  · rw [Stmt.unplaced, Stmt.unplaced, hsame, hsame', hsame'']

theorem keepRest_complete (hy : yes.Canonical) (dy : yes.isDeclaration = false)
    (hdy : yes.depth ≤ d) (hroom : 2 * us.length ≤ room)
    (hus : Spells us (conditionMarks test ++ yes.marks semicolon))
    (helse : yes.wantsElse = true → ∀ t ∈ rest.head?, t.kind ≠ .keyword .elseWord) :
    ∃ s', keepRest span expression statement (us ++ rest) = (.ok s', rest, []) ∧
      s'.unplaced = (Stmt.keep test yes span).unplaced := by
  obtain ⟨ut, uy, rfl, hut, huy⟩ := Spells.append_iff.1 hus
  simp only [List.length_append] at hroom
  obtain ⟨test', mid, mid', hopen, hread, hclose, hsame⟩ :=
    condition_complete (uy ++ rest) hx ht hdt hut
  obtain ⟨yes', hread', hsame'⟩ := hs hy (by simp [dy]) hdy (by omega) huy helse
  refine ⟨.keep test' yes' span, ?_, by rw [Stmt.unplaced, Stmt.unplaced, hsame, hsame']⟩
  rw [List.append_assoc]
  refine BodyParser.bind_lift_eq_ok.2 ⟨(), _, hopen _, ?_⟩
  refine BodyParser.bind_lift_eq_ok.2 ⟨_, _, hread, ?_⟩
  refine BodyParser.bind_lift_eq_ok.2 ⟨(), _, hclose _, ?_⟩
  exact BodyParser.bind_eq_ok.2 ⟨_, _, hread', rfl⟩

end Branches

theorem sweep_complete {sw : Sweep} (rest : List Token) (hx : Complete 0 d expression)
    (hsw : sw.Canonical) (hd : sw.depth ≤ d) (hus : Spells us sw.marks)
    (ht : t.kind = .symbol .rightParen) :
    ∃ sw', sweep expression (us ++ t :: rest) = (.ok sw', rest) ∧
      sw'.unplaced = sw.unplaced := by
  have hreach : t.kind.reach = none := by rw [ht]; rfl
  cases hsw with
  | @range first last hf hl =>
    simp only [Sweep.marks, List.cons_append, Spells.cons_iff, Spells.append_iff] at hus
    obtain ⟨start, _, rfl, hstart, uf, _, rfl, huf, stop, ul, rfl, hstop, hul⟩ := hus
    rw [Sweep.depth] at hd
    obtain ⟨first', hread, hsame⟩ := expression_complete (ul ++ t :: rest) hx hf (by omega)
      huf (show stop.kind.reach = none by rw [hstop]; rfl)
    obtain ⟨last', hread', hsame'⟩ := expression_complete rest hx hl (by omega) hul hreach
    have hsome : accept (.keyword .fromWord) (start :: (uf ++ stop :: (ul ++ t :: rest))) =
        (.ok (some start.span), uf ++ stop :: (ul ++ t :: rest)) :=
      accept_eq_some.2 ⟨start, rfl, hstart, rfl⟩
    refine ⟨.range first' last', ?_, by rw [Sweep.unplaced, Sweep.unplaced, hsame, hsame']⟩
    simp only [List.cons_append, List.append_assoc]
    refine bind_eq_ok.2 ⟨_, _, hsome, bind_eq_ok.2 ⟨_, _, hread, ?_⟩⟩
    refine bind_eq_ok.2 ⟨(), _, expect_of_kind hstop, bind_eq_ok.2 ⟨_, _, hread', ?_⟩⟩
    exact bind_eq_ok.2 ⟨(), _, expect_of_kind ht, rfl⟩
  | @items collection hc =>
    obtain ⟨start, us, rfl, hstart, hus⟩ := Spells.cons_iff.1 hus
    rw [Sweep.depth] at hd
    obtain ⟨collection', hread, hsame⟩ :=
      expression_complete rest hx hc (by omega) hus hreach
    have hnone : accept (.keyword .fromWord) (start :: (us ++ t :: rest)) =
        (.ok none, start :: (us ++ t :: rest)) :=
      accept_eq_none.2 ⟨rfl, by simp [hstart, Mark.word]⟩
    have hsome : accept (.keyword .inWord) (start :: (us ++ t :: rest)) =
        (.ok (some start.span), us ++ t :: rest) :=
      accept_eq_some.2 ⟨start, rfl, hstart, rfl⟩
    refine ⟨.items collection', ?_, by rw [Sweep.unplaced, Sweep.unplaced, hsame]⟩
    refine bind_eq_ok.2 ⟨_, _, hnone, bind_eq_ok.2 ⟨_, _, hsome, ?_⟩⟩
    exact bind_eq_ok.2 ⟨_, _, hread, bind_eq_ok.2 ⟨(), _, expect_of_kind ht, rfl⟩⟩

theorem eachRest_complete {sw : Sweep} (hx : Complete 0 d expression)
    (hs : CompleteStmt false room d statement) (hsw : sw.Canonical) (hdsw : sw.depth ≤ d)
    (hy : yes.Canonical) (dy : yes.isDeclaration = false) (hdy : yes.depth ≤ d)
    (hroom : 2 * us.length ≤ room)
    (hus : Spells us (Mark.sign .leftParen :: Mark.name name :: sw.marks ++
      Mark.sign .rightParen :: yes.marks semicolon))
    (helse : yes.wantsElse = true → ∀ t ∈ rest.head?, t.kind ≠ .keyword .elseWord) :
    ∃ s', eachRest span expression statement (us ++ rest) = (.ok s', rest, []) ∧
      s'.unplaced = (Stmt.each name sw yes span).unplaced := by
  simp only [List.cons_append, Spells.append_iff, Spells.cons_iff] at hus
  obtain ⟨t, _, rfl, ht, var, _, rfl, hvar, usw, _, rfl, husw, close, uy, rfl, hclose, huy⟩ := hus
  simp only [List.length_append, List.length_cons] at hroom
  obtain ⟨sw', hread, hsame⟩ := sweep_complete (uy ++ rest) hx hsw hdsw husw hclose
  obtain ⟨yes', hread', hsame'⟩ := hs hy (by simp [dy]) hdy (by omega) huy helse
  have hname : ∀ what, expectName what (var :: (usw ++ close :: (uy ++ rest))) =
      (.ok (name, var.span), usw ++ close :: (uy ++ rest)) :=
    fun _ => expectName_eq_ok.2 ⟨var, rfl, hvar, rfl⟩
  refine ⟨.each name sw' yes' span, ?_, by rw [Stmt.unplaced, Stmt.unplaced, hsame, hsame']⟩
  simp only [List.cons_append, List.append_assoc]
  refine BodyParser.bind_lift_eq_ok.2 ⟨(), _, expect_of_kind ht, ?_⟩
  refine BodyParser.bind_lift_eq_ok.2 ⟨_, _, hname _, ?_⟩
  refine BodyParser.bind_lift_eq_ok.2 ⟨_, _, hread, ?_⟩
  exact BodyParser.bind_eq_ok.2 ⟨_, _, hread', rfl⟩

/-! ### All statements -/

theorem giveRest_complete {v : Option Expr} {s : Span} (rest : List Token) (span : Span)
    (hx : Complete 0 d expression) (hv : ∀ e ∈ v, e.Canonical) (hd : (Stmt.give v s).depth ≤ d + 1)
    (hus : Spells us ((Stmt.give v s).marks semicolon).tail) :
    ∃ s', giveRest span expression (us ++ rest) = (.ok s', rest) ∧
      s'.unplaced = (Stmt.give v s).unplaced := by
  cases v with
  | none =>
    obtain ⟨t, _, rfl, ht, hnil⟩ := Spells.cons_iff.1 hus
    obtain rfl := Spells.nil_iff.1 hnil
    have hbare : nextIs (.symbol .semicolon) (t :: rest) = true :=
      nextIs_iff.2 ⟨t, rfl, ht⟩
    refine ⟨.give none span, ?_, rfl⟩
    simp only [giveRest, List.singleton_append, hbare, Bool.or_true, Bool.true_or, if_true]
    exact bind_eq_ok.2 ⟨none, _, rfl, bind_eq_ok.2 ⟨(), _, terminator_of_semicolon ht, rfl⟩⟩
  | some e =>
    simp only [Stmt.depth] at hd
    have hspells : Spells us (e.marks ++ semicolon) := by
      simpa only [Stmt.marks, List.cons_append, List.tail_cons] using hus
    obtain ⟨e', mid, hread, hend, hsame⟩ :=
      terminated_complete rest hx (hv e rfl) (by omega) hspells
    obtain ⟨m, ms, hm, hk⟩ := e.head_marks
    rw [hm] at hspells
    obtain ⟨t, us, rfl, ht, -⟩ := Spells.cons_iff.1 hspells
    have hbare : ((t :: us ++ rest).isEmpty || nextIs (.symbol .semicolon) (t :: us ++ rest) ||
        nextIs (.symbol .rightBrace) (t :: us ++ rest)) = false := by
      rw [← ht] at hk
      have hsemicolon : t.kind ≠ .symbol .semicolon := by rintro h; simp [h, Kind.startsExpr] at hk
      have hbrace : t.kind ≠ .symbol .rightBrace := by rintro h; simp [h, Kind.startsExpr] at hk
      simp [nextIs, hsemicolon, hbrace]
    refine ⟨.give (some e') span, ?_, by simp [Stmt.unplaced, hsame]⟩
    simp only [giveRest, hbare]
    exact bind_eq_ok.2 ⟨some e', mid, map_eq_ok.2 ⟨e', hread, rfl⟩,
      bind_eq_ok.2 ⟨(), _, hend, rfl⟩⟩

theorem errorName?_complete {errorName : Option String} (hus : Spells us (errorNameMarks errorName))
    (ht : t.kind = .symbol .leftBrace) :
    attemptRest.errorName? (us ++ t :: rest) = (.ok errorName, t :: rest) := by
  cases errorName with
  | none =>
    obtain rfl := Spells.nil_iff.1 hus
    have hnone : accept (.symbol .leftParen) (t :: rest) = (.ok none, t :: rest) :=
      accept_eq_none.2 ⟨rfl, by simp [ht]⟩
    exact bind_eq_ok.2 ⟨_, _, hnone, rfl⟩
  | some name =>
    simp only [errorNameMarks, Spells.cons_iff, Spells.nil_iff] at hus
    obtain ⟨left, _, rfl, hleft, var, _, rfl, hvar, right, _, rfl, hright, rfl⟩ := hus
    have hsome : accept (.symbol .leftParen) (left :: var :: right :: t :: rest) =
        (.ok (some left.span), var :: right :: t :: rest) :=
      accept_eq_some.2 ⟨left, rfl, hleft, rfl⟩
    have hname : ∀ what, expectName what (var :: right :: t :: rest) =
        (.ok (name, var.span), right :: t :: rest) :=
      fun _ => expectName_eq_ok.2 ⟨var, rfl, hvar, rfl⟩
    refine bind_eq_ok.2 ⟨_, _, hsome, bind_eq_ok.2 ⟨_, _, hname _, ?_⟩⟩
    exact bind_eq_ok.2 ⟨(), _, expect_of_kind hright, rfl⟩

theorem attemptRest_complete {errorName : Option String} {handler : List Stmt}
    (hb : CompleteBody room d block) (hss : ∀ s ∈ ss, s.Canonical) (hd : Stmt.deepest ss ≤ d)
    (hh : ∀ s ∈ handler, s.Canonical) (hdh : Stmt.deepest handler ≤ d)
    (hroom : 2 * us.length ≤ room)
    (hus : Spells us (Mark.sign .leftBrace :: bodyMarks (ss.map (Stmt.marks semicolon)) ++
      Mark.word .caught :: errorNameMarks errorName ++
        Mark.sign .leftBrace :: bodyMarks (handler.map (Stmt.marks semicolon)))) :
    ∃ s', attemptRest span block (us ++ rest) = (.ok s', rest, []) ∧
      s'.unplaced = (Stmt.attempt ss errorName handler span).unplaced := by
  simp only [List.cons_append, List.append_assoc, Spells.append_iff, Spells.cons_iff] at hus
  obtain ⟨left, _, rfl, hleft, ub, _, rfl, hub, caught, _, rfl, hcaught, un, _, rfl, hun,
    left', uh, rfl, hleft', huh⟩ := hus
  simp only [List.length_append, List.length_cons] at hroom
  obtain ⟨ss', hread, hsame⟩ := hb hss hd (by omega) hub
  obtain ⟨handler', hread', hsame'⟩ := hb hh hdh (by omega) huh
  refine ⟨.attempt ss' errorName handler' span, ?_, ?_⟩
  · simp only [List.cons_append, List.append_assoc]
    refine BodyParser.bind_lift_eq_ok.2 ⟨(), _, expect_of_kind hleft, ?_⟩
    refine BodyParser.bind_eq_ok.2 ⟨_, _, hread, ?_⟩
    refine BodyParser.bind_lift_eq_ok.2 ⟨(), _, expect_of_kind hcaught, ?_⟩
    refine BodyParser.bind_lift_eq_ok.2 ⟨_, _, errorName?_complete hun hleft', ?_⟩
    refine BodyParser.bind_lift_eq_ok.2 ⟨(), _, expect_of_kind hleft', ?_⟩
    exact BodyParser.bind_eq_ok.2 ⟨_, _, hread', rfl⟩
  · simp only [Stmt.unplaced, Stmt.unplacedEach_eq_map, hsame, hsame']

/-- Where an expression begins, the statement is that expression. -/
theorem simpleStatement_of_startsExpr (h : t.kind.startsExpr = true) :
    simpleStatement expression statement block (t :: ts) =
      (liftM (do let e ← expression; terminator; return .expr e : Parser Stmt) :
        BodyParser Stmt) (t :: ts) := by
  unfold simpleStatement
  split
  · rfl
  · next k _ _ _ heq =>
    cases heq
    split <;> simp [Kind.startsExpr] at h
    rfl

theorem CompleteStmt.of_le {room' : Nat} (h : CompleteStmt declares room d one)
    (hroom : room' ≤ room) : CompleteStmt declares room' d one :=
  fun _ _ _ hs hd hdepth hlen => h hs hd hdepth (by omega)

theorem complete_simpleStatement (hx : Complete 0 d expression)
    (hs : CompleteStmt false room d statement) (hb : CompleteBody room d block) :
    CompleteStmt false (room + 2) (d + 1) (simpleStatement expression statement block) := by
  intro s us rest hc hdecl hd hroom hus helse
  cases hc with
  | @expr e he =>
    rw [Stmt.depth] at hd
    obtain ⟨e', mid, hread, hend, hsame⟩ :=
      terminated_complete rest hx he (by omega) hus
    obtain ⟨m, ms, hm, hk⟩ := e.head_marks
    rw [Stmt.marks, hm] at hus
    obtain ⟨t, us, rfl, ht, -⟩ := Spells.cons_iff.1 hus
    refine ⟨.expr e', ?_, by rw [Stmt.unplaced, Stmt.unplaced, hsame]⟩
    rw [List.cons_append, simpleStatement_of_startsExpr (by rw [ht, hk])]
    exact BodyParser.lift_eq_ok.2
      ⟨bind_eq_ok.2 ⟨_, _, hread, bind_eq_ok.2 ⟨(), _, hend, rfl⟩⟩, rfl⟩
  | @say value s hvalue =>
    rw [Stmt.depth] at hd
    obtain ⟨span, _, us, rfl, htail⟩ := hus.exists_cons
    obtain ⟨value', mid, hread, hend, hsame⟩ :=
      terminated_complete rest hx hvalue (by omega) htail
    refine ⟨.say value' span, ?_, by rw [Stmt.unplaced, Stmt.unplaced, hsame]⟩
    exact BodyParser.lift_eq_ok.2
      ⟨bind_eq_ok.2 ⟨_, _, hread, bind_eq_ok.2 ⟨(), _, hend, rfl⟩⟩, rfl⟩
  | ifThen s ht hy dy =>
    rw [Stmt.depth] at hd
    obtain ⟨span, _, us, rfl, htail⟩ := hus.exists_cons
    simp only [List.length_cons] at hroom
    exact ifThen_complete hx hs ht (by omega) hy dy (by omega) (by omega) htail (helse rfl)
  | ifElse s ht hy dy ey hn dn =>
    rw [Stmt.depth] at hd
    obtain ⟨span, _, us, rfl, htail⟩ := hus.exists_cons
    simp only [List.length_cons] at hroom
    exact ifElse_complete hx hs ht (by omega) hy dy ey (by omega) hn dn (by omega) (by omega) htail
      helse
  | keep s ht hy dy =>
    rw [Stmt.depth] at hd
    obtain ⟨span, _, us, rfl, htail⟩ := hus.exists_cons
    simp only [List.length_cons] at hroom
    exact keepRest_complete hx hs ht (by omega) hy dy (by omega) (by omega) htail helse
  | each var s hsw hy dy =>
    rw [Stmt.depth] at hd
    obtain ⟨span, _, us, rfl, htail⟩ := hus.exists_cons
    simp only [List.length_cons] at hroom
    exact eachRest_complete hx hs hsw (by omega) hy dy (by omega) (by omega) htail helse
  | @give value s hvalue =>
    have hkeyword : ∃ m ms, (Stmt.give value s).marks semicolon = m :: ms ∧
        m.kind = .keyword .give := by
      cases value <;> exact ⟨_, _, rfl, rfl⟩
    obtain ⟨m, ms, hm, hk⟩ := hkeyword
    rw [hm] at hus
    obtain ⟨span, _, us, rfl, htail⟩ := hus.exists_cons
    have htail' : Spells us ((Stmt.give value s).marks semicolon).tail := by rwa [hm]
    obtain ⟨s', hread, hsame⟩ := giveRest_complete rest span hx hvalue hd htail'
    rw [hk]
    exact ⟨s', BodyParser.lift_eq_ok.2 ⟨hread, rfl⟩, hsame⟩
  | stop s =>
    obtain ⟨span, _, us, rfl, htail⟩ := hus.exists_cons
    simp only [Spells.cons_iff, Spells.nil_iff] at htail
    obtain ⟨t, _, rfl, ht, rfl⟩ := htail
    refine ⟨.stop span, ?_, rfl⟩
    exact BodyParser.lift_eq_ok.2
      ⟨bind_eq_ok.2 ⟨(), _, terminator_of_semicolon ht, rfl⟩, rfl⟩
  | skip s =>
    obtain ⟨span, _, us, rfl, htail⟩ := hus.exists_cons
    simp only [Spells.cons_iff, Spells.nil_iff] at htail
    obtain ⟨t, _, rfl, ht, rfl⟩ := htail
    refine ⟨.skip span, ?_, rfl⟩
    exact BodyParser.lift_eq_ok.2
      ⟨bind_eq_ok.2 ⟨(), _, terminator_of_semicolon ht, rfl⟩, rfl⟩
  | attempt errorName s hss hh =>
    rw [Stmt.depth] at hd
    simp only [Stmt.marks, Stmt.marksEach_eq_map] at hus
    obtain ⟨span, _, us, rfl, htail⟩ := hus.exists_cons
    simp only [List.length_cons] at hroom
    exact attemptRest_complete hb hss (by omega) hh (by omega) (by omega) htail
  | @block ss s hss =>
    rw [Stmt.depth] at hd
    simp only [Stmt.marks, Stmt.marksEach_eq_map] at hus
    obtain ⟨span, _, us, rfl, htail⟩ := hus.exists_cons
    simp only [List.length_cons] at hroom
    obtain ⟨ss', hread, hsame⟩ := hb hss (by omega) (by omega) htail
    refine ⟨.block ss' span, BodyParser.bind_eq_ok.2 ⟨_, _, hread, rfl⟩, ?_⟩
    simp only [Stmt.unplaced, Stmt.unplacedEach_eq_map, hsame]
  | bind | skill => exact absurd (hdecl rfl) (by simp)

/-- Where no keyword of a declaration stands, a statement of another kind is read. -/
theorem declaration_of_not_declares (hhold : t.kind ≠ .keyword .hold)
    (hlock : t.kind ≠ .keyword .lock) (hskill : t.kind ≠ .keyword .skill) :
    declaration (n + 1) b (t :: ts) = Parser.statement n b (t :: ts) := by
  unfold declaration
  split
  · next heq =>
    cases heq
    exact absurd rfl hhold
  · next heq =>
    cases heq
    exact absurd rfl hlock
  · next heq =>
    cases heq
    exact absurd rfl hskill
  · rfl

/-- A statement has a token, so without room for one there is nothing to read back. -/
theorem complete_of_room (h : room < 2) : CompleteStmt declares room d one := by
  intro s us rest _ _ _ hroom hus
  have hpos : 0 < us.length := by
    rw [hus.length_eq]
    exact List.length_pos_iff.2 (s.marks_ne_nil semicolon)
  omega

/-- All statements but declarations take a level of their own. -/
theorem complete_of_budget_zero : CompleteStmt false room 0 one := by
  intro s us rest _ hdecl hd
  cases s with
  | bind | skill => exact absurd (hdecl rfl) (by simp)
  | give value => cases value <;> simp [Stmt.depth] at hd
  | _ => simp [Stmt.depth] at hd

theorem complete_declaration (hs : CompleteStmt false (n + 1) b (Parser.statement n b))
    (hb : CompleteBody n b (body (declaration n b))) :
    CompleteStmt true (n + 1) b (declaration (n + 1) b) := by
  intro s us rest hc _ hd hroom hus helse
  by_cases hdecl : s.isDeclaration = false
  · obtain ⟨m, ms, hm, -, -, hk⟩ := stmt_head_marks s semicolon
    obtain ⟨s', hread, hsame⟩ := hs hc (by simp [hdecl]) hd (by omega) hus helse
    rw [hm] at hus
    obtain ⟨t, us, rfl, ht, -⟩ := Spells.cons_iff.1 hus
    rw [← ht] at hk
    obtain ⟨hhold, hlock, hskill⟩ := hk hdecl
    refine ⟨s', ?_, hsame⟩
    rw [List.cons_append, declaration_of_not_declares hhold hlock hskill]
    exact hread
  · cases hc with
    | bind binder name s hvalue =>
      rw [Stmt.depth] at hd
      obtain ⟨span, _, us, rfl, htail⟩ := hus.exists_cons
      obtain ⟨s', hread, hsame⟩ := binding_complete binder rest
        (complete_expression_unary b).1 hvalue (by omega) htail
      refine ⟨s', ?_, hsame⟩
      cases binder <;> exact BodyParser.lift_eq_ok.2 ⟨hread, rfl⟩
    | skill name s count hss =>
      rw [Stmt.depth] at hd
      simp only [Stmt.marks, Stmt.marksEach_eq_map] at hus
      obtain ⟨span, _, us, rfl, htail⟩ := hus.exists_cons
      simp only [List.length_cons] at hroom
      exact skillRest_complete hb count hss hd (by omega) htail
    | _ => simp [Stmt.isDeclaration] at hdecl

/-- With room for its tokens and a budget for its nesting, a statement is read back. -/
theorem complete_declaration_statement (n : Nat) : ∀ b,
    CompleteStmt true n b (declaration n b) ∧
      CompleteStmt false (n + 1) b (Parser.statement n b) := by
  induction n with
  | zero => exact fun b => ⟨complete_of_room (by omega), complete_of_room (by omega)⟩
  | succ n ih =>
    intro b
    constructor
    · exact complete_declaration (ih b).2 (complete_body (ih b).1)
    · cases b with
      | zero => exact complete_of_budget_zero
      | succ b =>
        have hs : CompleteStmt false n b (Parser.statement n b) := (ih b).2.of_le (by omega)
        exact complete_simpleStatement (complete_expression_unary b).1 hs
          (complete_body (ih b).1)

end Vibe.Parser
