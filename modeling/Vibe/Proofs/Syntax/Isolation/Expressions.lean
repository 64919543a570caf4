import Vibe.Proofs.Syntax.Operators

/-! Reading an expression ends before the next semicolon, whether it comes to an end or fails, and
what stands behind the semicolon makes no difference. -/

namespace Vibe.Parser

variable {α β : Type} {p q : Parser α} {f : α → Parser β} {g : α → β} {kind : Kind} {what : String}
  {t close : Token} {front : List Token} {operand value : Parser Expr}
  {loop : List Token → Parser α}

/-- In front of the closing token the parser reads and leaves the same whatever comes behind it. -/
def StopsAt (close : Token) (front : List Token) (p : Parser α) : Prop :=
  ∃ r left, left <:+ front ∧ ∀ behind, p (front ++ close :: behind) = (r, left ++ close :: behind)

/-- The same with any bound that is long enough. -/
def LoopStopsAt (close : Token) (front : List Token) (loop : List Token → Parser α) : Prop :=
  ∃ r left, left <:+ front ∧ ∀ behind bound, (front ++ close :: behind).length ≤ bound.length →
    loop bound (front ++ close :: behind) = (r, left ++ close :: behind)

/-- The parser stops before the first token that is like the closing one, which is a semicolon. -/
def Stops (close : Token) (p : Parser α) : Prop :=
  ∀ front, (∀ t ∈ front, t.kind ≠ .symbol .semicolon) → StopsAt close front p

theorem stopsAt_pure (a : α) : StopsAt close front (pure a) :=
  ⟨.ok a, front, List.suffix_refl front, fun _ => rfl⟩

theorem StopsAt.bind (h : StopsAt close front p)
    (hf : ∀ a left, left <:+ front → StopsAt close left (f a)) :
    StopsAt close front (p >>= f) := by
  obtain ⟨r, left, hleft, hrun⟩ := h
  cases r with
  | error e => exact ⟨.error e, left, hleft, fun behind => by rw [bind_apply, hrun]⟩
  | ok a =>
    obtain ⟨r, left', hleft', hrun'⟩ := hf a left hleft
    exact ⟨r, left', hleft'.trans hleft, fun behind => by rw [bind_of_ok (hrun behind), hrun']⟩

/-- A token in front makes no difference to what is done behind it. -/
theorem StopsAt.cons (h : StopsAt close front p) (hq : ∀ ts, q (t :: ts) = p ts) :
    StopsAt close (t :: front) q := by
  obtain ⟨r, left, hleft, hrun⟩ := h
  refine ⟨r, left, hleft.trans (List.suffix_cons t front), fun behind => ?_⟩
  rw [List.cons_append, hq, hrun]

/-- What takes nothing and looks at the next token only stops there. -/
theorem stopsAt_of_head (look : Option Token → Except Error α)
    (h : ∀ ts, p ts = (look ts.head?, ts)) : StopsAt close front p := by
  refine ⟨look (front ++ [close]).head?, front, List.suffix_refl front, fun behind => ?_⟩
  rw [h]
  cases front <;> rfl

/-! ### Loops -/

/-- What there is to read is long enough for a bound. -/
theorem LoopStopsAt.stopsAt (h : LoopStopsAt close front loop) :
    StopsAt close front fun ts => loop ts ts := by
  obtain ⟨r, left, hleft, hrun⟩ := h
  exact ⟨r, left, hleft, fun behind => hrun behind _ (Nat.le_refl _)⟩

theorem LoopStopsAt.bind {next : α → List Token → Parser β} (h : StopsAt close front p)
    (hnext : ∀ a left, left <:+ front → LoopStopsAt close left (next a)) :
    LoopStopsAt close front fun bound => p >>= fun a => next a bound := by
  obtain ⟨r, left, hleft, hrun⟩ := h
  cases r with
  | error e =>
    exact ⟨.error e, left, hleft, fun behind bound _ => (bind_apply _ _ _).trans (by rw [hrun])⟩
  | ok a =>
    obtain ⟨r, left', hleft', hrun'⟩ := hnext a left hleft
    refine ⟨r, left', hleft'.trans hleft, fun behind bound hbound =>
      (bind_of_ok (hrun behind)).trans (hrun' behind bound (Nat.le_trans ?_ hbound))⟩
    have hle := hleft.length_le
    simp only [List.length_append, List.length_cons]
    omega

/-- A pass of a loop takes a token of the bound and one in front. -/
theorem LoopStopsAt.cons {pass : List Token → Parser α} (h : LoopStopsAt close front pass)
    (hloop : ∀ u bound ts, loop (u :: bound) (t :: ts) = pass bound ts) :
    LoopStopsAt close (t :: front) loop := by
  obtain ⟨r, left, hleft, hrun⟩ := h
  refine ⟨r, left, hleft.trans (List.suffix_cons t front), fun behind bound hbound => ?_⟩
  cases bound with
  | nil => simp at hbound
  | cons u bound =>
    exact (hloop u bound _).trans (hrun behind bound (Nat.le_of_succ_le_succ hbound))

/-- A loop that goes no further ends there, whatever its bound is. -/
theorem loopStopsAt_of_done {a : α} (h : ∀ bound behind,
      loop bound (front ++ close :: behind) = (.ok a, front ++ close :: behind)) :
    LoopStopsAt close front loop :=
  ⟨.ok a, front, List.suffix_refl front, fun behind bound _ => h bound behind⟩

/-! ### Parsers -/

theorem stops_pure (a : α) : Stops close (pure a) :=
  fun _ _ => stopsAt_pure a

theorem Stops.bind (h : Stops close p) (hf : ∀ a, Stops close (f a)) : Stops close (p >>= f) :=
  fun front hfront => (h front hfront).bind fun a left hleft =>
    hf a left fun t ht => hfront t (hleft.subset ht)

theorem Stops.map (h : Stops close p) : Stops close (g <$> p) :=
  h.bind fun a => stops_pure (g a)

theorem stopsAt_expected (what : String) : StopsAt close front (expected what : Parser α) :=
  stopsAt_of_head (fun t => .error ⟨.parsing (.expected what (shown t.toList)),
    t.map Token.span, none⟩) fun ts => by cases ts <;> rfl

theorem stops_expected (what : String) : Stops close (expected what : Parser α) :=
  fun _ _ => stopsAt_expected what

theorem stops_fail (cause : SyntaxCause) (span : Option Span) :
    Stops close (fail cause span : Parser α) :=
  fun _ _ => stopsAt_of_head (fun _ => .error ⟨.parsing cause, span, none⟩) fun _ => rfl

/-- The error stands at the next token, and does not depend on anything else. -/
theorem stops_failHere (cause : SyntaxCause) :
    Stops close (fun ts => fail cause (place ts) ts : Parser α) :=
  fun _ _ => stopsAt_of_head (fun t => .error ⟨.parsing cause, t.map Token.span, none⟩)
    fun _ => rfl

theorem stops_tooDeep : Stops close (tooDeep : Parser α) :=
  stops_failHere _

variable (hclose : close.kind = .symbol .semicolon)

include hclose

theorem stops_accept (hkind : kind ≠ .symbol .semicolon) : Stops close (accept kind) := by
  intro front _
  cases front with
  | nil =>
    refine ⟨.ok none, [], List.suffix_refl [], fun behind => ?_⟩
    exact if_neg fun h => hkind (h.symm.trans hclose)
  | cons t front =>
    by_cases ht : t.kind = kind
    · exact .cons (stopsAt_pure (some t.span)) fun ts => if_pos ht
    · exact ⟨.ok none, t :: front, List.suffix_refl _, fun behind => if_neg ht⟩

theorem stops_expect (hkind : kind ≠ .symbol .semicolon) (what : String) :
    Stops close (expect kind what) := by
  refine (stops_accept hclose hkind).bind fun found => ?_
  cases found with
  | none => exact stops_expected what
  | some s => exact stops_pure ()

theorem stops_expectName (what : String) : Stops close (expectName what) := by
  intro front _
  obtain ⟨kind, span, lexeme⟩ := close
  obtain rfl : kind = .symbol .semicolon := hclose
  cases front with
  | nil => exact stopsAt_expected what
  | cons t front =>
    obtain ⟨kind, span, lexeme⟩ := t
    cases kind with
    | ident name => exact .cons (stopsAt_pure (name, span)) fun ts => rfl
    | _ => exact stopsAt_expected what

theorem stops_separated (h : Stops close p) (items : String) (limit : Nat) :
    Stops close (separated p items limit) := by
  induction limit with
  | zero => exact stops_failHere _
  | succ limit ih =>
    refine h.bind fun a => (stops_accept hclose (by decide)).bind fun found => ?_
    cases found with
    | none => exact stops_pure _
    | some s => exact ih.bind fun as => stops_pure _

theorem stops_listUntil {sign : Symbol} (hsign : sign ≠ .semicolon) (h : Stops close p)
    (items what : String) : Stops close (listUntil sign p items what) := by
  intro front hfront
  have hitems : StopsAt close front fun ts =>
      (if nextIs (.symbol sign) ts then pure [] else separated p items maxItems : Parser _) ts := by
    have hnext (behind : List Token) : nextIs (.symbol sign) (front ++ close :: behind) =
        nextIs (.symbol sign) (front ++ [close]) := by
      cases front <;> rfl
    cases hlist : nextIs (.symbol sign) (front ++ [close]) with
    | true =>
      refine ⟨.ok [], front, List.suffix_refl front, fun behind => ?_⟩
      simp only [hnext, hlist, if_true]
      rfl
    | false =>
      obtain ⟨r, left, hleft, hrun⟩ := stops_separated hclose h items maxItems front hfront
      refine ⟨r, left, hleft, fun behind => ?_⟩
      simp only [hnext, hlist, Bool.false_eq_true, if_false]
      exact hrun behind
  refine hitems.bind fun as left hleft => ?_
  exact ((stops_expect hclose (by simpa using hsign) what).bind fun _ => stops_pure as) left
    fun t ht => hfront t (hleft.subset ht)

/-! ### Expressions -/

theorem chainFrom_stops {join : Kind → Option Joiner} (hjoin : join (.symbol .semicolon) = none)
    (h : Stops close operand) (hfront : ∀ t ∈ front, t.kind ≠ .symbol .semicolon) (left : Expr) :
    LoopStopsAt close front fun bound => chainFrom join operand bound left := by
  induction hlen : front.length using Nat.strongRecOn generalizing front left with
  | ind n ih =>
    subst hlen
    have hdone (t : Token) (ts bound : List Token) (hnone : join t.kind = none) :
        chainFrom join operand bound left (t :: ts) = (.ok left, t :: ts) := by
      cases bound with
      | nil => rfl
      | cons u bound => simp only [chainFrom, hnone]
    cases front with
    | nil => exact loopStopsAt_of_done fun bound behind => hdone close behind bound (hclose ▸ hjoin)
    | cons t front =>
      obtain ⟨-, hrest⟩ := List.forall_mem_cons.1 hfront
      cases hj : join t.kind with
      | none => exact loopStopsAt_of_done fun bound behind => hdone t _ bound hj
      | some joined =>
        refine .cons (.bind (h front hrest) fun right ts hts => ih ts.length
          (Nat.lt_succ_of_le hts.length_le) (fun t ht => hrest t (hts.subset ht))
            (joined left right t.span) rfl) fun u bound ts => ?_
        simp only [chainFrom, hj]

theorem stops_chain {join : Kind → Option Joiner} (hjoin : join ∈ levels)
    (h : Stops close operand) : Stops close (chain join operand) := by
  have hnone : join (.symbol .semicolon) = none := by
    by_contra hsome
    obtain ⟨joined, hj⟩ := Option.ne_none_iff_exists'.1 hsome
    obtain ⟨i, hi⟩ := List.mem_iff_getElem?.1 hjoin
    exact (levels_eq_some hi hj).ne_semicolon rfl
  intro front hfront
  exact (LoopStopsAt.bind (h front hfront) fun left ts hts =>
    chainFrom_stops hclose hnone h (fun t ht => hfront t (hts.subset ht)) left).stopsAt

theorem stops_operation (h : Stops close operand) : Stops close (operation operand) :=
  List.foldrRecOn levels chain h fun _ hlevel _ hjoin => stops_chain hclose hjoin hlevel

theorem stops_assignment (h : Stops close operand) (hv : Stops close value) :
    Stops close (assignment operand value) := by
  refine (stops_operation hclose h).bind fun target => ?_
  refine (stops_accept hclose (by decide)).bind fun found => ?_
  cases found with
  | none => exact stops_pure target
  | some equals =>
    refine hv.bind fun v => ?_
    cases target with
    | ident name span => exact stops_pure _
    | _ => exact stops_fail _ _

theorem stops_primary (h : Stops close value) : Stops close (primary value) := by
  intro front hfront
  cases front with
  | nil =>
    obtain ⟨kind, span, lexeme⟩ := close
    obtain rfl : kind = .symbol .semicolon := hclose
    exact ⟨(primary value [⟨.symbol .semicolon, span, lexeme⟩]).1, [], List.suffix_refl [],
      fun behind => rfl⟩
  | cons t front =>
    obtain ⟨-, hrest⟩ := List.forall_mem_cons.1 hfront
    obtain ⟨kind, span, lexeme⟩ := t
    have hrefused : StopsAt close (⟨kind, span, lexeme⟩ :: front)
        (fail (.expectedExpression kind.text) (some span) : Parser Expr) :=
      stops_fail _ _ _ hfront
    have hgroup : Stops close (do
        let e ← value; expect (.symbol .rightParen) "expected ')' after expression"
        return .group e span : Parser Expr) :=
      h.bind fun e => (stops_expect hclose (by decide) _).bind fun _ => stops_pure _
    have harray : Stops close (do
        return .array (← listUntil .rightBracket value "array elements"
          "expected ']' after array elements") span : Parser Expr) :=
      (stops_listUntil hclose (by decide) h _ _).bind fun es => stops_pure _
    have hask : Stops close (do return .ask (← value) span : Parser Expr) :=
      h.bind fun e => stops_pure _
    cases kind with
    | number x => exact .cons (stopsAt_pure _) fun ts => rfl
    | string s => exact .cons (stopsAt_pure _) fun ts => rfl
    | ident name => exact .cons (stopsAt_pure (.ident name span)) fun ts => rfl
    | symbol sign =>
      cases sign with
      | leftParen => exact .cons (hgroup front hrest) fun ts => rfl
      | leftBracket => exact .cons (harray front hrest) fun ts => rfl
      | _ => exact hrefused
    | keyword word =>
      cases word with
      | ask => exact .cons (hask front hrest) fun ts => rfl
      | bet | cap | null => exact .cons (stopsAt_pure _) fun ts => rfl
      | _ => exact hrefused
    | finish => exact hrefused

theorem postfixFrom_stops (h : Stops close value)
    (hfront : ∀ t ∈ front, t.kind ≠ .symbol .semicolon) (e : Expr) :
    LoopStopsAt close front fun bound => postfixFrom value bound e := by
  induction hlen : front.length using Nat.strongRecOn generalizing front e with
  | ind n ih =>
    subst hlen
    cases front with
    | nil =>
      obtain ⟨kind, span, lexeme⟩ := close
      obtain rfl : kind = .symbol .semicolon := hclose
      exact loopStopsAt_of_done fun bound behind => by cases bound <;> rfl
    | cons t front =>
      obtain ⟨-, hrest⟩ := List.forall_mem_cons.1 hfront
      have hnext (e : Expr) {left : List Token} (hleft : left <:+ front) :
          LoopStopsAt close left fun bound => postfixFrom value bound e :=
        ih left.length (Nat.lt_succ_of_le hleft.length_le)
          (fun t ht => hrest t (hleft.subset ht)) e rfl
      obtain ⟨kind, span, lexeme⟩ := t
      cases kind with
      | symbol sign =>
        cases sign with
        | leftParen =>
          refine .cons (.bind (stops_listUntil hclose (by decide) h "arguments"
            "expected ')' after arguments" front hrest) fun args left hleft =>
              hnext (.call e args span) hleft) fun u bound ts => rfl
        | leftBracket =>
          refine .cons (.bind (h front hrest) fun i left hleft => .bind (stops_expect hclose
            (by decide) "expected ']' after index" left fun t ht => hrest t (hleft.subset ht))
              fun _ left' hleft' => hnext (.index e i span) (hleft'.trans hleft))
                fun u bound ts => rfl
        | _ => exact loopStopsAt_of_done fun bound behind => by cases bound <;> rfl
      | _ => exact loopStopsAt_of_done fun bound behind => by cases bound <;> rfl

theorem stops_postfixed (h : Stops close value) : Stops close (postfixed value) := by
  intro front hfront
  exact (LoopStopsAt.bind (stops_primary hclose h front hfront) fun e left hleft =>
    postfixFrom_stops hclose h (fun t ht => hfront t (hleft.subset ht)) e).stopsAt

theorem stops_signed (h : Stops close operand) (hx : Stops close value) :
    Stops close (signed operand value) := by
  intro front hfront
  obtain ⟨r, left, hleft, hrun⟩ := stops_postfixed hclose hx front hfront
  cases front with
  | nil =>
    have hnone : unaryOp? close.kind = none := by rw [hclose]; rfl
    refine ⟨r, left, hleft, fun behind => ?_⟩
    simpa only [List.nil_append, signed, hnone] using hrun behind
  | cons t front =>
    obtain ⟨-, hrest⟩ := List.forall_mem_cons.1 hfront
    cases hop : unaryOp? t.kind with
    | none =>
      refine ⟨r, left, hleft, fun behind => ?_⟩
      simpa only [List.cons_append, signed, hop] using hrun behind
    | some op =>
      refine .cons ((h front hrest).bind fun e left _ => stopsAt_pure (Expr.unary op e t.span))
        fun ts => ?_
      simp only [signed, hop]

theorem stops_expression_unary (b : Nat) : Stops close (expression b) ∧ Stops close (unary b) := by
  induction b with
  | zero => exact ⟨stops_tooDeep, stops_signed hclose stops_tooDeep stops_tooDeep⟩
  | succ b ih =>
    obtain ⟨hexpression, hunary⟩ := ih
    have hassignment := stops_assignment hclose hunary hexpression
    exact ⟨hassignment, stops_signed hclose hunary hassignment⟩

end Vibe.Parser
