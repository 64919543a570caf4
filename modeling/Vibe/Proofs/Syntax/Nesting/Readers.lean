import Vibe.Proofs.Syntax.Nesting.Paths
import Vibe.Proofs.Syntax.Operators

/-! Nothing that is read nests deeper than there are levels left for it, whether or not reading went
past errors. -/

namespace Vibe

namespace Parser

variable {α β : Type} {P : α → Prop} {Q : β → Prop} {d n b : Nat}

/-- Whatever the parser reads has the property. -/
def Yields (P : α → Prop) (p : Parser α) : Prop :=
  ∀ ts a, (p ts).1 = .ok a → P a

section

variable {p : Parser α} {f : α → Parser β} {operand value : Parser Expr} {ts : List Token}

theorem Yields.bind_apply (h : ∀ a, (p ts).1 = .ok a → P a) (hf : ∀ a, P a → (f a).Yields Q) :
    ∀ b, ((p >>= f) ts).1 = .ok b → Q b := by
  intro b hb
  rw [Parser.bind_apply] at hb
  split at hb
  · next a mid hp => exact hf a (h a (by rw [hp])) mid b hb
  · cases hb

theorem of_ok {a : α} (h : P a) : ∀ a', (Except.ok a : Except Error α) = .ok a' → P a' := by
  intro a' ha
  cases ha
  exact h

theorem yields_pure {a : α} (h : P a) : (pure a : Parser α).Yields P :=
  fun _ => of_ok h

theorem yields_any (p : Parser α) : p.Yields fun _ => True :=
  fun _ _ _ => trivial

theorem Yields.bind (h : p.Yields P) (hf : ∀ a, P a → (f a).Yields Q) : (p >>= f).Yields Q :=
  fun ts => bind_apply (h ts) hf

/-- What is read first makes no difference. -/
theorem yields_bind (hf : ∀ a, (f a).Yields Q) : (p >>= f).Yields Q :=
  (yields_any p).bind fun a _ => hf a

theorem yields_fail (cause : SyntaxCause) (span : Option Span) :
    (fail cause span : Parser α).Yields P :=
  nofun

theorem yields_tooDeep : (tooDeep : Parser α).Yields P :=
  nofun

theorem yields_expected (what : String) : (expected what : Parser α).Yields P :=
  nofun

theorem yields_separated (h : p.Yields P) (items : String) (limit : Nat) :
    (separated p items limit).Yields fun as => ∀ a ∈ as, P a := by
  induction limit with
  | zero => exact nofun
  | succ limit ih =>
    rw [separated]
    refine h.bind fun a ha => yields_bind fun comma => ?_
    cases comma with
    | none => exact yields_pure (by simpa using ha)
    | some s => exact ih.bind fun as has => yields_pure (List.forall_mem_cons.2 ⟨ha, has⟩)

theorem yields_listUntil (h : p.Yields P) (close : Symbol) (items what : String) :
    (listUntil close p items what).Yields fun as => ∀ a ∈ as, P a := by
  intro ts
  refine Yields.bind_apply (P := fun as => ∀ a ∈ as, P a) ?_
    (fun as has => yields_bind fun _ => yields_pure has)
  split
  · exact of_ok (by simp)
  · exact yields_separated h items maxItems ts

/-! ### Expressions -/

theorem yields_chainFrom {join : Kind → Option Joiner} (hjoin : join ∈ levels)
    (h : operand.Yields (·.depth ≤ d)) (bound : List Token) {left : Expr} (hleft : left.depth ≤ d) :
    (chainFrom join operand bound left).Yields (·.depth ≤ d) := by
  induction bound generalizing left with
  | nil => exact yields_pure hleft
  | cons _ bound ih =>
    intro ts
    unfold chainFrom
    split
    · exact of_ok hleft
    · next t rest =>
      split
      · exact of_ok hleft
      · next joined hj =>
        refine Yields.bind_apply (h rest) fun right hright => ih ?_
        obtain ⟨i, hi⟩ := List.mem_iff_getElem?.1 hjoin
        rw [(levels_eq_some hi hj).depth]
        exact Nat.max_le.2 ⟨hleft, hright⟩

theorem yields_chain {join : Kind → Option Joiner} (hjoin : join ∈ levels)
    (h : operand.Yields (·.depth ≤ d)) : (chain join operand).Yields (·.depth ≤ d) :=
  fun ts => Yields.bind_apply (h ts) fun _ hleft => yields_chainFrom hjoin h ts hleft

theorem yields_operation (h : operand.Yields (·.depth ≤ d)) :
    (operation operand).Yields (·.depth ≤ d) :=
  List.foldrRecOn levels chain h fun _ hlevel _ hjoin => yields_chain hjoin hlevel

theorem yields_assignment (h : operand.Yields (·.depth ≤ d)) (hv : value.Yields (·.depth < d)) :
    (assignment operand value).Yields (·.depth ≤ d) := by
  refine (yields_operation h).bind fun target htarget => yields_bind fun equals => ?_
  cases equals with
  | none => exact yields_pure htarget
  | some equals =>
    refine hv.bind fun v hv => ?_
    cases target with
    | ident name span => exact yields_pure hv
    | _ => exact yields_fail _ _

theorem yields_primary (h : value.Yields (·.depth < d)) : (primary value).Yields (·.depth ≤ d) := by
  intro ts
  unfold primary
  split
  · exact yields_fail _ _ _
  · next t rest =>
    split
    · exact of_ok (Nat.zero_le d)
    · split
      · exact of_ok (Nat.zero_le d)
      · exact Yields.bind_apply (h rest) fun e he => yields_bind fun _ => yields_pure he
      · exact Yields.bind_apply (yields_listUntil h _ _ _ rest) fun es hes =>
          yields_pure (Expr.deepest_le hes)
      · exact Yields.bind_apply (h rest) fun e he => yields_pure he
      · exact yields_fail _ _ _

theorem yields_postfixFrom (h : value.Yields (·.depth < d)) (bound : List Token) {e : Expr}
    (he : e.depth ≤ d) : (postfixFrom value bound e).Yields (·.depth ≤ d) := by
  induction bound generalizing e with
  | nil => exact yields_pure he
  | cons _ bound ih =>
    intro ts
    unfold postfixFrom
    split
    · refine Yields.bind_apply (yields_listUntil h _ _ _ _) fun args hargs => ih ?_
      exact Nat.max_le.2 ⟨he, Expr.deepest_le hargs⟩
    · refine Yields.bind_apply (h _) fun i hi => yields_bind fun _ => ih ?_
      exact Nat.max_le.2 ⟨he, hi⟩
    · exact of_ok he

theorem yields_postfixed (h : value.Yields (·.depth < d)) :
    (postfixed value).Yields (·.depth ≤ d) :=
  fun ts => Yields.bind_apply (yields_primary h ts) fun _ he => yields_postfixFrom h ts he

theorem yields_signed (h : operand.Yields (·.depth < d)) (hv : value.Yields (·.depth < d)) :
    (signed operand value).Yields (·.depth ≤ d) := by
  intro ts
  unfold signed
  split
  · exact yields_postfixed hv []
  · next t rest =>
    split
    · exact Yields.bind_apply (h rest) fun e he => yields_pure he
    · exact yields_postfixed hv _

/-- No expression is deeper than there were levels left for it. -/
theorem yields_expression_unary (b : Nat) :
    (expression b).Yields (·.depth < b) ∧ (unary b).Yields (·.depth ≤ b) := by
  induction b with
  | zero => exact ⟨yields_tooDeep, yields_signed yields_tooDeep yields_tooDeep⟩
  | succ b ih =>
    obtain ⟨hexpression, hunary⟩ := ih
    have hassignment := yields_assignment hunary hexpression
    have hoperand : (unary b).Yields (·.depth < b + 1) :=
      fun ts e he => Nat.lt_succ_of_le (hunary ts e he)
    have hvalue : (expression (b + 1)).Yields (·.depth < b + 1) :=
      fun ts e he => Nat.lt_succ_of_le (hassignment ts e he)
    exact ⟨hvalue, by rw [unary_succ]; exact yields_signed hoperand hvalue⟩

end

end Parser

/-- Whatever the parser reads has the property, whether or not it went past errors. -/
def BodyParser.Yields {α : Type} (P : α → Prop) (p : BodyParser α) : Prop :=
  ∀ ts a, (p ts).1 = .ok a → P a

namespace BodyParser

variable {α β : Type} {P : α → Prop} {Q : β → Prop} {p : BodyParser α} {f : α → BodyParser β}
  {q : Parser α} {ts : List Token}

theorem yields_pure {a : α} (h : P a) : (pure a : BodyParser α).Yields P :=
  fun _ => Parser.of_ok h

theorem yields_lift (h : q.Yields P) : (liftM q : BodyParser α).Yields P :=
  h

theorem Yields.bind (h : p.Yields P) (hf : ∀ a, P a → (f a).Yields Q) : (p >>= f).Yields Q := by
  intro ts b hb
  rw [bind_apply] at hb
  split at hb
  · next a mid log hp => exact hf a (h ts a (by rw [hp])) mid b hb
  · cases hb

/-- What is read first makes no difference. -/
theorem yields_bind (hf : ∀ a, (f a).Yields Q) : (p >>= f).Yields Q :=
  Yields.bind (P := fun _ => True) (fun _ _ _ => trivial) fun a _ => hf a

end BodyParser

namespace Parser

/-! ### Statements -/

section

variable {one : BodyParser Stmt} {block : BodyParser (List Stmt)} {value : Parser Expr}
  {P : Stmt → Prop} {b : Nat} {span : Span}

/-- The statements that are left out behind errors make no difference. -/
theorem forall_mem_statements (h : one.Yields P) {closes : Kind → Bool} (bound : List Token)
    {done : List Stmt} (hdone : ∀ s ∈ done, P s) (errors : List Setback) (ts : List Token) :
    ∀ s ∈ (statements one closes bound done errors ts).1, P s := by
  induction bound generalizing done errors ts with
  | nil => simpa [statements] using hdone
  | cons _ bound ih =>
    cases ts with
    | nil => simpa [statements] using hdone
    | cons t ts =>
      rw [statements]
      split
      · simpa using hdone
      · have hone := h (t :: ts)
        split
        · next s rest more hs =>
          rw [hs] at hone
          exact ih (List.forall_mem_cons.2 ⟨hone s rfl, hdone⟩) _ _
        · exact ih hdone _ _

theorem yields_body (h : one.Yields P) : (body one).Yields fun ss => ∀ s ∈ ss, P s := by
  have hread : BodyParser.Yields (fun ss => ∀ s ∈ ss, P s) fun ts =>
      (.ok (statements one (· = .symbol .rightBrace) ts [] [] ts).1,
        (statements one (· = .symbol .rightBrace) ts [] [] ts).2) :=
    fun ts => of_ok (forall_mem_statements h ts (by simp) [] ts)
  exact hread.bind fun ss hss => BodyParser.yields_bind fun _ => BodyParser.yields_pure hss

theorem yields_binding (h : value.Yields (·.depth < b)) (binder : Binder) :
    (binding binder value).Yields (·.depth ≤ b) := by
  refine yields_bind fun name => yields_bind fun _ => h.bind fun v hv => ?_
  exact yields_bind fun _ => yields_pure hv

theorem yields_skillRest (h : block.Yields fun ss => ∀ s ∈ ss, s.depth ≤ b) :
    (skillRest block).Yields (·.depth ≤ b) := by
  refine BodyParser.yields_bind fun name => BodyParser.yields_bind fun _ => ?_
  refine BodyParser.yields_bind fun params => BodyParser.yields_bind fun _ => ?_
  exact h.bind fun ss hss => BodyParser.yields_pure (Stmt.deepest_le hss)

theorem yields_sweep (h : value.Yields (·.depth < b)) : (sweep value).Yields (·.depth ≤ b) := by
  refine yields_bind fun fromWord => ?_
  cases fromWord with
  | some s =>
    refine h.bind fun first hfirst => yields_bind fun _ => h.bind fun last hlast => ?_
    exact yields_bind fun _ => yields_pure (Nat.max_le.2 ⟨hfirst, hlast⟩)
  | none =>
    refine yields_bind fun inWord => ?_
    cases inWord with
    | some s => exact h.bind fun items hitems => yields_bind fun _ => yields_pure hitems
    | none => exact yields_expected _

theorem yields_ifRest (hv : value.Yields (·.depth < b)) (hs : one.Yields (·.depth ≤ b)) :
    (ifRest span value one).Yields (·.depth ≤ b + 1) := by
  refine BodyParser.yields_bind fun _ => (BodyParser.yields_lift hv).bind fun test htest => ?_
  refine BodyParser.yields_bind fun _ => hs.bind fun yes hyes => ?_
  refine BodyParser.yields_bind fun elseWord => ?_
  cases elseWord with
  | none => exact BodyParser.yields_pure (Nat.succ_le_succ (Nat.max_le.2 ⟨htest, hyes⟩))
  | some s =>
    refine hs.bind fun no hno => BodyParser.yields_pure (Nat.succ_le_succ ?_)
    exact Nat.max_le.2 ⟨Nat.max_le.2 ⟨htest, hyes⟩, hno⟩

theorem yields_keepRest (hv : value.Yields (·.depth < b)) (hs : one.Yields (·.depth ≤ b)) :
    (keepRest span value one).Yields (·.depth ≤ b + 1) := by
  refine BodyParser.yields_bind fun _ => (BodyParser.yields_lift hv).bind fun test htest => ?_
  refine BodyParser.yields_bind fun _ => hs.bind fun body hbody => ?_
  exact BodyParser.yields_pure (Nat.succ_le_succ (Nat.max_le.2 ⟨htest, hbody⟩))

theorem yields_eachRest (hv : value.Yields (·.depth < b)) (hs : one.Yields (·.depth ≤ b)) :
    (eachRest span value one).Yields (·.depth ≤ b + 1) := by
  refine BodyParser.yields_bind fun _ => BodyParser.yields_bind fun var => ?_
  refine (BodyParser.yields_lift (yields_sweep hv)).bind fun swept hswept => ?_
  refine hs.bind fun body hbody => ?_
  exact BodyParser.yields_pure (Nat.succ_le_succ (Nat.max_le.2 ⟨hswept, hbody⟩))

theorem yields_giveRest (h : value.Yields (·.depth < b)) :
    (giveRest span value).Yields (·.depth ≤ b + 1) := by
  intro ts
  refine Yields.bind_apply (P := fun v => ∀ e ∈ v, e.depth < b) ?_ fun v hv =>
    yields_bind fun _ => yields_pure ?_
  · split
    · exact of_ok (by simp)
    · exact h.bind (fun e he => yields_pure (by simpa using he)) ts
  · cases v with
    | none => exact Nat.succ_le_succ (Nat.zero_le b)
    | some e => exact Nat.succ_le_succ (hv e rfl)

theorem yields_attemptRest (h : block.Yields fun ss => ∀ s ∈ ss, s.depth ≤ b) :
    (attemptRest span block).Yields (·.depth ≤ b + 1) := by
  refine BodyParser.yields_bind fun _ => h.bind fun tried htried => ?_
  refine BodyParser.yields_bind fun _ => BodyParser.yields_bind fun errorName => ?_
  refine BodyParser.yields_bind fun _ => h.bind fun handler hhandler => ?_
  exact BodyParser.yields_pure
    (Nat.succ_le_succ (Nat.max_le.2 ⟨Stmt.deepest_le htried, Stmt.deepest_le hhandler⟩))

theorem yields_simpleStatement (hv : value.Yields (·.depth < b)) (hs : one.Yields (·.depth ≤ b))
    (hb : block.Yields fun ss => ∀ s ∈ ss, s.depth ≤ b) :
    (simpleStatement value one block).Yields (·.depth ≤ b + 1) := by
  have hexpr : (do let e ← value; terminator; return Stmt.expr e : Parser Stmt).Yields
      (·.depth ≤ b + 1) :=
    hv.bind fun e he => yields_bind fun _ => yields_pure (Nat.succ_le_succ he)
  intro ts
  unfold simpleStatement
  split
  · exact hexpr []
  · next kind span lexeme rest =>
    split
    · have hsay : (do let e ← value; terminator; return .say e span : Parser Stmt).Yields
          (·.depth ≤ b + 1) :=
        hv.bind fun e he => yields_bind fun _ => yields_pure (Nat.succ_le_succ he)
      exact hsay rest
    · exact yields_ifRest hv hs rest
    · exact yields_keepRest hv hs rest
    · exact yields_eachRest hv hs rest
    · exact yields_giveRest hv rest
    · have hstop : (do terminator; return .stop span : Parser Stmt).Yields (·.depth ≤ b + 1) :=
        yields_bind fun _ => yields_pure (Nat.succ_le_succ (Nat.zero_le b))
      exact hstop rest
    · have hskip : (do terminator; return .skip span : Parser Stmt).Yields (·.depth ≤ b + 1) :=
        yields_bind fun _ => yields_pure (Nat.succ_le_succ (Nat.zero_le b))
      exact hskip rest
    · exact yields_attemptRest hb rest
    · have hblock : (do return .block (← block) span : BodyParser Stmt).Yields
          (·.depth ≤ b + 1) :=
        hb.bind fun ss hss => BodyParser.yields_pure (Nat.succ_le_succ (Stmt.deepest_le hss))
      exact hblock rest
    · exact hexpr _

/-- No statement is deeper than there were levels left for it, skills aside. -/
theorem yields_declaration_statement (n : Nat) : ∀ b,
    (declaration n b).Yields (·.depth ≤ b) ∧ (Parser.statement n b).Yields (·.depth ≤ b) := by
  induction n with
  | zero => exact fun b => ⟨nofun, nofun⟩
  | succ n ih =>
    intro b
    have hbody : ∀ b, (body (declaration n b)).Yields fun ss => ∀ s ∈ ss, s.depth ≤ b :=
      fun b => yields_body (ih b).1
    constructor
    · intro ts
      unfold declaration
      split
      · exact yields_binding (yields_expression_unary b).1 .hold _
      · exact yields_binding (yields_expression_unary b).1 .lock _
      · exact yields_skillRest (hbody b) _
      · exact (ih b).2 ts
    · cases b with
      | zero => exact nofun
      | succ b => exact yields_simpleStatement (yields_expression_unary b).1 (ih b).2 (hbody b)

end

end Parser

end Vibe
