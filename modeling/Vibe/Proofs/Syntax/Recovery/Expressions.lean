import Vibe.Proofs.Syntax.Braces
import Vibe.Proofs.Syntax.Operators

/-! Reading an expression takes no brace, whether it comes to an end or fails. -/

namespace Vibe

/-- The error at the end of the input that a body without its closing brace ends with. -/
def Error.isUnclosed (e : Error) : Bool :=
  match e.cause with
  | .parsing (.expected what _) => what = "expected '\x7d' after block"
  | _ => false

namespace Parser

variable {α β : Type} {p : Parser α} {f : α → Parser β} {g : α → β} {kind : Kind} {what : String}
  {t : Token} {ts rest : List Token} {run : Except Error α × List Token}
  {operand value : Parser Expr}

/-- From `ts` no brace was taken, and no body was found open. -/
structure PlainRun (ts : List Token) (run : Except Error α × List Token) : Prop where
  flat : ∃ taken, ts = taken ++ run.2 ∧ ∀ t ∈ taken, t.kind.opening = 0
  closed : ∀ e, run.1 = .error e → e.isUnclosed = false

/-- The parser takes no brace and reads no body. -/
def Plain (p : Parser α) : Prop :=
  ∀ ts, PlainRun ts (p ts)

theorem PlainRun.ok (a : α) (ts : List Token) : PlainRun ts (.ok a, ts) :=
  ⟨⟨[], rfl, by simp⟩, by simp⟩

theorem PlainRun.error {e : Error} (he : e.isUnclosed = false) (ts : List Token) :
    PlainRun ts ((.error e, ts) : Except Error α × List Token) := by
  refine ⟨⟨[], rfl, by simp⟩, fun e' h => ?_⟩
  cases h
  exact he

theorem PlainRun.cons (ht : t.kind.opening = 0) (h : PlainRun rest run) :
    PlainRun (t :: rest) run := by
  obtain ⟨⟨taken, rfl, htaken⟩, hclosed⟩ := h
  exact ⟨⟨t :: taken, rfl, by simpa using ⟨ht, htaken⟩⟩, hclosed⟩

theorem PlainRun.bind (h : PlainRun ts (p ts)) (hf : ∀ a, Plain (f a)) :
    PlainRun ts ((p >>= f) ts) := by
  rw [bind_apply]
  obtain ⟨⟨taken, hts, htaken⟩, hclosed⟩ := h
  cases hp : p ts with
  | mk r mid =>
    rw [hp] at hts hclosed
    cases r with
    | error e => exact ⟨⟨taken, hts, htaken⟩, fun e' he => hclosed e' (by cases he; rfl)⟩
    | ok a =>
      obtain ⟨⟨taken', hmid, htaken'⟩, hclosed'⟩ := hf a mid
      refine ⟨⟨taken ++ taken', ?_, ?_⟩, hclosed'⟩
      · rw [List.append_assoc, ← hmid]
        exact hts
      · intro t ht
        rcases List.mem_append.1 ht with ht | ht
        · exact htaken t ht
        · exact htaken' t ht

theorem plain_pure (a : α) : Plain (pure a) :=
  fun ts => .ok a ts

theorem Plain.bind (h : Plain p) (hf : ∀ a, Plain (f a)) : Plain (p >>= f) :=
  fun ts => (h ts).bind hf

theorem Plain.map (h : Plain p) : Plain (g <$> p) :=
  h.bind fun a => plain_pure (g a)

theorem plain_expected (h : what ≠ "expected '\x7d' after block") :
    Plain (expected what : Parser α) :=
  fun ts => .error (by simpa [Error.isUnclosed] using h) ts

theorem plain_accept (h : kind.opening = 0) : Plain (accept kind) := by
  intro ts
  cases ts with
  | nil => exact .ok none []
  | cons t rest =>
    by_cases ht : t.kind = kind
    · simp only [accept, if_pos ht]
      exact .cons (ht ▸ h) (.ok _ rest)
    · simp only [accept, if_neg ht]
      exact .ok none _

theorem plain_expect (h : kind.opening = 0) (hw : what ≠ "expected '\x7d' after block") :
    Plain (expect kind what) := by
  refine (plain_accept h).bind fun found => ?_
  cases found with
  | none => exact plain_expected hw
  | some s => exact plain_pure ()

theorem expect_eq_expected (h : ∀ t ∈ ts.head?, t.kind ≠ kind) :
    expect kind what ts = expected what ts := by
  cases ts with
  | nil => rfl
  | cons t rest => simp [expect, bind_apply, accept, h t rfl]

theorem plain_expectName (hw : what ≠ "expected '\x7d' after block") :
    Plain (expectName what) := by
  intro ts
  unfold expectName
  split
  · exact .cons rfl (.ok _ _)
  · exact plain_expected hw _

theorem plain_separated (h : Plain p) (items : String) (limit : Nat) :
    Plain (separated p items limit) := by
  induction limit with
  | zero => exact fun ts => .error rfl ts
  | succ limit ih =>
    refine h.bind fun a => (plain_accept rfl).bind fun found => ?_
    cases found with
    | none => exact plain_pure _
    | some s => exact ih.bind fun as => plain_pure _

theorem plain_listUntil {close : Symbol} (h : Plain p) (hclose : (Kind.symbol close).opening = 0)
    (hw : what ≠ "expected '\x7d' after block") (items : String) :
    Plain (listUntil close p items what) := by
  intro ts
  refine PlainRun.bind ?_ (fun as => (plain_expect hclose hw).bind fun _ => plain_pure as)
  split
  · exact .ok [] ts
  · exact plain_separated h items maxItems ts

theorem plain_tooDeep : Plain (tooDeep : Parser α) :=
  fun ts => .error rfl ts

/-! ### Expressions -/

/-- No operator is a brace. -/
theorem OperatorAt.opening {l : Nat} {joined : Joiner} (h : OperatorAt l kind joined) :
    kind.opening = 0 := by
  cases h with
  | binary op => cases op <;> rfl
  | logical op => cases op <;> rfl

theorem opening_of_level {join : Kind → Option Joiner} {joined : Joiner} (hjoin : join ∈ levels)
    (h : join kind = some joined) : kind.opening = 0 := by
  obtain ⟨i, hi⟩ := List.mem_iff_getElem?.1 hjoin
  exact (levels_eq_some hi h).opening

theorem plain_chainFrom {join : Kind → Option Joiner} (hjoin : join ∈ levels)
    (h : Plain operand) (bound : List Token) (left : Expr) :
    Plain (chainFrom join operand bound left) := by
  induction bound generalizing left with
  | nil => exact plain_pure left
  | cons _ bound ih =>
    intro ts
    unfold chainFrom
    split
    · exact .ok left []
    · next t rest =>
      split
      · exact .ok left _
      · next joined hj =>
        exact .cons (opening_of_level hjoin hj) ((h rest).bind fun right => ih _)

theorem plain_chain {join : Kind → Option Joiner} (hjoin : join ∈ levels) (h : Plain operand) :
    Plain (chain join operand) :=
  fun ts => (h ts).bind fun left => plain_chainFrom hjoin h ts left

theorem plain_operation (h : Plain operand) : Plain (operation operand) :=
  List.foldrRecOn levels chain h fun _ hlevel _ hjoin => plain_chain hjoin hlevel

theorem plain_assignment (h : Plain operand) (hv : Plain value) :
    Plain (assignment operand value) := by
  refine (plain_operation h).bind fun target => (plain_accept rfl).bind fun found => ?_
  cases found with
  | none => exact plain_pure target
  | some equals =>
    refine hv.bind fun v => ?_
    cases target with
    | ident name span => exact plain_pure _
    | _ => exact fun ts => .error rfl ts

/-- No value is written as a brace. -/
theorem opening_of_literal {l : Literal} (h : kind.literal? = some l) : kind.opening = 0 := by
  cases kind with
  | symbol s => cases h
  | _ => rfl

theorem plain_primary (h : Plain value) : Plain (primary value) := by
  intro ts
  unfold primary
  split
  · exact .error rfl []
  · next t rest =>
    split
    · next v hv => exact .cons (opening_of_literal hv) (.ok _ rest)
    · split
      · next hk => exact .cons (by rw [hk]; rfl) (.ok _ rest)
      · next hk =>
        refine .cons (by rw [hk]; rfl) ((h rest).bind fun e => ?_)
        exact (plain_expect rfl (by decide)).bind fun _ => plain_pure _
      · next hk =>
        refine .cons (by rw [hk]; rfl) ?_
        exact (plain_listUntil h rfl (by decide) _ rest).bind fun es => plain_pure _
      · next hk => exact .cons (by rw [hk]; rfl) ((h rest).bind fun e => plain_pure _)
      · exact .error rfl _

theorem plain_postfixFrom (h : Plain value) (bound : List Token) (e : Expr) :
    Plain (postfixFrom value bound e) := by
  induction bound generalizing e with
  | nil => exact plain_pure e
  | cons _ bound ih =>
    intro ts
    unfold postfixFrom
    split
    · next span _ rest =>
      exact .cons rfl ((plain_listUntil h rfl (by decide) _ rest).bind fun args => ih _)
    · next span _ rest =>
      refine .cons rfl ((h rest).bind fun i => ?_)
      exact (plain_expect rfl (by decide)).bind fun _ => ih _
    · exact .ok e ts

theorem plain_postfixed (h : Plain value) : Plain (postfixed value) :=
  fun ts => (plain_primary h ts).bind fun e => plain_postfixFrom h ts e

/-- No sign is a brace. -/
theorem opening_of_unaryOp {op : UnaryOp} (h : unaryOp? kind = some op) : kind.opening = 0 := by
  unfold unaryOp? at h
  split at h
  · rfl
  · rfl
  · cases h

theorem plain_signed (h : Plain operand) (hx : Plain value) :
    Plain (signed operand value) := by
  intro ts
  unfold signed
  split
  · exact plain_postfixed hx []
  · next t rest =>
    split
    · next op hop =>
      exact .cons (opening_of_unaryOp hop) ((h rest).bind fun e => plain_pure _)
    · exact plain_postfixed hx _

theorem plain_expression_unary (b : Nat) : Plain (expression b) ∧ Plain (unary b) := by
  induction b with
  | zero => exact ⟨plain_tooDeep, plain_signed plain_tooDeep plain_tooDeep⟩
  | succ b ih =>
    obtain ⟨hexpression, hunary⟩ := ih
    have hassignment := plain_assignment hunary hexpression
    exact ⟨hassignment, plain_signed hunary hassignment⟩

end Parser
end Vibe
