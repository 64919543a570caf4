import Vibe.Proofs.Syntax.Reading

/-! Where expressions fail: at a token that is read, at the next one or at the end of the input. -/

namespace Vibe.Parser

variable {α β : Type} {p : Parser α} {f : α → Parser β} {g : α → β} {kind : Kind} {what : String}
  {t : Token} {ts mid rest : List Token} {run : Except Error α × List Token} {e : Error}
  {operand value : Parser Expr}

/-- From `ts` the run takes tokens at the front. An error stands at the end, where nothing is left,
or at a token that the run came to. -/
structure SitedRun (ts : List Token) (run : Except Error α × List Token) : Prop where
  suffix : run.2 <:+ ts
  site : ∀ e, run.1 = .error e → (e.span = none ∧ run.2 = []) ∨
    ∃ t mid, e.span = some t.span ∧ run.2 <:+ t :: mid ∧ t :: mid <:+ ts

/-- All errors of the parser stand at tokens that it came to. -/
def Sited (p : Parser α) : Prop :=
  ∀ ts, SitedRun ts (p ts)

theorem SitedRun.ok (a : α) (ts : List Token) : SitedRun ts (.ok a, ts) :=
  ⟨List.suffix_refl ts, nofun⟩

/-- The error stands at the next token. -/
theorem SitedRun.here (h : e.span = place ts) :
    SitedRun ts ((.error e, ts) : Except Error α × List Token) := by
  refine ⟨List.suffix_refl ts, fun e' he => ?_⟩
  cases he
  cases ts with
  | nil => exact .inl ⟨h, rfl⟩
  | cons t mid => exact .inr ⟨t, mid, h, List.suffix_refl _, List.suffix_refl _⟩

theorem SitedRun.mono (h : SitedRun rest run) (hrest : rest <:+ ts) : SitedRun ts run := by
  refine ⟨h.suffix.trans hrest, fun e he => (h.site e he).imp_right ?_⟩
  rintro ⟨t, mid, hspan, hleft, hmid⟩
  exact ⟨t, mid, hspan, hleft, hmid.trans hrest⟩

theorem SitedRun.cons (h : SitedRun rest run) : SitedRun (t :: rest) run :=
  h.mono (List.suffix_cons t rest)

/-- What was taken before counts for both parsers. -/
theorem SitedRun.seq (h : SitedRun ts (p mid))
    (hf : ∀ a left, left <:+ ts → p mid = (.ok a, left) → SitedRun ts (f a left)) :
    SitedRun ts ((p >>= f) mid) := by
  rw [bind_apply]
  rcases hp : p mid with ⟨e | a, left⟩ <;> rw [hp] at h
  · exact ⟨h.suffix, fun e' he => h.site e' (by cases he; rfl)⟩
  · exact hf a left h.suffix hp

theorem SitedRun.bind (h : SitedRun ts (p ts)) (hf : ∀ a, Sited (f a)) :
    SitedRun ts ((p >>= f) ts) :=
  h.seq fun a left hleft _ => (hf a left).mono hleft

theorem sited_pure (a : α) : Sited (pure a) :=
  fun ts => .ok a ts

theorem Sited.bind (h : Sited p) (hf : ∀ a, Sited (f a)) : Sited (p >>= f) :=
  fun ts => (h ts).bind hf

theorem Sited.map (h : Sited p) : Sited (g <$> p) :=
  h.bind fun a => sited_pure (g a)

theorem sited_expected (what : String) : Sited (expected what : Parser α) :=
  fun _ => .here rfl

theorem sited_tooDeep : Sited (tooDeep : Parser α) :=
  fun _ => .here rfl

theorem sited_accept (kind : Kind) : Sited (accept kind) := by
  intro ts
  cases ts with
  | nil => exact .ok none []
  | cons t rest =>
    by_cases ht : t.kind = kind
    · simp only [accept, if_pos ht]
      exact .cons (.ok _ rest)
    · simp only [accept, if_neg ht]
      exact .ok none _

theorem sited_expect (kind : Kind) (what : String) : Sited (expect kind what) := by
  refine (sited_accept kind).bind fun found => ?_
  cases found with
  | none => exact sited_expected what
  | some s => exact sited_pure ()

theorem sited_expectName (what : String) : Sited (expectName what) := by
  intro ts
  unfold expectName
  split
  · exact .cons (.ok _ _)
  · exact sited_expected what _

theorem sited_separated (h : Sited p) (items : String) (limit : Nat) :
    Sited (separated p items limit) := by
  induction limit with
  | zero => exact fun _ => .here rfl
  | succ limit ih =>
    refine h.bind fun a => (sited_accept _).bind fun found => ?_
    cases found with
    | none => exact sited_pure _
    | some s => exact ih.bind fun as => sited_pure _

theorem sited_listUntil (close : Symbol) (h : Sited p) (items what : String) :
    Sited (listUntil close p items what) := by
  intro ts
  refine SitedRun.bind ?_ fun as => (sited_expect _ what).bind fun _ => sited_pure as
  split
  · exact .ok [] ts
  · exact sited_separated h items maxItems ts

/-! ### Expressions -/

theorem sited_chainFrom (join : Kind → Option Joiner) (h : Sited operand) (bound : List Token)
    (left : Expr) : Sited (chainFrom join operand bound left) := by
  induction bound generalizing left with
  | nil => exact sited_pure left
  | cons _ bound ih =>
    intro ts
    unfold chainFrom
    split
    · exact .ok left []
    · split
      · exact .ok left _
      · exact .cons ((h _).bind fun right => ih _)

theorem sited_chain (join : Kind → Option Joiner) (h : Sited operand) :
    Sited (chain join operand) :=
  fun ts => (h ts).bind fun left => sited_chainFrom join h ts left

theorem sited_operation (h : Sited operand) : Sited (operation operand) :=
  List.foldrRecOn levels chain h fun _ hlevel join _ => sited_chain join hlevel

/-- A target that cannot be assigned to is told of at the equals sign, which was taken before the
value. -/
theorem sited_assignment (h : Sited operand) (hv : Sited value) :
    Sited (assignment operand value) := by
  refine (sited_operation h).bind fun target ts => ?_
  refine (sited_accept _ ts).seq fun found rest hrest hfound => ?_
  cases found with
  | none => exact (sited_pure target rest).mono hrest
  | some equals =>
    obtain ⟨t, rfl, -, rfl⟩ := accept_eq_some.1 hfound
    refine (hv rest).cons.seq fun v left hleft _ => ?_
    cases target with
    | ident name span => exact (sited_pure _ left).mono hleft
    | _ => exact ⟨hleft, fun e he => .inr ⟨t, rest, by cases he; rfl, hleft, List.suffix_refl _⟩⟩

theorem sited_primary (h : Sited value) : Sited (primary value) := by
  intro ts
  unfold primary
  split
  · exact .here rfl
  · next t rest =>
    split
    · exact .cons (.ok _ rest)
    · split
      · exact .cons (.ok _ rest)
      · refine .cons ((h rest).bind fun e => ?_)
        exact (sited_expect _ _).bind fun _ => sited_pure _
      · exact .cons ((sited_listUntil _ h _ _ rest).bind fun es => sited_pure _)
      · exact .cons ((h rest).bind fun e => sited_pure _)
      · exact .here rfl

theorem sited_postfixFrom (h : Sited value) (bound : List Token) (e : Expr) :
    Sited (postfixFrom value bound e) := by
  induction bound generalizing e with
  | nil => exact sited_pure e
  | cons _ bound ih =>
    intro ts
    unfold postfixFrom
    split
    · exact .cons ((sited_listUntil _ h _ _ _).bind fun args => ih _)
    · refine .cons ((h _).bind fun i => ?_)
      exact (sited_expect _ _).bind fun _ => ih _
    · exact .ok e ts

theorem sited_postfixed (h : Sited value) : Sited (postfixed value) :=
  fun ts => (sited_primary h ts).bind fun e => sited_postfixFrom h ts e

theorem sited_signed (h : Sited operand) (hx : Sited value) : Sited (signed operand value) := by
  intro ts
  unfold signed
  split
  · exact sited_postfixed hx []
  · split
    · exact .cons ((h _).bind fun e => sited_pure _)
    · exact sited_postfixed hx _

theorem sited_expression_unary (b : Nat) : Sited (expression b) ∧ Sited (unary b) := by
  induction b with
  | zero => exact ⟨sited_tooDeep, sited_signed sited_tooDeep sited_tooDeep⟩
  | succ b ih =>
    obtain ⟨hexpression, hunary⟩ := ih
    have hassignment := sited_assignment hunary hexpression
    exact ⟨hassignment, sited_signed hunary hassignment⟩

end Vibe.Parser
