import Vibe.Proofs.Syntax.Reading
import Vibe.Proofs.Syntax.Recovery.Expressions

/-! Where an expression ends, the end of the input and a token that begins a statement are the same
to the parsers. So what is read does not change when tokens are put behind it that begin with such
a token. -/

namespace Vibe

/-- Nothing stands there, or a token that begins a statement. -/
def Fresh (tail : List Token) : Prop :=
  ∀ t ∈ tail.head?, t.kind.startsStatement = true

namespace Fresh

variable {tail : List Token} {t : Token} {kind : Kind}

theorem kind_ne (h : Fresh tail) (hkind : kind.startsStatement = false) (ht : t ∈ tail.head?) :
    t.kind ≠ kind := by
  rintro rfl
  rw [h t ht] at hkind
  cases hkind

/-- No operator begins a statement. -/
theorem not_operatorAt (h : Fresh tail) (ht : t ∈ tail.head?) {l : Nat} {joined : Parser.Joiner} :
    ¬ Parser.OperatorAt l t.kind joined := by
  intro hop
  have hstarts := h t ht
  generalize t.kind = kind at hop hstarts
  cases hop with
  | binary op => cases hstarts
  | logical op => cases op <;> cases hstarts

end Fresh

namespace Parser

variable {α β : Type} {p : Parser α} {f : α → Parser β} {g : α → β} {kind : Kind} {what : String}
  {tail ts rest : List Token} {operand value : Parser Expr} {a : α}

/-- What is read stays the same with the tail behind the tokens, and the tail is left. -/
def Extends (tail : List Token) (p : Parser α) : Prop :=
  ∀ ⦃ts a rest⦄, p ts = (.ok a, rest) → p (ts ++ tail) = (.ok a, rest ++ tail)

theorem extends_pure (a : α) : Extends tail (pure a) := by
  intro ts a' rest h
  obtain ⟨rfl, rfl⟩ := pure_eq_ok.1 h
  rfl

theorem Extends.bind (h : Extends tail p) (hf : ∀ a, Extends tail (f a)) :
    Extends tail (p >>= f) := by
  intro ts b rest hrun
  obtain ⟨a, mid, hp, hrest⟩ := bind_eq_ok.1 hrun
  rw [bind_of_ok (h hp)]
  exact hf a hrest

theorem Extends.map (h : Extends tail p) : Extends tail (g <$> p) :=
  h.bind fun a => extends_pure (g a)

/-- What is left is the end of what there was. -/
theorem Plain.suffix (h : Plain p) (ts : List Token) : (p ts).2 <:+ ts := by
  obtain ⟨taken, hts, -⟩ := (h ts).flat
  exact ⟨taken, hts.symm⟩

theorem Plain.length_le (h : Plain p) (hrun : p ts = (.ok a, rest)) :
    rest.length ≤ ts.length := by
  have hle := (h.suffix ts).length_le
  rwa [hrun] at hle

/-- What never reads anything does so with the tail as well. -/
theorem extends_of_never (h : ∀ ts a rest, p ts ≠ (.ok a, rest)) : Extends tail p :=
  fun ts a rest hrun => (h ts a rest hrun).elim

theorem extends_fail (cause : SyntaxCause) (span : Option Span) :
    Extends tail (fail cause span : Parser α) :=
  extends_of_never nofun

theorem extends_expected (what : String) : Extends tail (expected what : Parser α) :=
  extends_of_never nofun

theorem extends_tooDeep : Extends tail (tooDeep : Parser α) :=
  extends_of_never nofun

variable (hfresh : Fresh tail)

include hfresh

theorem extends_accept (hkind : kind.startsStatement = false) : Extends tail (accept kind) := by
  intro ts found rest h
  cases ts with
  | nil =>
    cases h
    exact accept_eq_none.2 ⟨rfl, fun t ht => hfresh.kind_ne hkind ht⟩
  | cons t ts =>
    rw [accept] at h
    rw [List.cons_append, accept]
    split at h
    · next ht =>
      cases h
      rw [if_pos ht]
    · next ht =>
      cases h
      rw [if_neg ht]
      rfl

theorem extends_expect (hkind : kind.startsStatement = false) :
    Extends tail (expect kind what) := by
  refine (extends_accept hfresh hkind).bind fun found => ?_
  cases found with
  | none => exact extends_expected what
  | some s => exact extends_pure ()

omit hfresh in
theorem extends_expectName : Extends tail (expectName what) := by
  intro ts name rest h
  obtain ⟨t, rfl, hkind, hspan⟩ := expectName_eq_ok.1 h
  exact expectName_eq_ok.2 ⟨t, rfl, hkind, hspan⟩

theorem nextIs_append (hkind : kind.startsStatement = false) (ts : List Token) :
    nextIs kind (ts ++ tail) = nextIs kind ts := by
  cases ts with
  | nil =>
    cases tail with
    | nil => rfl
    | cons t tail => exact decide_eq_false (hfresh.kind_ne hkind rfl)
  | cons t ts => rfl

theorem extends_separated (h : Extends tail p) (items : String) (limit : Nat) :
    Extends tail (separated p items limit) := by
  induction limit with
  | zero => exact extends_of_never nofun
  | succ limit ih =>
    refine h.bind fun a => (extends_accept hfresh rfl).bind fun found => ?_
    cases found with
    | none => exact extends_pure _
    | some s => exact ih.bind fun as => extends_pure _

theorem extends_listUntil (h : Extends tail p) (close : Symbol) (items : String) :
    Extends tail (listUntil close p items what) := by
  intro ts as rest hrun
  obtain ⟨as', mid, has, hclose⟩ := bind_eq_ok.1 hrun
  have hlist : (if nextIs (.symbol close) (ts ++ tail) then pure []
      else separated p items maxItems : Parser (List α)) (ts ++ tail) = (.ok as', mid ++ tail) := by
    rw [nextIs_append hfresh rfl]
    split at has
    · next hnext =>
      rw [if_pos hnext]
      exact extends_pure [] has
    · next hnext =>
      rw [if_neg hnext]
      exact extends_separated hfresh h items maxItems has
  refine (bind_of_ok hlist).trans ?_
  exact ((extends_expect hfresh rfl).bind fun _ => extends_pure as') hclose

/-! ### Expressions -/

theorem chainFrom_of_fresh {join : Kind → Option Joiner} (hjoin : join ∈ levels)
    (bound : List Token) (left : Expr) :
    chainFrom join operand bound left tail = (.ok left, tail) := by
  cases bound with
  | nil => rfl
  | cons _ bound =>
    cases tail with
    | nil => rfl
    | cons t tail =>
      obtain ⟨i, hi⟩ := List.mem_iff_getElem?.1 hjoin
      have hnone : join t.kind = none := by
        by_contra hsome
        obtain ⟨joined, hj⟩ := Option.ne_none_iff_exists'.1 hsome
        exact hfresh.not_operatorAt rfl (levels_eq_some hi hj)
      simp only [chainFrom, hnone]

/-- Whatever the bounds are, if they are long enough the chain is the same. -/
theorem chainFrom_append {join : Kind → Option Joiner} (hjoin : join ∈ levels)
    (h : Extends tail operand) (hplain : Plain operand) {bound bound' : List Token}
    (hb : ts.length ≤ bound.length) (hb' : ts.length ≤ bound'.length) {left e : Expr}
    (hrun : chainFrom join operand bound left ts = (.ok e, rest)) :
    chainFrom join operand bound' left (ts ++ tail) = (.ok e, rest ++ tail) := by
  induction bound generalizing bound' left ts with
  | nil =>
    obtain rfl : ts = [] := by simpa using hb
    obtain ⟨rfl, rfl⟩ := pure_eq_ok.1 hrun
    exact chainFrom_of_fresh hfresh hjoin bound' left
  | cons _ bound ih =>
    cases ts with
    | nil =>
      cases hrun
      exact chainFrom_of_fresh hfresh hjoin bound' _
    | cons t mid =>
      obtain ⟨u, bound', rfl⟩ :=
        List.exists_cons_of_length_pos (Nat.lt_of_lt_of_le (Nat.succ_pos _) hb')
      simp only [List.length_cons, Nat.add_le_add_iff_right] at hb hb'
      simp only [List.cons_append, chainFrom] at hrun ⊢
      cases hj : join t.kind with
      | none =>
        rw [hj] at hrun
        cases hrun
        rfl
      | some joined =>
        rw [hj] at hrun
        obtain ⟨right, end', hright, hrun⟩ := bind_eq_ok.1 hrun
        have hle := hplain.length_le hright
        refine (bind_of_ok (h hright)).trans ?_
        exact ih (Nat.le_trans hle hb) (Nat.le_trans hle hb') hrun

theorem extends_chain {join : Kind → Option Joiner} (hjoin : join ∈ levels)
    (h : Extends tail operand) (hplain : Plain operand) : Extends tail (chain join operand) := by
  intro ts e rest hrun
  obtain ⟨left, mid, hleft, hrun⟩ := bind_eq_ok.1 hrun
  have hle := hplain.length_le hleft
  refine (bind_of_ok (h hleft)).trans ?_
  refine chainFrom_append hfresh hjoin h hplain hle ?_ hrun
  rw [List.length_append]
  omega

theorem extends_operation (h : Extends tail operand) (hplain : Plain operand) :
    Extends tail (operation operand) := by
  have hboth : Extends tail (operation operand) ∧ Plain (operation operand) :=
    List.foldrRecOn (motive := fun p => Extends tail p ∧ Plain p) levels chain ⟨h, hplain⟩
      fun _ hlevel _ hjoin =>
        ⟨extends_chain hfresh hjoin hlevel.1 hlevel.2, plain_chain hjoin hlevel.2⟩
  exact hboth.1

theorem extends_assignment (h : Extends tail operand) (hplain : Plain operand)
    (hv : Extends tail value) : Extends tail (assignment operand value) := by
  refine (extends_operation hfresh h hplain).bind fun target => ?_
  refine (extends_accept hfresh rfl).bind fun found => ?_
  cases found with
  | none => exact extends_pure target
  | some equals =>
    refine hv.bind fun v => ?_
    cases target with
    | ident name span => exact extends_pure _
    | _ => exact extends_fail _ _

theorem extends_primary (h : Extends tail value) : Extends tail (primary value) := by
  intro ts e rest hrun
  cases ts with
  | nil => cases hrun
  | cons t mid =>
    simp only [List.cons_append, primary] at hrun ⊢
    cases hliteral : t.kind.literal? with
    | some v =>
      rw [hliteral] at hrun
      cases hrun
      rfl
    | none =>
      rw [hliteral] at hrun
      simp only at hrun ⊢
      split at hrun
      · cases hrun
        rfl
      · refine (h.bind fun e => ?_) hrun
        exact (extends_expect hfresh rfl).bind fun _ => extends_pure _
      · exact ((extends_listUntil hfresh h _ _).bind fun es => extends_pure _) hrun
      · exact (h.bind fun e => extends_pure _) hrun
      · cases hrun

theorem postfixFrom_of_fresh (bound : List Token) (e : Expr) :
    postfixFrom value bound e tail = (.ok e, tail) := by
  cases bound with
  | nil => rfl
  | cons _ bound =>
    unfold postfixFrom
    split
    · cases hfresh _ rfl
    · cases hfresh _ rfl
    · rfl

theorem postfixFrom_append (h : Extends tail value) (hplain : Plain value)
    {bound bound' : List Token} (hb : ts.length ≤ bound.length) (hb' : ts.length ≤ bound'.length)
    {e e' : Expr} (hrun : postfixFrom value bound e ts = (.ok e', rest)) :
    postfixFrom value bound' e (ts ++ tail) = (.ok e', rest ++ tail) := by
  induction bound generalizing bound' e ts with
  | nil =>
    obtain rfl : ts = [] := by simpa using hb
    obtain ⟨rfl, rfl⟩ := pure_eq_ok.1 hrun
    exact postfixFrom_of_fresh hfresh bound' e
  | cons _ bound ih =>
    cases ts with
    | nil =>
      cases hrun
      exact postfixFrom_of_fresh hfresh bound' _
    | cons t mid =>
      obtain ⟨u, bound', rfl⟩ :=
        List.exists_cons_of_length_pos (Nat.lt_of_lt_of_le (Nat.succ_pos _) hb')
      simp only [List.length_cons, Nat.add_le_add_iff_right] at hb hb'
      unfold postfixFrom at hrun
      split at hrun
      · next span lexeme mid' hts =>
        cases hts
        obtain ⟨args, end', hargs, hrun⟩ := bind_eq_ok.1 hrun
        have hle := (plain_listUntil hplain rfl (by decide) _).length_le hargs
        refine (bind_of_ok (extends_listUntil hfresh h _ _ hargs)).trans ?_
        exact ih (Nat.le_trans hle hb) (Nat.le_trans hle hb') hrun
      · next span lexeme mid' hts =>
        cases hts
        obtain ⟨i, end', hi, hrun⟩ := bind_eq_ok.1 hrun
        obtain ⟨_, end'', hclose, hrun⟩ := bind_eq_ok.1 hrun
        have hle := ((plain_expect rfl (by decide)).length_le hclose).trans (hplain.length_le hi)
        refine (bind_of_ok (h hi)).trans ((bind_of_ok (extends_expect hfresh rfl hclose)).trans ?_)
        exact ih (Nat.le_trans hle hb) (Nat.le_trans hle hb') hrun
      · next hcall hindex =>
        cases hrun
        unfold postfixFrom
        split
        · next hts =>
          cases hts
          exact (hcall _ _ _ rfl).elim
        · next hts =>
          cases hts
          exact (hindex _ _ _ rfl).elim
        · rfl

theorem extends_postfixed (h : Extends tail value) (hplain : Plain value) :
    Extends tail (postfixed value) := by
  intro ts e rest hrun
  obtain ⟨first, mid, hfirst, hrun⟩ := bind_eq_ok.1 hrun
  have hle := (plain_primary hplain).length_le hfirst
  refine (bind_of_ok (extends_primary hfresh h hfirst)).trans ?_
  refine postfixFrom_append hfresh h hplain hle ?_ hrun
  rw [List.length_append]
  omega

theorem extends_signed (h : Extends tail operand) (hv : Extends tail value)
    (hplain : Plain value) : Extends tail (signed operand value) := by
  intro ts e rest hrun
  cases ts with
  | nil => cases hrun
  | cons t mid =>
    simp only [List.cons_append, signed] at hrun ⊢
    cases hop : unaryOp? t.kind with
    | some op =>
      rw [hop] at hrun
      exact (h.bind fun e => extends_pure _) hrun
    | none =>
      rw [hop] at hrun
      exact extends_postfixed hfresh hv hplain hrun

theorem extends_expression_unary (b : Nat) :
    Extends tail (expression b) ∧ Extends tail (unary b) := by
  induction b with
  | zero =>
    exact ⟨extends_tooDeep, extends_signed hfresh extends_tooDeep extends_tooDeep plain_tooDeep⟩
  | succ b ih =>
    obtain ⟨hexpression, hunary⟩ := ih
    obtain ⟨hplain, hplain'⟩ := plain_expression_unary b
    have hassignment := extends_assignment hfresh hunary hplain' hexpression
    exact ⟨hassignment, extends_signed hfresh hunary hassignment (plain_assignment hplain' hplain)⟩

end Parser
end Vibe
