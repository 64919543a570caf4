import Mathlib.Data.Nat.Init
import Vibe.Proofs.Syntax.Operators
import Vibe.Proofs.Syntax.Reading

/-! What the parser reads as an expression is the expression written out, in its one shape, and
nothing that would go on with it is left behind it. -/

namespace Vibe.Parser

variable {i j k l b : Nat} {kind : Kind} {join : Kind → Option Joiner} {joined : Joiner}
  {p operand expression : Parser Expr} {e left right : Expr} {span : Span}
  {ts mid start rest : List Token}

/-- Reading from `ts` to `rest` takes an expression of level `k` or tighter, and what is left does
not go on with level `j` or tighter. -/
structure Reads (k j : Nat) (e : Expr) (ts rest : List Token) : Prop where
  consumes : Consumes e.marks ts rest
  canonical : e.Canonical
  level : k ≤ e.level
  ends : Ends j rest
  closes : e.isOpen = true → Ends 0 rest

/-- The parser reads only expressions of the given level, each of them to its end. -/
def Sound (k : Nat) (p : Parser Expr) : Prop :=
  ∀ ⦃ts e rest⦄, p ts = (.ok e, rest) → Reads k k e ts rest

theorem sound_tooDeep : Sound k tooDeep := by
  intro ts e rest h
  cases h

/-- An operator with its two sides. -/
theorem Reads.operator (ho : OperatorAt (i + 1) kind joined) (hl : Reads (i + 1) j left start ts)
    {t : Token} (hts : ts = t :: mid) (ht : t.kind = kind)
    (hr : Reads (i + 2) (i + 2) right mid rest) :
    Reads (i + 1) (i + 2) (joined left right t.span) start rest := by
  subst hts
  -- An open left side would have taken the operator.
  have closed : left.isOpen = false := by
    by_contra hopen
    have := hl.closes (by simpa using hopen) t rfl (i + 1) (by rw [ht, ho.reach]; rfl)
    omega
  have consumes : Consumes (left.marks ++ ⟨kind, t.span⟩ :: right.marks) start rest :=
    hl.consumes.append (.placed ht ho.ne_semicolon hr.consumes)
  have ll := hl.level
  have lr := hr.level
  generalize hlevel : i + 1 = l at ho ll
  cases ho with
  | binary op =>
    exact ⟨consumes, .binary _ hl.canonical hr.canonical ll (by omega) closed,
      by simp [joinBinary, Expr.level], hr.ends, hr.closes⟩
  | logical op =>
    exact ⟨consumes, .logical _ hl.canonical hr.canonical ll (by omega) closed,
      by simp [joinLogical, Expr.level], hr.ends, hr.closes⟩

theorem chainFrom_reads (hl : levels[i]? = some join) (ho : Sound (i + 2) operand)
    {bound : List Token} (hb : ts.length ≤ bound.length)
    (hleft : Reads (i + 1) (i + 2) left start ts)
    (h : chainFrom join operand bound left ts = (.ok e, rest)) :
    Reads (i + 1) (i + 1) e start rest := by
  induction bound generalizing left ts with
  | nil =>
    obtain ⟨rfl, rfl⟩ := pure_eq_ok.1 h
    obtain rfl : ts = [] := by simpa using hb
    exact { hleft with ends := .nil }
  | cons _ bound ih =>
    unfold chainFrom at h
    split at h
    · cases h
      exact { hleft with ends := .nil }
    · next t mid =>
      split at h
      · next hj =>
        cases h
        refine { hleft with ends := hleft.ends.pred ?_ }
        intro u hu
        obtain rfl : t = u := by simpa using hu
        exact levels_eq_none hl hj
      · next joined hj =>
        obtain ⟨right, end', hright, h⟩ := bind_eq_ok.1 h
        have hr := ho hright
        have := hr.consumes.length_le
        refine ih (by simp at hb; omega) ?_ h
        exact .operator (levels_eq_some hl hj) hleft rfl rfl hr

theorem sound_chain (hl : levels[i]? = some join) (ho : Sound (i + 2) operand) :
    Sound (i + 1) (chain join operand) := by
  intro ts e rest h
  unfold chain at h
  obtain ⟨left, mid, hleft, h⟩ := bind_eq_ok.1 h
  have hr := ho hleft
  have := hr.consumes.length_le
  exact chainFrom_reads hl ho (by omega) { hr with level := by have := hr.level; omega } h

/-- From the tightest level to the loosest. -/
theorem sound_tower (ho : Sound 7 operand) (hi : i ≤ 6) : Sound (i + 1) (tower i operand) := by
  induction hi using Nat.decreasingInduction with
  | self => exact ho
  | of_succ i hi ih =>
    have hl : levels[i]? = some levels[i] := List.getElem?_eq_getElem hi
    rw [tower_of_level hl]
    exact sound_chain hl ih

theorem sound_assignment (ho : Sound 7 operand) (hv : Sound 0 expression) :
    Sound 0 (assignment operand expression) := by
  intro ts e rest h
  unfold assignment at h
  obtain ⟨target, mid, htarget, h⟩ := bind_eq_ok.1 h
  rw [operation_eq_tower] at htarget
  have hr := sound_tower ho (Nat.zero_le 6) htarget
  obtain ⟨_ | equals, mid', heq, h⟩ := bind_eq_ok.1 h
  · obtain ⟨rfl, rfl⟩ := pure_eq_ok.1 h
    obtain ⟨rfl, hne⟩ := accept_eq_none.1 heq
    have hends : Ends 0 mid :=
      hr.ends.pred fun t ht h0 => hne t ht (Kind.eq_equal_of_reach h0)
    exact { hr with level := Nat.zero_le _, ends := hends }
  · obtain ⟨v, mid'', hvalue, h⟩ := bind_eq_ok.1 h
    obtain ⟨t, rfl, ht, rfl⟩ := accept_eq_some.1 heq
    have hrv := hv hvalue
    cases target with
    | ident name span =>
      obtain ⟨rfl, rfl⟩ := pure_eq_ok.1 h
      refine ⟨?_, .assign name span hrv.canonical, Nat.zero_le _, hrv.ends, fun _ => hrv.ends⟩
      exact hr.consumes.append (.bare ht (by simp) hrv.consumes)
    | _ => cases h

theorem listUntil_sound {close : Symbol} {items what : String} {es : List Expr}
    (hx : Sound 0 expression) (hclose : close ≠ .semicolon)
    (h : listUntil close expression items what ts = (.ok es, rest)) :
    Consumes (Mark.listed (es.map Expr.marks) ++ [Mark.sign close]) ts rest ∧ es.length ≤ 255 ∧
      ∀ e ∈ es, e.Canonical :=
  listUntil_reads (fun _ _ _ he => ⟨(hx he).consumes, (hx he).canonical⟩) hclose h

/-- A primary expression, which calls and indexes may follow. -/
theorem primary_reads (hx : Sound 0 expression) (h : primary expression ts = (.ok e, rest)) :
    Consumes e.marks ts rest ∧ e.Canonical ∧ e.level = 8 ∧ (e.isOpen = true → Ends 0 rest) := by
  unfold primary at h
  split at h
  · cases h
  · next t mid =>
    split at h
    · next v hv =>
      cases h
      have hkind : t.kind = v.kind := (literal?_eq_some.1 hv).symm
      refine ⟨.placed hkind ?_ .nil, .literal v t.span, rfl, by simp [Expr.isOpen]⟩
      cases v with
      | bool b => cases b <;> simp [Literal.kind]
      | _ => simp [Literal.kind]
    · split at h
      · next name hk =>
        cases h
        exact ⟨.placed hk (by simp) .nil, .ident name t.span, rfl, by simp [Expr.isOpen]⟩
      · next hk =>
        obtain ⟨inner, mid', hi, h⟩ := bind_eq_ok.1 h
        obtain ⟨_, mid'', hclose, h⟩ := bind_eq_ok.1 h
        obtain ⟨rfl, rfl⟩ := pure_eq_ok.1 h
        have hr := hx hi
        refine ⟨?_, .group t.span hr.canonical, rfl, by simp [Expr.isOpen]⟩
        exact .placed hk (by simp) (hr.consumes.append (expect_consumes hclose (by simp)))
      · next hk =>
        obtain ⟨es, mid', hes, h⟩ := bind_eq_ok.1 h
        obtain ⟨rfl, rfl⟩ := pure_eq_ok.1 h
        obtain ⟨hc, count, hg⟩ := listUntil_sound hx (by simp) hes
        refine ⟨?_, .array t.span count hg, rfl, by simp [Expr.isOpen]⟩
        rw [Expr.marks, Expr.marksEach_eq_map]
        exact .placed hk (by simp) hc
      · next hk =>
        obtain ⟨prompt, mid', hp, h⟩ := bind_eq_ok.1 h
        obtain ⟨rfl, rfl⟩ := pure_eq_ok.1 h
        have hr := hx hp
        exact ⟨.placed hk (by simp) hr.consumes, .ask t.span hr.canonical, rfl,
          fun _ => hr.ends⟩
      · cases h

theorem postfixFrom_reads (hx : Sound 0 expression) {bound : List Token}
    (hb : ts.length ≤ bound.length) (hc : Consumes e.marks start ts) (he : e.Canonical)
    (hl : e.level = 8) (hopen : e.isOpen = true → Ends 0 ts)
    (h : postfixFrom expression bound e ts = (.ok left, rest)) : Reads 7 7 left start rest := by
  induction bound generalizing e ts with
  | nil =>
    obtain ⟨rfl, rfl⟩ := pure_eq_ok.1 h
    obtain rfl : ts = [] := by simpa using hb
    exact ⟨hc, he, by omega, .nil, hopen⟩
  | cons _ bound ih =>
    have closed {t : Token} {mid : List Token} (hts : ts = t :: mid)
        (ht : t.kind.reach = some 8) : e.isOpen = false := by
      by_contra ho
      have := hopen (by simpa using ho) t (by simp [hts]) 8 (by simp [ht])
      omega
    unfold postfixFrom at h
    split at h
    · next span lexeme mid =>
      obtain ⟨args, mid', hargs, h⟩ := bind_eq_ok.1 h
      obtain ⟨hca, count, hg⟩ := listUntil_sound hx (by simp) hargs
      have hlen := hca.length_le
      refine ih (by simp at hb hlen; omega) ?_ (.call span he hl (closed rfl rfl) count hg) rfl
        (by simp [Expr.isOpen]) h
      rw [Expr.marks, Expr.marksEach_eq_map]
      simpa using hc.append (.placed rfl (by simp) hca)
    · next span lexeme mid =>
      obtain ⟨position, mid', hp, h⟩ := bind_eq_ok.1 h
      obtain ⟨_, mid'', hclose, h⟩ := bind_eq_ok.1 h
      have hr := hx hp
      have hcs := hr.consumes.append (expect_consumes hclose (by simp))
      have hlen := hcs.length_le
      refine ih (by simp at hb hlen; omega) ?_ (.index span he hl (closed rfl rfl) hr.canonical) rfl
        (by simp [Expr.isOpen]) h
      rw [Expr.marks]
      simpa [Mark.sign] using hc.append (.placed rfl (by simp) hcs)
    · next hcall hindex =>
      cases h
      refine ⟨hc, he, by omega, .of_not_opens ?_, hopen⟩
      rintro ⟨kind, span, lexeme⟩ ht
      obtain ⟨rest, rfl⟩ := List.head?_eq_some_iff.1 ht
      exact ⟨by rintro rfl; exact hcall _ _ _ rfl, by rintro rfl; exact hindex _ _ _ rfl⟩

theorem sound_postfixed (hx : Sound 0 expression) : Sound 7 (postfixed expression) := by
  intro ts e rest h
  unfold postfixed at h
  obtain ⟨first, mid, hfirst, h⟩ := bind_eq_ok.1 h
  obtain ⟨hc, he, hl, hopen⟩ := primary_reads hx hfirst
  have := hc.length_le
  exact postfixFrom_reads hx (by omega) hc he hl hopen h

theorem sound_signed (ho : Sound 7 operand) (hx : Sound 0 expression) :
    Sound 7 (signed operand expression) := by
  intro ts e rest h
  unfold signed at h
  split at h
  · exact sound_postfixed hx h
  · next t mid =>
    split at h
    · next op hop =>
      obtain ⟨inner, mid', hi, h⟩ := bind_eq_ok.1 h
      obtain ⟨rfl, rfl⟩ := pure_eq_ok.1 h
      have hr := ho hi
      have hne : op.kind ≠ .symbol .semicolon := by cases op <;> simp [UnaryOp.kind]
      have hkind : t.kind = op.kind := (unaryOp?_eq_some.1 hop).symm
      exact ⟨.placed hkind hne hr.consumes, .unary op t.span hr.canonical hr.level,
        Nat.le_refl 7, hr.ends, hr.closes⟩
    · exact sound_postfixed hx h

/-- With any budget, what is read is the expression written out. -/
theorem sound_expression_unary (b : Nat) : Sound 0 (Parser.expression b) ∧ Sound 7 (unary b) := by
  induction b with
  | zero => exact ⟨sound_tooDeep, sound_signed sound_tooDeep sound_tooDeep⟩
  | succ b ih =>
    have hx : Sound 0 (Parser.expression (b + 1)) := sound_assignment ih.2 ih.1
    refine ⟨hx, ?_⟩
    rw [unary_succ]
    exact sound_signed ih.2 hx

end Vibe.Parser
