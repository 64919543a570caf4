import Mathlib.Data.Nat.Init
import Vibe.Proofs.Syntax.Operators
import Vibe.Proofs.Syntax.Reading

/-! Every expression of the one shape is read back from its written form, if its nesting is within
the budget and nothing that would go on with it follows. -/

namespace Vibe.Parser

variable {i k d b : Nat} {kind : Kind} {join : Kind → Option Joiner} {joined : Joiner}
  {p operand expression : Parser Expr} {e e' : Expr} {t : Token}
  {us rest bound : List Token}

/-- The parser reads back every expression of the given level whose nesting is below `d`. -/
def Complete (k d : Nat) (p : Parser Expr) : Prop :=
  ∀ ⦃e : Expr⦄ ⦃us rest : List Token⦄, e.Canonical → k ≤ e.level → e.depth < d →
    Spells us e.marks → Ends k rest → (e.isOpen = true → Ends 0 rest) →
    ∃ e', p (us ++ rest) = (.ok e', rest) ∧ e'.unplaced = e.unplaced

theorem complete_zero : Complete k 0 p := by
  intro e us rest _ _ hd
  omega

/-! ### Operators -/

/-- Where no operator of the level follows, what was read so far is all. -/
theorem chainFrom_ends (hl : levels[i]? = some join) (h : Ends (i + 1) rest) :
    chainFrom join operand bound e rest = (.ok e, rest) := by
  cases bound with
  | nil => rfl
  | cons _ bound =>
    unfold chainFrom
    cases rest with
    | nil => rfl
    | cons t rest =>
      have hj : join t.kind = none := by
        cases hj : join t.kind with
        | none => rfl
        | some joined =>
          have := h t rfl (i + 1) (by rw [(levels_eq_some hl hj).reach]; rfl)
          omega
      simp [hj]

/-- Reading an operation leads to where its last operator has been read. -/
theorem chain_reaches (hl : levels[i]? = some join) (ho : Complete (i + 2) d operand)
    (he : e.Canonical) (hlevel : i + 1 ≤ e.level) (hd : e.depth < d) (hus : Spells us e.marks)
    (hends : Ends (i + 2) rest) (hopen : e.isOpen = true → Ends 0 rest) :
    ∃ e' bound, rest.length ≤ bound.length ∧ e'.unplaced = e.unplaced ∧
      chain join operand (us ++ rest) = chainFrom join operand bound e' rest := by
  induction hn : us.length using Nat.strong_induction_on generalizing e us rest with
  | _ n ih =>
    by_cases htight : i + 2 ≤ e.level
    · obtain ⟨e', hread, hsame⟩ := ho he htight hd hus hends hopen
      exact ⟨e', us ++ rest, by simp, hsame, bind_of_ok hread⟩
    · have hi := lt_six_of_level hl
      obtain ⟨kind, joined, left, right, s, hop, rfl, hcl, hcr, hll, hlr, closed⟩ :=
        exists_operands he (by omega) (by omega)
      rw [show (joined left right s).level = i + 1 by omega] at hop hll hlr
      rw [hop.marks, Spells.append_iff] at hus
      obtain ⟨ul, ur, rfl, hul, hur⟩ := hus
      obtain ⟨t, ur, rfl, ht, hur⟩ := Spells.cons_iff.1 hur
      rw [hop.depth] at hd
      rw [hop.isOpen] at hopen
      have htreach : t.kind.reach = some (i + 1) := by rw [ht, hop.reach]
      obtain ⟨left', bound, hbound, hsame, hreach⟩ := ih ul.length (by simp at hn; omega) hcl hll
        (by omega) hul (show Ends (i + 2) (t :: ur ++ rest) by simp [Ends, htreach])
        (by simp [closed]) rfl
      obtain ⟨right', hread, hsame'⟩ := ho hcr hlr (by omega) hur hends hopen
      cases bound with
      | nil => simp at hbound
      | cons _ bound =>
        refine ⟨joined left' right' t.span, bound, by simp at hbound; omega, ?_, ?_⟩
        · rw [hop.unplaced, hop.unplaced, hsame, hsame']
        · rw [List.append_assoc, hreach, List.cons_append, chainFrom]
          simp only [ht, levels_of_operatorAt hl hop]
          rw [bind_of_ok hread]

theorem complete_chain (hl : levels[i]? = some join) (ho : Complete (i + 2) d operand) :
    Complete (i + 1) d (chain join operand) := by
  intro e us rest he hlevel hd hus hends hopen
  obtain ⟨e', bound, -, hsame, hreach⟩ :=
    chain_reaches hl ho he hlevel hd hus (hends.mono (by omega)) hopen
  exact ⟨e', hreach.trans (chainFrom_ends hl hends), hsame⟩

theorem complete_tower (ho : Complete 7 d operand) (hi : i ≤ 6) :
    Complete (i + 1) d (tower i operand) := by
  induction hi using Nat.decreasingInduction with
  | self => exact ho
  | of_succ i hi ih =>
    have hl : levels[i]? = some levels[i] := List.getElem?_eq_getElem hi
    rw [tower_of_level hl]
    exact complete_chain hl ih

theorem eq_ident_of_unplaced {name : String} {s : Span}
    (h : e.unplaced = (Expr.ident name s).unplaced) : ∃ s', e = .ident name s' := by
  cases e <;> simp [Expr.unplaced] at h ⊢
  exact h

theorem complete_assignment (ho : Complete 7 (d + 1) operand) (hv : Complete 0 d expression) :
    Complete 0 (d + 1) (assignment operand expression) := by
  intro e us rest he _ hd hus hends hopen
  unfold assignment
  rw [operation_eq_tower]
  by_cases hlevel : 1 ≤ e.level
  · obtain ⟨e', hread, hsame⟩ := complete_tower ho (Nat.zero_le 6) he hlevel hd hus
      (hends.mono (Nat.zero_le _)) hopen
    have hnone : accept (.symbol .equal) rest = (.ok none, rest) := by
      refine accept_eq_none.2 ⟨rfl, fun t ht hk => ?_⟩
      have := hends t ht 0 (by simp [hk, Kind.reach])
      omega
    exact ⟨e', bind_eq_ok.2 ⟨_, _, hread, bind_eq_ok.2 ⟨_, _, hnone, rfl⟩⟩, hsame⟩
  · cases he with
    | assign name s hvalue =>
      simp only [Expr.marks, Spells.cons_iff] at hus
      obtain ⟨t, us, rfl, ht, t', us, rfl, ht', hus⟩ := hus
      rw [Expr.depth] at hd
      have hname : Spells [t] (Expr.ident name s).marks := by simpa [Expr.marks, Spells] using ht
      have hends' : Ends 1 (t' :: us ++ rest) := by simp [Ends, ht', Mark.sign, Kind.reach]
      obtain ⟨target, hread, hsame⟩ := complete_tower ho (Nat.zero_le 6) (.ident name s)
        (by simp [Expr.level]) (by simp [Expr.depth]) hname hends' (by simp [Expr.isOpen])
      obtain ⟨s', rfl⟩ := eq_ident_of_unplaced hsame
      obtain ⟨value', hread', hsame'⟩ := hv hvalue (Nat.zero_le _) (by omega) hus hends
        (fun _ => hends)
      have hequal : accept (.symbol .equal) (t' :: (us ++ rest)) =
          (.ok (some t'.span), us ++ rest) := accept_eq_some.2 ⟨t', rfl, ht', rfl⟩
      refine ⟨.assign name value' s', ?_, by rw [Expr.unplaced, Expr.unplaced, hsame']⟩
      exact bind_eq_ok.2 ⟨_, _, hread,
        bind_eq_ok.2 ⟨_, _, hequal, bind_eq_ok.2 ⟨_, _, hread', rfl⟩⟩⟩
    | binary => exact absurd (OperatorAt.binary _).pos hlevel
    | logical => exact absurd (OperatorAt.logical _).pos hlevel
    | _ => simp [Expr.level] at hlevel

/-! ### Lists -/

section Lists

variable {α β : Type} {item : Parser α} {items what : String} {write : α → List Mark}
  {same : α → β} {good : α → Prop} {close : Symbol} {as : List α} {limit : Nat}

theorem separated_complete
    (hitem : ∀ ⦃a us rest⦄, good a → Spells us (write a) → Ends 0 rest →
      ∃ a', item (us ++ rest) = (.ok a', rest) ∧ same a' = same a)
    (hclose : ¬ close = .comma) (hreach : (Kind.symbol close).reach = none)
    (hne : as ≠ []) (count : as.length ≤ limit) (hgood : ∀ a ∈ as, good a)
    (hus : Spells us (Mark.listed (as.map write))) (ht : t.kind = .symbol close) :
    ∃ as', separated item items limit (us ++ t :: rest) = (.ok as', t :: rest) ∧
      as'.map same = as.map same := by
  induction limit generalizing as us with
  | zero => simp [hne] at count
  | succ limit ih =>
    obtain ⟨a, as, rfl⟩ := List.exists_cons_of_ne_nil hne
    have hga := hgood a (by simp)
    cases as with
    | nil =>
      have hends : Ends 0 (t :: rest) := .of_reach (by rw [ht, hreach])
      obtain ⟨a', hread, hsame⟩ := hitem hga (by simpa [Mark.listed] using hus) hends
      have hnone : accept (.symbol .comma) (t :: rest) = (.ok none, t :: rest) :=
        accept_eq_none.2 ⟨rfl, by simpa [ht] using hclose⟩
      exact ⟨[a'], bind_eq_ok.2 ⟨_, _, hread, bind_eq_ok.2 ⟨_, _, hnone, rfl⟩⟩, by simp [hsame]⟩
    | cons b as =>
      rw [List.map_cons, Mark.listed, List.intercalate_cons_of_ne_nil (by simp), List.append_assoc,
        Spells.append_iff] at hus
      obtain ⟨ua, us, rfl, hua, hus⟩ := hus
      obtain ⟨comma, us, rfl, hcomma, hus⟩ := Spells.cons_iff.1 hus
      have hends : Ends 0 (comma :: us ++ t :: rest) := .of_reach (by rw [hcomma]; rfl)
      obtain ⟨a', hread, hsame⟩ := hitem hga hua hends
      have hsome : accept (.symbol .comma) (comma :: us ++ t :: rest) =
          (.ok (some comma.span), us ++ t :: rest) :=
        accept_eq_some.2 ⟨comma, rfl, hcomma, rfl⟩
      obtain ⟨as', hread', hsame'⟩ := ih (List.cons_ne_nil b as) (by simpa using count)
        (fun a ha => hgood a (by simp [ha])) hus
      rw [List.append_assoc]
      refine ⟨a' :: as', ?_, by simp [hsame, hsame']⟩
      exact bind_eq_ok.2 ⟨_, _, hread,
        bind_eq_ok.2 ⟨_, _, hsome, bind_eq_ok.2 ⟨_, _, hread', rfl⟩⟩⟩

theorem listUntil_complete
    (hitem : ∀ ⦃a us rest⦄, good a → Spells us (write a) → Ends 0 rest →
      ∃ a', item (us ++ rest) = (.ok a', rest) ∧ same a' = same a)
    (hhead : ∀ ⦃a⦄, good a → ∃ m ms, write a = m :: ms ∧ m.kind ≠ .symbol close)
    (hclose : ¬ close = .comma) (hreach : (Kind.symbol close).reach = none)
    (count : as.length ≤ 255) (hgood : ∀ a ∈ as, good a)
    (hus : Spells us (Mark.listed (as.map write))) (ht : t.kind = .symbol close) :
    ∃ as', listUntil close item items what (us ++ t :: rest) = (.ok as', rest) ∧
      as'.map same = as.map same := by
  have hend : expect (.symbol close) what (t :: rest) = (.ok (), rest) := expect_of_kind ht
  unfold listUntil
  cases as with
  | nil =>
    obtain rfl : us = [] := by simpa [Mark.listed] using hus
    have hnext : nextIs (.symbol close) ([] ++ t :: rest) = true := by simp [nextIs, ht]
    rw [hnext]
    exact ⟨[], bind_eq_ok.2 ⟨_, _, rfl, bind_eq_ok.2 ⟨_, _, hend, rfl⟩⟩, rfl⟩
  | cons a as =>
    have hnext : nextIs (.symbol close) (us ++ t :: rest) = false := by
      obtain ⟨m, ms, hm, hmk⟩ := hhead (hgood a (by simp))
      have : ∃ ns, Mark.listed ((a :: as).map write) = m :: ns := by
        cases as <;> simp [Mark.listed, List.intercalate_cons_cons, hm]
      obtain ⟨ns, hns⟩ := this
      rw [hns] at hus
      obtain ⟨u, us, rfl, hu, -⟩ := Spells.cons_iff.1 hus
      simpa [nextIs, hu] using hmk
    have count' : (a :: as).length ≤ maxItems := count
    obtain ⟨as', hread, hsame⟩ :=
      separated_complete hitem hclose hreach (by simp) count' hgood hus ht
    rw [hnext]
    exact ⟨as', bind_eq_ok.2 ⟨_, _, hread, bind_eq_ok.2 ⟨_, _, hend, rfl⟩⟩, hsame⟩

end Lists

theorem expressions_complete {close : Symbol} {items what : String} {es : List Expr}
    (hx : Complete 0 d expression) (hclose : close = .rightParen ∨ close = .rightBracket)
    (count : es.length ≤ 255) (hes : ∀ e ∈ es, e.Canonical) (hd : Expr.deepest es ≤ d)
    (hus : Spells us (Mark.listed (es.map Expr.marks))) (ht : t.kind = .symbol close) :
    ∃ es', listUntil close expression items what (us ++ t :: rest) = (.ok es', rest) ∧
      es'.map Expr.unplaced = es.map Expr.unplaced := by
  have hread : ∀ ⦃e : Expr⦄ ⦃us rest⦄, (e.Canonical ∧ e.depth < d) → Spells us e.marks →
      Ends 0 rest → ∃ e', expression (us ++ rest) = (.ok e', rest) ∧
        e'.unplaced = e.unplaced := by
    intro e us rest he hus hends
    exact hx he.1 (Nat.zero_le _) he.2 hus hends fun _ => hends
  have hhead : ∀ ⦃e : Expr⦄, (e.Canonical ∧ e.depth < d) →
      ∃ m ms, e.marks = m :: ms ∧ m.kind ≠ .symbol close := by
    intro e _
    obtain ⟨m, ms, hm, hk⟩ := e.head_marks
    refine ⟨m, ms, hm, ?_⟩
    rintro h
    rcases hclose with rfl | rfl <;> simp [h, Kind.startsExpr] at hk
  refine listUntil_complete hread hhead ?_ ?_ count ?_ hus ht
  · rcases hclose with rfl | rfl <;> simp
  · rcases hclose with rfl | rfl <;> rfl
  · intro e he
    have := Expr.lt_deepest he
    exact ⟨hes e he, by omega⟩

/-! ### Operands -/

/-- An expression that begins with neither a sign nor another expression. -/
theorem primary_complete (hx : Complete 0 d expression) (he : e.Canonical) (hl : e.level = 8)
    (hcall : ∀ callee args s, e ≠ .call callee args s) (hindex : ∀ o i s, e ≠ .index o i s)
    (hd : e.depth < d + 1) (hus : Spells us e.marks) (hopen : e.isOpen = true → Ends 0 rest) :
    ∃ e', primary expression (us ++ rest) = (.ok e', rest) ∧ e'.unplaced = e.unplaced := by
  cases he with
  | literal v s =>
    obtain ⟨t, us, rfl, ht, hnil⟩ := Spells.cons_iff.1 hus
    obtain rfl := Spells.nil_iff.1 hnil
    refine ⟨.literal v t.span, ?_, rfl⟩
    simp [primary, literal?_eq_some.2 ht.symm]
  | ident name s =>
    obtain ⟨t, us, rfl, ht, hnil⟩ := Spells.cons_iff.1 hus
    obtain rfl := Spells.nil_iff.1 hnil
    refine ⟨.ident name t.span, ?_, rfl⟩
    simp [primary, ht, Kind.literal?]
  | @group inner s hinner =>
    simp only [Expr.marks, List.cons_append, Spells.cons_iff, Spells.append_iff,
      Spells.nil_iff] at hus
    obtain ⟨t, us, rfl, ht, ui, ul, rfl, hui, close, us, rfl, hclose, rfl⟩ := hus
    rw [Expr.depth] at hd
    have hends : Ends 0 (close :: rest) := .of_reach (by rw [hclose]; rfl)
    obtain ⟨inner', hread, hsame⟩ :=
      hx hinner (Nat.zero_le _) (by omega) hui hends fun _ => hends
    refine ⟨.group inner' t.span, ?_, by rw [Expr.unplaced, Expr.unplaced, hsame]⟩
    simp only [primary, ht, Kind.literal?, List.cons_append, List.append_assoc]
    exact bind_eq_ok.2 ⟨_, _, hread, bind_eq_ok.2 ⟨_, _, expect_of_kind hclose, rfl⟩⟩
  | @array elements s count helements =>
    simp only [Expr.marks, Expr.marksEach_eq_map, List.cons_append, Spells.cons_iff,
      Spells.append_iff, Spells.nil_iff] at hus
    obtain ⟨t, us, rfl, ht, ui, ul, rfl, hui, close, us, rfl, hclose, rfl⟩ := hus
    rw [Expr.depth] at hd
    obtain ⟨elements', hread, hsame⟩ :=
      expressions_complete hx (.inr rfl) count helements (by omega) hui hclose
    refine ⟨.array elements' t.span, ?_, ?_⟩
    · simp only [primary, ht, Kind.literal?, List.cons_append, List.append_assoc]
      exact bind_eq_ok.2 ⟨_, _, hread, rfl⟩
    · simp only [Expr.unplaced, Expr.unplacedEach_eq_map, hsame]
  | @ask prompt s hprompt =>
    obtain ⟨t, us, rfl, ht, hus⟩ := Spells.cons_iff.1 hus
    rw [Expr.depth] at hd
    have hends := hopen rfl
    obtain ⟨prompt', hread, hsame⟩ :=
      hx hprompt (Nat.zero_le _) (by omega) hus hends fun _ => hends
    refine ⟨.ask prompt' t.span, ?_, by rw [Expr.unplaced, Expr.unplaced, hsame]⟩
    simp only [primary, ht, Kind.literal?, List.cons_append]
    exact bind_eq_ok.2 ⟨_, _, hread, rfl⟩
  | call => exact absurd rfl (hcall _ _ _)
  | index => exact absurd rfl (hindex _ _ _)
  | @binary _ _ op => cases op <;> simp [Expr.level, BinaryOp.level] at hl
  | @logical _ _ op => cases op <;> simp [Expr.level, LogicalOp.level] at hl
  | _ => simp [Expr.level] at hl

/-! ### Calls, indexes and signs -/

theorem postfixFrom_call {args : List Expr} (ht : t.kind = .symbol .leftParen)
    (hargs : listUntil .rightParen expression "arguments" "expected ')' after arguments" us =
      (.ok args, rest)) (u : Token) :
    postfixFrom expression (u :: bound) e (t :: us) =
      postfixFrom expression bound (.call e args t.span) rest := by
  obtain ⟨k, s, lexeme⟩ := t
  obtain rfl : k = _ := ht
  exact bind_of_ok hargs

theorem postfixFrom_index {position : Expr} {close : Token} (ht : t.kind = .symbol .leftBracket)
    (hposition : expression us = (.ok position, close :: rest))
    (hclose : close.kind = .symbol .rightBracket) (u : Token) :
    postfixFrom expression (u :: bound) e (t :: us) =
      postfixFrom expression bound (.index e position t.span) rest := by
  obtain ⟨k, s, lexeme⟩ := t
  obtain rfl : k = _ := ht
  exact (bind_of_ok hposition).trans (bind_of_ok (expect_of_kind hclose))

/-- Where neither a call nor an index follows, what was read so far is all. -/
theorem postfixFrom_ends (h : Ends 8 rest) :
    postfixFrom expression bound e rest = (.ok e, rest) := by
  cases bound with
  | nil => rfl
  | cons _ bound =>
    unfold postfixFrom
    split
    · have := h _ rfl 8 rfl
      omega
    · have := h _ rfl 8 rfl
      omega
    · rfl

/-- A primary expression leads to where calls and indexes may follow it. -/
theorem primary_reaches (hx : Complete 0 d expression) (he : e.Canonical) (hl : e.level = 8)
    (hcall : ∀ callee args s, e ≠ .call callee args s) (hindex : ∀ o i s, e ≠ .index o i s)
    (hd : e.depth < d + 1) (hus : Spells us e.marks) (hopen : e.isOpen = true → Ends 0 rest) :
    ∃ e' bound, rest.length ≤ bound.length ∧ e'.unplaced = e.unplaced ∧
      postfixed expression (us ++ rest) = postfixFrom expression bound e' rest := by
  obtain ⟨e', hread, hsame⟩ := primary_complete hx he hl hcall hindex hd hus hopen
  exact ⟨e', us ++ rest, by simp, hsame, bind_of_ok hread⟩

/-- Reading calls and indexes leads to where the last of them has been read. -/
theorem postfixed_reaches (hx : Complete 0 d expression) (he : e.Canonical) (hl : e.level = 8)
    (hd : e.depth < d + 1) (hus : Spells us e.marks) (hopen : e.isOpen = true → Ends 0 rest) :
    ∃ e' bound, rest.length ≤ bound.length ∧ e'.unplaced = e.unplaced ∧
      postfixed expression (us ++ rest) = postfixFrom expression bound e' rest := by
  induction he generalizing us rest with
  | @call callee args s hcallee hlevel closed count hargs ih =>
    simp only [Expr.marks, Expr.marksEach_eq_map, Spells.append_iff, Spells.cons_iff,
      Spells.nil_iff] at hus
    obtain ⟨_, _, rfl, ⟨uc, _, rfl, huc, t, ua, rfl, ht, hua⟩, close, _, rfl, hclose, rfl⟩ := hus
    rw [Expr.depth] at hd
    have hclosed : callee.isOpen = true → Ends 0 (t :: (ua ++ close :: rest)) := by simp [closed]
    obtain ⟨callee', bound, hbound, hsame, hreach⟩ := ih hlevel (by omega) huc hclosed
    obtain ⟨args', hread, hsame'⟩ :=
      expressions_complete hx (.inl rfl) count hargs (by omega) hua hclose
    cases bound with
    | nil => simp at hbound
    | cons u bound =>
      simp only [List.length_append, List.length_cons] at hbound
      refine ⟨.call callee' args' t.span, bound, by omega, ?_, ?_⟩
      · simp only [Expr.unplaced, Expr.unplacedEach_eq_map, hsame, hsame']
      · simp only [List.append_assoc, List.cons_append, List.nil_append, hreach]
        exact postfixFrom_call ht hread u
  | @index object position s hobject hlevel closed hposition ih =>
    simp only [Expr.marks, Spells.append_iff, Spells.cons_iff, Spells.nil_iff] at hus
    obtain ⟨_, _, rfl, ⟨uo, _, rfl, huo, t, up, rfl, ht, hup⟩, close, _, rfl, hclose, rfl⟩ := hus
    rw [Expr.depth] at hd
    have hclosed : object.isOpen = true → Ends 0 (t :: (up ++ close :: rest)) := by simp [closed]
    obtain ⟨object', bound, hbound, hsame, hreach⟩ := ih hlevel (by omega) huo hclosed
    have hends : Ends 0 (close :: rest) := .of_reach (by rw [hclose]; rfl)
    obtain ⟨position', hread, hsame'⟩ :=
      hx hposition (Nat.zero_le _) (by omega) hup hends fun _ => hends
    cases bound with
    | nil => simp at hbound
    | cons u bound =>
      simp only [List.length_append, List.length_cons] at hbound
      refine ⟨.index object' position' t.span, bound, by omega, ?_, ?_⟩
      · simp only [Expr.unplaced, hsame, hsame']
      · simp only [List.append_assoc, List.cons_append, List.nil_append, hreach]
        exact postfixFrom_index ht hread hclose u
  | literal v s =>
    exact primary_reaches hx (.literal v s) hl (by simp) (by simp) hd hus hopen
  | ident name s =>
    exact primary_reaches hx (.ident name s) hl (by simp) (by simp) hd hus hopen
  | group s h =>
    exact primary_reaches hx (.group s h) hl (by simp) (by simp) hd hus hopen
  | array s count h =>
    exact primary_reaches hx (.array s count h) hl (by simp) (by simp) hd hus hopen
  | ask s h =>
    exact primary_reaches hx (.ask s h) hl (by simp) (by simp) hd hus hopen
  | @binary _ _ op => cases op <;> simp [Expr.level, BinaryOp.level] at hl
  | @logical _ _ op => cases op <;> simp [Expr.level, LogicalOp.level] at hl
  | _ => simp [Expr.level] at hl

/-- What calls and indexes can follow does not begin with a sign. -/
theorem head_marks_of_level (he : e.Canonical) (hl : e.level = 8) :
    ∃ m ms, e.marks = m :: ms ∧ unaryOp? m.kind = none := by
  induction he with
  | literal v s =>
    refine ⟨_, _, rfl, ?_⟩
    cases v with
    | bool b => cases b <;> rfl
    | _ => rfl
  | ident | group | array | ask => exact ⟨_, _, rfl, rfl⟩
  | call _ _ hlevel _ _ _ ih | index _ _ hlevel _ _ ih =>
    obtain ⟨m, ms, hm, hk⟩ := ih hlevel
    rw [Expr.marks, hm]
    exact ⟨m, _, rfl, hk⟩
  | @binary _ _ op => cases op <;> simp [Expr.level, BinaryOp.level] at hl
  | @logical _ _ op => cases op <;> simp [Expr.level, LogicalOp.level] at hl
  | _ => simp [Expr.level] at hl

theorem complete_signed (ho : Complete 7 d operand) (hx : Complete 0 d expression) :
    Complete 7 (d + 1) (signed operand expression) := by
  intro e us rest he hlevel hd hus hends hopen
  by_cases hl : e.level = 8
  · obtain ⟨m, ms, hm, hk⟩ := head_marks_of_level he hl
    obtain ⟨e', bound, -, hsame, hreach⟩ := postfixed_reaches hx he hl hd hus hopen
    rw [hm] at hus
    obtain ⟨t, us, rfl, ht, -⟩ := Spells.cons_iff.1 hus
    refine ⟨e', ?_, hsame⟩
    rw [← postfixFrom_ends (hends.mono (by omega)), ← hreach]
    simp [signed, ht, hk]
  · cases he with
    | unary op s hoperand l =>
      obtain ⟨t, us, rfl, ht, hus⟩ := Spells.cons_iff.1 hus
      rw [Expr.depth] at hd
      obtain ⟨operand', hread, hsame⟩ := ho hoperand l (by omega) hus hends hopen
      refine ⟨.unary op operand' t.span, ?_, by rw [Expr.unplaced, Expr.unplaced, hsame]⟩
      simp only [signed, List.cons_append, unaryOp?_eq_some.2 ht.symm]
      exact bind_eq_ok.2 ⟨_, _, hread, rfl⟩
    | @binary _ _ op => cases op <;> simp [Expr.level, BinaryOp.level] at hlevel
    | @logical _ _ op => cases op <;> simp [Expr.level, LogicalOp.level] at hlevel
    | assign => simp [Expr.level] at hlevel
    | _ => exact absurd rfl hl

/-- With a budget of `b` every expression is read back that nests less than `b` levels. -/
theorem complete_expression_unary (b : Nat) :
    Complete 0 b (Parser.expression b) ∧ Complete 7 (b + 1) (unary b) := by
  induction b with
  | zero => exact ⟨complete_zero, complete_signed complete_zero complete_zero⟩
  | succ b ih =>
    have hx : Complete 0 (b + 1) (Parser.expression (b + 1)) := complete_assignment ih.2 ih.1
    refine ⟨hx, ?_⟩
    rw [unary_succ]
    exact complete_signed ih.2 hx

end Vibe.Parser
