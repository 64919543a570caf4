import Vibe.Proofs.Syntax.Writing

/-! What the smallest parsers read, and how what is read in a row adds up. -/

namespace Vibe

/-- Reading from `ts` to `rest` takes tokens that match the marks, semicolons aside. -/
def Consumes (ms : List Mark) (ts rest : List Token) : Prop :=
  ∃ used, ts = used ++ rest ∧
    List.Forall₂ Mark.Fits ms (used.filter (·.kind ≠ .symbol .semicolon))

namespace Consumes

variable {ms ns : List Mark} {m : Mark} {kind : Kind} {t : Token} {ts mid rest : List Token}

theorem nil : Consumes [] ts ts :=
  ⟨[], rfl, .nil⟩

theorem append (h : Consumes ms ts mid) (h' : Consumes ns mid rest) :
    Consumes (ms ++ ns) ts rest := by
  obtain ⟨used, rfl, hm⟩ := h
  obtain ⟨used', rfl, hn⟩ := h'
  refine ⟨used ++ used', by simp, ?_⟩
  rw [List.filter_append]
  exact List.rel_append hm hn

theorem token (h : m.Fits t) (hm : m.kind ≠ .symbol .semicolon) :
    Consumes [m] (t :: rest) rest := by
  refine ⟨[t], rfl, ?_⟩
  rw [List.filter_cons_of_pos (by simpa [h.1] using hm)]
  exact .cons h .nil

/-- A token whose place is that of a node. -/
theorem placed (hk : t.kind = kind) (hne : kind ≠ .symbol .semicolon)
    (h : Consumes ms ts rest) : Consumes (⟨kind, t.span⟩ :: ms) (t :: ts) rest :=
  (token ⟨hk, by simp⟩ hne).append h

/-- A token whose place is that of no node. -/
theorem bare (hk : t.kind = kind) (hne : kind ≠ .symbol .semicolon)
    (h : Consumes ms ts rest) : Consumes (⟨kind, none⟩ :: ms) (t :: ts) rest :=
  (token ⟨hk, by simp⟩ hne).append h

theorem semicolon (ht : t.kind = .symbol .semicolon) : Consumes [] (t :: rest) rest :=
  ⟨[t], rfl, by simp [ht]⟩

theorem length_le (h : Consumes ms ts rest) : ms.length + rest.length ≤ ts.length := by
  obtain ⟨used, rfl, hm⟩ := h
  have := hm.length_eq
  have := List.length_filter_le (fun t : Token => t.kind ≠ .symbol .semicolon) used
  simp only [List.length_append]
  omega

end Consumes

/-- The tokens are of the kinds that the marks ask for. -/
def Spells (us : List Token) (ms : List Mark) : Prop :=
  us.map Token.kind = ms.map Mark.kind

namespace Spells

variable {us : List Token} {ms ns : List Mark} {m : Mark}

@[simp] theorem nil_iff : Spells us [] ↔ us = [] := by
  simp [Spells]

@[simp] theorem cons_iff :
    Spells us (m :: ms) ↔ ∃ t us', us = t :: us' ∧ t.kind = m.kind ∧ Spells us' ms := by
  simp [Spells, List.map_eq_cons_iff]

@[simp] theorem append_iff : Spells us (ms ++ ns) ↔
    ∃ us₁ us₂, us = us₁ ++ us₂ ∧ Spells us₁ ms ∧ Spells us₂ ns := by
  simp [Spells, List.map_eq_append_iff]

theorem exists_cons (h : Spells us (m :: ms)) :
    ∃ span lexeme us', us = ⟨m.kind, span, lexeme⟩ :: us' ∧ Spells us' ms := by
  obtain ⟨⟨_, span, lexeme⟩, us', hus, rfl, hms⟩ := cons_iff.1 h
  exact ⟨span, lexeme, us', hus, hms⟩

theorem length_eq (h : Spells us ms) : us.length = ms.length := by
  simpa using congrArg List.length h

end Spells

namespace Parser

variable {α : Type} {kind : Kind} {what n : String} {s : Span} {u : Unit} {t : Token}
  {ts rest : List Token}

/-- The literals are the tokens that are written for them. -/
theorem literal?_eq_some {v : Literal} : kind.literal? = some v ↔ v.kind = kind := by
  constructor
  · intro h
    unfold Kind.literal? at h
    split at h <;> cases h <;> rfl
  · rintro rfl
    cases v with
    | bool b => cases b <;> rfl
    | _ => rfl

theorem unaryOp?_eq_some {op : UnaryOp} : unaryOp? kind = some op ↔ op.kind = kind := by
  constructor
  · intro h
    unfold unaryOp? at h
    split at h <;> cases h <;> rfl
  · rintro rfl
    cases op <;> rfl

theorem accept_eq_some : accept kind ts = (.ok (some s), rest) ↔
    ∃ t, ts = t :: rest ∧ t.kind = kind ∧ t.span = s := by
  cases ts with
  | nil => simp [accept]
  | cons t ts =>
    by_cases h : t.kind = kind
    · simp [accept, h, and_comm]
    · simp [accept, h]

theorem accept_eq_none : accept kind ts = (.ok none, rest) ↔
    ts = rest ∧ ∀ t ∈ ts.head?, t.kind ≠ kind := by
  cases ts with
  | nil => simp [accept]
  | cons t ts =>
    by_cases h : t.kind = kind <;> simp [accept, h]

theorem expect_eq_ok : expect kind what ts = (.ok u, rest) ↔
    ∃ t, ts = t :: rest ∧ t.kind = kind := by
  unfold expect
  rw [bind_eq_ok]
  constructor
  · rintro ⟨_ | s, mid, ha, h⟩
    · cases h
    · obtain ⟨-, rfl⟩ := pure_eq_ok.1 h
      obtain ⟨t, rfl, hk, -⟩ := accept_eq_some.1 ha
      exact ⟨t, rfl, hk⟩
  · rintro ⟨t, rfl, hk⟩
    exact ⟨some t.span, rest, accept_eq_some.2 ⟨t, rfl, hk, rfl⟩, rfl⟩

theorem expect_of_kind (h : t.kind = kind) : expect kind what (t :: rest) = (.ok (), rest) :=
  expect_eq_ok.2 ⟨t, rfl, h⟩

theorem expectName_eq_ok : expectName what ts = (.ok (n, s), rest) ↔
    ∃ t, ts = t :: rest ∧ t.kind = .ident n ∧ t.span = s := by
  constructor
  · intro h
    unfold expectName at h
    split at h
    · simp only [Prod.mk.injEq, Except.ok.injEq] at h
      obtain ⟨⟨rfl, rfl⟩, rfl⟩ := h
      exact ⟨_, rfl, rfl, rfl⟩
    · cases h
  · rintro ⟨⟨k, s, l⟩, rfl, rfl, rfl⟩
    rfl

theorem nextIs_iff : nextIs kind ts = true ↔ ∃ t ∈ ts.head?, t.kind = kind := by
  cases ts <;> simp [nextIs]

theorem expect_consumes (h : expect kind what ts = (.ok u, rest))
    (hk : kind ≠ .symbol .semicolon) : Consumes [⟨kind, none⟩] ts rest := by
  obtain ⟨t, rfl, ht⟩ := expect_eq_ok.1 h
  exact .bare ht hk .nil

theorem expectName_consumes (h : expectName what ts = (.ok (n, s), rest)) :
    Consumes [⟨.ident n, s⟩] ts rest := by
  obtain ⟨t, rfl, ht, hs⟩ := expectName_eq_ok.1 h
  exact .token ⟨ht, by simpa using hs⟩ (by simp)

section Lists

variable {item : Parser α} {items : String} {write : α → List Mark} {good : α → Prop}
  {close : Symbol} {as : List α} {limit : Nat}

theorem separated_reads
    (hitem : ∀ ⦃ts a rest⦄, item ts = (.ok a, rest) → Consumes (write a) ts rest ∧ good a)
    (h : separated item items limit ts = (.ok as, rest)) :
    Consumes (Mark.listed (as.map write)) ts rest ∧ as.length ≤ limit ∧ (∀ a ∈ as, good a) ∧
      as ≠ [] := by
  induction limit generalizing ts as with
  | zero => cases h
  | succ limit ih =>
    unfold separated at h
    obtain ⟨a, mid, ha, h⟩ := bind_eq_ok.1 h
    obtain ⟨hc, hg⟩ := hitem ha
    obtain ⟨_ | s, mid', hcomma, h⟩ := bind_eq_ok.1 h
    · obtain ⟨rfl, rfl⟩ := pure_eq_ok.1 h
      obtain ⟨rfl, -⟩ := accept_eq_none.1 hcomma
      exact ⟨by simpa [Mark.listed] using hc, by simp, by simpa using hg, by simp⟩
    · obtain ⟨as', end', has, h⟩ := bind_eq_ok.1 h
      obtain ⟨rfl, rfl⟩ := pure_eq_ok.1 h
      obtain ⟨hcs, hlen, hgs, hne⟩ := ih has
      obtain ⟨t, rfl, ht, -⟩ := accept_eq_some.1 hcomma
      refine ⟨?_, by simpa using hlen, by simpa using ⟨hg, hgs⟩, by simp⟩
      have hne' : as'.map write ≠ [] := by simpa using hne
      rw [List.map_cons, Mark.listed, List.intercalate_cons_of_ne_nil hne', List.append_assoc]
      exact hc.append (.bare ht (by simp) hcs)

theorem listUntil_reads
    (hitem : ∀ ⦃ts a rest⦄, item ts = (.ok a, rest) → Consumes (write a) ts rest ∧ good a)
    (hclose : close ≠ .semicolon) (h : listUntil close item items what ts = (.ok as, rest)) :
    Consumes (Mark.listed (as.map write) ++ [Mark.sign close]) ts rest ∧ as.length ≤ 255 ∧
      ∀ a ∈ as, good a := by
  unfold listUntil at h
  obtain ⟨as', mid, has, h⟩ := bind_eq_ok.1 h
  obtain ⟨_, mid', hend, h⟩ := bind_eq_ok.1 h
  obtain ⟨rfl, rfl⟩ := pure_eq_ok.1 h
  have hlast := expect_consumes hend (by simpa using hclose)
  split at has
  · obtain ⟨rfl, rfl⟩ := pure_eq_ok.1 has
    exact ⟨by simpa [Mark.listed, Mark.sign] using hlast, by simp, by simp⟩
  · obtain ⟨hc, hlen, hg, -⟩ := separated_reads hitem has
    exact ⟨hc.append hlast, hlen, hg⟩

end Lists

end Parser
end Vibe
