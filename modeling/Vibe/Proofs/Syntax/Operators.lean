import Vibe.Proofs.Syntax.Writing
import Vibe.Proofs.Syntax.Shape

/-! The levels of the operators, and which tokens go on with an expression of a level. -/

namespace Vibe

/-- The level of the expressions that a token of this kind goes on with. -/
def Kind.reach : Kind → Option Nat
  | .symbol .equal => some 0
  | .keyword .or => some 1
  | .keyword .and => some 2
  | .symbol .equalEqual | .symbol .bangEqual => some 3
  | .symbol .less | .symbol .lessEqual | .symbol .greater | .symbol .greaterEqual => some 4
  | .symbol .plus | .symbol .minus => some 5
  | .symbol .star | .symbol .slash | .symbol .percent => some 6
  | .symbol .leftParen | .symbol .leftBracket => some 8
  | _ => none

theorem BinaryOp.reach_symbol (op : BinaryOp) : (Kind.symbol op.symbol).reach = some op.level := by
  cases op <;> rfl

theorem LogicalOp.reach_keyword (op : LogicalOp) :
    (Kind.keyword op.keyword).reach = some op.level := by
  cases op <;> rfl

theorem Kind.eq_equal_of_reach {kind : Kind} (h : kind.reach = some 0) :
    kind = .symbol .equal := by
  unfold reach at h
  split at h <;> simp_all

theorem Kind.opens_of_reach {kind : Kind} (h : kind.reach = some 8) :
    kind = .symbol .leftParen ∨ kind = .symbol .leftBracket := by
  unfold reach at h
  split at h <;> simp_all

theorem Kind.reach_lt_nine {kind : Kind} {l : Nat} (h : kind.reach = some l) : l < 9 := by
  unfold reach at h
  split at h <;> simp_all <;> omega

theorem Kind.reach_ne_seven (kind : Kind) : kind.reach ≠ some 7 := by
  unfold reach
  split <;> simp

/-- Whether an expression may begin with a token of this kind. -/
def Kind.startsExpr : Kind → Bool
  | .number _ | .string _ | .ident _ => true
  | .keyword .bet | .keyword .cap | .keyword .null | .keyword .not | .keyword .ask => true
  | .symbol .minus | .symbol .leftParen | .symbol .leftBracket => true
  | _ => false

/-- A written expression has a first mark, which tells that an expression follows. -/
theorem Expr.head_marks : (e : Expr) → ∃ m ms, e.marks = m :: ms ∧ m.kind.startsExpr = true
  | .literal v s => by
    refine ⟨_, _, rfl, ?_⟩
    cases v with
    | bool b => cases b <;> rfl
    | _ => rfl
  | .ident _ _ | .group _ _ | .array _ _ | .assign _ _ _ | .ask _ _ => ⟨_, _, rfl, rfl⟩
  | .unary op _ _ => by
    refine ⟨_, _, rfl, ?_⟩
    cases op <;> rfl
  | .binary left _ _ _ | .logical left _ _ _ | .call left _ _ | .index left _ _ => by
    obtain ⟨m, ms, hm, hk⟩ := left.head_marks
    rw [Expr.marks, hm]
    exact ⟨m, _, rfl, hk⟩

namespace Parser

variable {i j k l : Nat} {kind : Kind} {join : Kind → Option Joiner} {joined : Joiner}
  {operand : Parser Expr} {t : Token} {ts : List Token}

/-- The next token does not go on with an expression of the given level or of a tighter one. -/
def Ends (k : Nat) (ts : List Token) : Prop :=
  ∀ t ∈ ts.head?, ∀ l ∈ t.kind.reach, l < k

theorem Ends.nil : Ends k [] := by
  simp [Ends]

theorem Ends.mono (h : Ends k ts) (hkl : k ≤ l) : Ends l ts :=
  fun t ht i hi => Nat.lt_of_lt_of_le (h t ht i hi) hkl

theorem Ends.of_reach (h : t.kind.reach = none) : Ends k (t :: ts) := by
  simp [Ends, h]

/-- Without an operator of the next level there is nothing of that level to go on with. -/
theorem Ends.pred (h : Ends (k + 1) ts) (hk : ∀ t ∈ ts.head?, t.kind.reach ≠ some k) :
    Ends k ts := by
  intro t ht l hl
  have hlt := h t ht l hl
  have hne : l ≠ k := by
    rintro rfl
    exact hk t ht hl
  omega

/-- Where neither a call nor an index follows, an operand of the operators is over. -/
theorem Ends.of_not_opens (h : ∀ t ∈ ts.head?, t.kind ≠ .symbol .leftParen ∧
    t.kind ≠ .symbol .leftBracket) : Ends 7 ts := by
  have h9 : Ends 9 ts := fun _ _ _ hl => Kind.reach_lt_nine hl
  have h8 : Ends 8 ts := h9.pred fun t ht h8 => by
    rcases Kind.opens_of_reach h8 with hk | hk
    · exact (h t ht).1 hk
    · exact (h t ht).2 hk
  exact h8.pred fun t _ => t.kind.reach_ne_seven

/-- The operators of each level, and how they join what stands on their two sides. -/
inductive OperatorAt : Nat → Kind → Joiner → Prop
  | binary (op : BinaryOp) : OperatorAt op.level (.symbol op.symbol) (joinBinary op)
  | logical (op : LogicalOp) : OperatorAt op.level (.keyword op.keyword) (joinLogical op)

theorem OperatorAt.reach (h : OperatorAt l kind joined) : kind.reach = some l := by
  cases h with
  | binary op => exact op.reach_symbol
  | logical op => exact op.reach_keyword

theorem OperatorAt.ne_semicolon (h : OperatorAt l kind joined) :
    kind ≠ .symbol .semicolon := by
  rintro rfl
  simpa [Kind.reach] using h.reach

theorem OperatorAt.pos (h : OperatorAt l kind joined) : 0 < l := by
  cases h with
  | binary op => cases op <;> simp [BinaryOp.level]
  | logical op => cases op <;> simp [LogicalOp.level]

section Joined

variable (h : OperatorAt l kind joined) (left right : Expr) (s : Span)

include h

theorem OperatorAt.marks :
    (joined left right s).marks = left.marks ++ ⟨kind, s⟩ :: right.marks := by
  cases h <;> rfl

theorem OperatorAt.isOpen : (joined left right s).isOpen = right.isOpen := by
  cases h <;> rfl

theorem OperatorAt.depth : (joined left right s).depth = max left.depth right.depth := by
  cases h <;> rfl

theorem OperatorAt.unplaced :
    (joined left right s).unplaced = joined left.unplaced right.unplaced .nowhere := by
  cases h <;> rfl

end Joined

/-- An operation that holds together at some level of the operators is one of that level. -/
theorem exists_operands {e : Expr} (h : e.Canonical) (hp : 0 < e.level) (h6 : e.level ≤ 6) :
    ∃ kind joined left right s, OperatorAt e.level kind joined ∧ e = joined left right s ∧
      left.Canonical ∧ right.Canonical ∧ e.level ≤ left.level ∧ e.level < right.level ∧
      left.isOpen = false := by
  cases h with
  | binary s hl hr ll lr closed =>
    exact ⟨_, _, _, _, s, .binary _, rfl, hl, hr, ll, lr, closed⟩
  | logical s hl hr ll lr closed =>
    exact ⟨_, _, _, _, s, .logical _, rfl, hl, hr, ll, lr, closed⟩
  | _ => simp [Expr.level] at hp h6

theorem levels_eq_some (hl : levels[i]? = some join) (hj : join kind = some joined) :
    OperatorAt (i + 1) kind joined := by
  rcases i with _ | _ | _ | _ | _ | _ | i <;> simp only [levels] at hl <;>
    simp at hl <;> subst hl <;> simp only at hj <;> split at hj <;> simp at hj <;> subst hj
  · exact .logical .or
  · exact .logical .and
  · exact .binary .eq
  · exact .binary .ne
  · exact .binary .lt
  · exact .binary .le
  · exact .binary .gt
  · exact .binary .ge
  · exact .binary .add
  · exact .binary .sub
  · exact .binary .mul
  · exact .binary .div
  · exact .binary .mod

theorem levels_of_operatorAt (hl : levels[i]? = some join)
    (h : OperatorAt (i + 1) kind joined) : join kind = some joined := by
  generalize hi : i + 1 = l at h
  cases h with
  | binary op =>
    cases op <;> simp [BinaryOp.level] at hi <;> subst hi <;> simp [levels] at hl <;>
      subst hl <;> rfl
  | logical op =>
    cases op <;> simp [LogicalOp.level] at hi <;> subst hi <;> simp [levels] at hl <;>
      subst hl <;> rfl

theorem exists_operatorAt (h : kind.reach = some l) (hp : 0 < l) (h6 : l ≤ 6) :
    ∃ joined, OperatorAt l kind joined := by
  unfold Kind.reach at h
  split at h <;> cases h
  · omega
  · exact ⟨_, .logical .or⟩
  · exact ⟨_, .logical .and⟩
  · exact ⟨_, .binary .eq⟩
  · exact ⟨_, .binary .ne⟩
  · exact ⟨_, .binary .lt⟩
  · exact ⟨_, .binary .le⟩
  · exact ⟨_, .binary .gt⟩
  · exact ⟨_, .binary .ge⟩
  · exact ⟨_, .binary .add⟩
  · exact ⟨_, .binary .sub⟩
  · exact ⟨_, .binary .mul⟩
  · exact ⟨_, .binary .div⟩
  · exact ⟨_, .binary .mod⟩
  · omega
  · omega

theorem lt_six_of_level (hl : levels[i]? = some join) : i < 6 :=
  (List.getElem?_eq_some_iff.1 hl).1

theorem levels_eq_none (hl : levels[i]? = some join) (hj : join kind = none) :
    kind.reach ≠ some (i + 1) := by
  intro h
  have := lt_six_of_level hl
  obtain ⟨joined, ho⟩ := exists_operatorAt h (by omega) (by omega)
  simp [levels_of_operatorAt hl ho] at hj

/-- The parser for the operators from a level on. -/
def tower (i : Nat) (operand : Parser Expr) : Parser Expr :=
  (levels.drop i).foldr chain operand

theorem operation_eq_tower (operand : Parser Expr) : operation operand = tower 0 operand :=
  rfl

theorem tower_of_level (hl : levels[i]? = some join) (operand : Parser Expr) :
    tower i operand = chain join (tower (i + 1) operand) := by
  obtain ⟨h, rfl⟩ := List.getElem?_eq_some_iff.1 hl
  rw [tower, List.drop_eq_getElem_cons h, List.foldr_cons, tower]

end Parser
end Vibe
