import Vibe.Proofs.Syntax.Moving
import Vibe.Store.Operators
import Vibe.Store.Scopes

/-! Stores whose skills have bodies with other places. Nothing that is computed from a store depends
on these places. -/

namespace Vibe

section

variable (move : Span → Span)

/-- The skill with every place in its body moved. -/
def Skill.moved (s : Skill) : Skill :=
  { s with body := Stmt.movedEach move s.body }

/-- The store with every place in its skills moved. -/
def Store.moved (st : Store) : Store :=
  { st with skills := st.skills.map (Skill.moved move) }

/-- The places in the skills of a store. -/
def Store.spans (st : Store) : List Span :=
  st.skills.toList.flatMap fun s => Stmt.spansEach s.body

end

variable {move : Span → Span} {st : Store}

theorem Skill.moved_eq_self {s : Skill} :
    s.moved move = s ↔ ∀ sp ∈ Stmt.spansEach s.body, move sp = sp := by
  rw [← Stmt.movedEach_eq_self]
  cases s
  simp [Skill.moved]

namespace Store

theorem moved_eq_self : st.moved move = st ↔ ∀ sp ∈ st.spans, move sp = sp := by
  have hskills : st.moved move = st ↔
      st.skills.toList.map (Skill.moved move) = st.skills.toList.map id := by
    cases st
    simp [moved, ← Array.toList_inj]
  rw [hskills, List.map_inj_left]
  simp only [id, Skill.moved_eq_self, spans, List.mem_flatMap]
  grind

theorem getElem?_skills_moved (id : Nat) :
    (st.moved move).skills[id]? = st.skills[id]?.map (Skill.moved move) := by
  simp [moved]

/-! ### Reading -/

@[simp] theorem items_moved (id : Nat) : (st.moved move).items id = st.items id :=
  rfl

@[simp] theorem truthy_moved (v : Value) : (st.moved move).truthy v = st.truthy v := by
  cases v <;> rfl

@[simp] theorem arity?_moved (v : Value) : (st.moved move).arity? v = st.arity? v := by
  cases v with
  | skill id =>
    simp only [arity?, getElem?_skills_moved, Option.map_map]
    rfl
  | _ => rfl

theorem printWithin_moved (n : Nat) (within : List Nat) (v : Value) :
    (st.moved move).printWithin n within v = st.printWithin n within v := by
  induction n generalizing within v with
  | zero => rfl
  | succ n ih =>
    cases v with
    | array id =>
      have hfun : (st.moved move).printWithin n (id :: within) =
          st.printWithin n (id :: within) := funext (ih _)
      simp [printWithin, hfun]
    | skill id =>
      simp only [printWithin, getElem?_skills_moved, Option.map_map]
      rfl
    | _ => rfl

@[simp] theorem print_moved (v : Value) : (st.moved move).print v = st.print v :=
  printWithin_moved _ _ v

theorem equalWithin_moved (n : Nat) (pending : List (Nat × Nat)) (v w : Value) :
    (st.moved move).equalWithin n pending v w = st.equalWithin n pending v w := by
  induction n generalizing pending v w with
  | zero => rfl
  | succ n ih =>
    have hfun : ∀ pending, (st.moved move).equalWithin n pending = st.equalWithin n pending :=
      fun pending => funext fun v => funext (ih pending v)
    cases v <;> cases w <;> simp [equalWithin, hfun]

@[simp] theorem equal_moved (v w : Value) : (st.moved move).equal v w = st.equal v w :=
  equalWithin_moved _ _ v w

@[simp] theorem operate_moved (op : BinaryOp) (v w : Value) :
    (st.moved move).operate op v w = st.operate op v w := by
  unfold operate
  simp

@[simp] theorem operateUnary_moved (op : UnaryOp) (v : Value) :
    (st.moved move).operateUnary op v = st.operateUnary op v := by
  unfold operateUnary
  simp

@[simp] theorem index_moved (v w : Value) : (st.moved move).index v w = st.index v w := by
  cases v <;> rfl

@[simp] theorem sweepItems_moved (v : Value) : (st.moved move).sweepItems v = st.sweepItems v := by
  cases v <;> rfl

@[simp] theorem chain_moved (scope : Nat) : (st.moved move).chain scope = st.chain scope := by
  induction scope using Nat.strong_induction_on with
  | h scope ih =>
    have hscopes : (st.moved move).scopes = st.scopes := rfl
    rw [chain, chain, hscopes]
    cases st.scopes[scope]? with
    | none => rfl
    | some s =>
      obtain ⟨bindings, parent, distinct⟩ := s
      cases parent with
      | none => rfl
      | some p =>
        by_cases hp : p < scope
        · simp [hp, ih p hp]
        · simp [hp]

@[simp] theorem nearest?_moved (name : String) (scope : Nat) :
    (st.moved move).nearest? name scope = st.nearest? name scope := by
  unfold nearest?
  rw [chain_moved]
  rfl

@[simp] theorem lookup?_moved (name : String) (scope : Nat) :
    (st.moved move).lookup? name scope = st.lookup? name scope := by
  unfold lookup?
  rw [nearest?_moved]
  rfl

@[simp] theorem get_moved (name : String) (scope : Nat) :
    (st.moved move).get name scope = st.get name scope := by
  simp [get]

/-! ### Writing -/

@[simp] theorem assign_moved (name : String) (v : Value) (scope : Nat) :
    (st.moved move).assign name v scope =
      Prod.map id (Store.moved move) (st.assign name v scope) := by
  have hassignable : (st.moved move).assignable name scope = st.assignable name scope := by
    unfold assignable isConstant
    rw [nearest?_moved, lookup?_moved]
  unfold assign
  rw [hassignable]
  cases st.assignable name scope <;> rfl

end Store

end Vibe
