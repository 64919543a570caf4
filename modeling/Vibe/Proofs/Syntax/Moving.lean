import Vibe.Proofs.Syntax.Spans

/-! Trees whose places are moved: the same tree with other places for its nodes. -/

namespace Vibe

section

variable (move : Span → Span)

mutual

/-- The expression with every place moved. -/
def Expr.moved : Expr → Expr
  | literal v s => .literal v (move s)
  | ident n s => .ident n (move s)
  | binary left op right s => .binary left.moved op right.moved (move s)
  | logical left op right s => .logical left.moved op right.moved (move s)
  | unary op operand s => .unary op operand.moved (move s)
  | group inner s => .group inner.moved (move s)
  | call callee args s => .call callee.moved (Expr.movedEach args) (move s)
  | array elements s => .array (Expr.movedEach elements) (move s)
  | index object position s => .index object.moved position.moved (move s)
  | assign n value s => .assign n value.moved (move s)
  | ask prompt s => .ask prompt.moved (move s)

def Expr.movedEach : List Expr → List Expr
  | [] => []
  | e :: es => e.moved :: Expr.movedEach es

end

def Sweep.moved : Sweep → Sweep
  | range first last => .range (first.moved move) (last.moved move)
  | items collection => .items (collection.moved move)

mutual

/-- The statement with every place moved. -/
def Stmt.moved : Stmt → Stmt
  | expr e => .expr (e.moved move)
  | say value s => .say (value.moved move) (move s)
  | bind binder n value s => .bind binder n (value.moved move) (move s)
  | block body s => .block (Stmt.movedEach body) (move s)
  | ifThen test yes s => .ifThen (test.moved move) yes.moved (move s)
  | ifElse test yes no s => .ifElse (test.moved move) yes.moved no.moved (move s)
  | keep test body s => .keep (test.moved move) body.moved (move s)
  | each var sweep body s => .each var (sweep.moved move) body.moved (move s)
  | skill n params body s => .skill n params (Stmt.movedEach body) (move s)
  | give none s => .give none (move s)
  | give (some value) s => .give (some (value.moved move)) (move s)
  | stop s => .stop (move s)
  | skip s => .skip (move s)
  | attempt body errorName handler s =>
    .attempt (Stmt.movedEach body) errorName (Stmt.movedEach handler) (move s)

def Stmt.movedEach : List Stmt → List Stmt
  | [] => []
  | s :: ss => s.moved :: Stmt.movedEach ss

end

def Program.moved (p : Program) : Program :=
  Stmt.movedEach move p

@[simp] theorem Expr.span_moved (e : Expr) : (e.moved move).span = move e.span := by
  cases e <;> rfl

@[simp] theorem Stmt.span_moved (s : Stmt) : (s.moved move).span = move s.span := by
  cases s with
  | expr e => exact e.span_moved move
  | give value => cases value <;> rfl
  | _ => rfl

end

variable {move further : Span → Span}

/-! ### What moving comes to -/

mutual

theorem Expr.spans_moved : ∀ e : Expr, (e.moved move).spans = e.spans.map move
  | .literal .. | .ident .. => rfl
  | .binary left _ right _ | .logical left _ right _ | .index left right _ => by
    simp [Expr.moved, Expr.spans, left.spans_moved, right.spans_moved]
  | .unary _ inner _ | .group inner _ | .assign _ inner _ | .ask inner _ => by
    simp [Expr.moved, Expr.spans, inner.spans_moved]
  | .call callee args _ => by
    simp [Expr.moved, Expr.spans, callee.spans_moved, Expr.spansEach_moved args]
  | .array elements _ => by
    simp [Expr.moved, Expr.spans, Expr.spansEach_moved elements]

theorem Expr.spansEach_moved : ∀ es : List Expr,
    Expr.spansEach (Expr.movedEach move es) = (Expr.spansEach es).map move
  | [] => rfl
  | e :: es => by
    simp [Expr.movedEach, Expr.spansEach, e.spans_moved, Expr.spansEach_moved es]

end

theorem Sweep.spans_moved (sweep : Sweep) : (sweep.moved move).spans = sweep.spans.map move := by
  cases sweep <;> simp [Sweep.moved, Sweep.spans, Expr.spans_moved]

mutual

theorem Stmt.spans_moved : ∀ s : Stmt, (s.moved move).spans = s.spans.map move
  | .expr e => e.spans_moved
  | .say value _ | .bind _ _ value _ | .give (some value) _ => by
    simp [Stmt.moved, Stmt.spans, value.spans_moved]
  | .block body _ | .skill _ _ body _ => by
    simp [Stmt.moved, Stmt.spans, Stmt.spansEach_moved body]
  | .ifThen test body _ | .keep test body _ => by
    simp [Stmt.moved, Stmt.spans, test.spans_moved, body.spans_moved]
  | .ifElse test yes no _ => by
    simp [Stmt.moved, Stmt.spans, test.spans_moved, yes.spans_moved, no.spans_moved]
  | .each _ sweep body _ => by
    simp [Stmt.moved, Stmt.spans, sweep.spans_moved, body.spans_moved]
  | .give none _ | .stop _ | .skip _ => rfl
  | .attempt body _ handler _ => by
    simp [Stmt.moved, Stmt.spans, Stmt.spansEach_moved body, Stmt.spansEach_moved handler]

theorem Stmt.spansEach_moved : ∀ ss : List Stmt,
    Stmt.spansEach (Stmt.movedEach move ss) = (Stmt.spansEach ss).map move
  | [] => rfl
  | s :: ss => by
    simp [Stmt.movedEach, Stmt.spansEach, s.spans_moved, Stmt.spansEach_moved ss]

end

mutual

/-- Trees that are moved twice are moved at once. -/
theorem Expr.moved_moved : ∀ e : Expr,
    (e.moved move).moved further = e.moved fun s => further (move s)
  | .literal .. | .ident .. => rfl
  | .binary left _ right _ | .logical left _ right _ | .index left right _ => by
    simp [Expr.moved, left.moved_moved, right.moved_moved]
  | .unary _ inner _ | .group inner _ | .assign _ inner _ | .ask inner _ => by
    simp [Expr.moved, inner.moved_moved]
  | .call callee args _ => by
    simp [Expr.moved, callee.moved_moved, Expr.movedEach_moved args]
  | .array elements _ => by
    simp [Expr.moved, Expr.movedEach_moved elements]

theorem Expr.movedEach_moved : ∀ es : List Expr,
    Expr.movedEach further (Expr.movedEach move es) =
      Expr.movedEach (fun s => further (move s)) es
  | [] => rfl
  | e :: es => by simp [Expr.movedEach, e.moved_moved, Expr.movedEach_moved es]

end

theorem Sweep.moved_moved (sweep : Sweep) :
    (sweep.moved move).moved further = sweep.moved fun s => further (move s) := by
  cases sweep <;> simp [Sweep.moved, Expr.moved_moved]

mutual

theorem Stmt.moved_moved : ∀ s : Stmt,
    (s.moved move).moved further = s.moved fun s => further (move s)
  | .expr e => congrArg _ e.moved_moved
  | .say value _ | .bind _ _ value _ | .give (some value) _ => by
    simp [Stmt.moved, value.moved_moved]
  | .block body _ | .skill _ _ body _ => by simp [Stmt.moved, Stmt.movedEach_moved body]
  | .ifThen test body _ | .keep test body _ => by
    simp [Stmt.moved, test.moved_moved, body.moved_moved]
  | .ifElse test yes no _ => by
    simp [Stmt.moved, test.moved_moved, yes.moved_moved, no.moved_moved]
  | .each _ sweep body _ => by simp [Stmt.moved, sweep.moved_moved, body.moved_moved]
  | .give none _ | .stop _ | .skip _ => rfl
  | .attempt body _ handler _ => by
    simp [Stmt.moved, Stmt.movedEach_moved body, Stmt.movedEach_moved handler]

theorem Stmt.movedEach_moved : ∀ ss : List Stmt,
    Stmt.movedEach further (Stmt.movedEach move ss) =
      Stmt.movedEach (fun s => further (move s)) ss
  | [] => rfl
  | s :: ss => by simp [Stmt.movedEach, s.moved_moved, Stmt.movedEach_moved ss]

end

mutual

/-- A tree stays the same if none of its places is moved, and only then. -/
theorem Expr.moved_eq_self : ∀ e : Expr, e.moved move = e ↔ ∀ s ∈ e.spans, move s = s
  | .literal .. | .ident .. => by simp [Expr.moved, Expr.spans]
  | .binary left _ right _ | .logical left _ right _ | .index left right _ => by
    simp [Expr.moved, Expr.spans, or_imp, forall_and, left.moved_eq_self, right.moved_eq_self,
      and_comm, and_left_comm]
  | .unary _ inner _ | .group inner _ | .assign _ inner _ | .ask inner _ => by
    simp [Expr.moved, Expr.spans, inner.moved_eq_self, and_comm]
  | .call callee args _ => by
    simp [Expr.moved, Expr.spans, or_imp, forall_and, callee.moved_eq_self,
      Expr.movedEach_eq_self args, and_comm, and_left_comm]
  | .array elements _ => by
    simp [Expr.moved, Expr.spans, Expr.movedEach_eq_self elements, and_comm]

theorem Expr.movedEach_eq_self : ∀ es : List Expr,
    Expr.movedEach move es = es ↔ ∀ s ∈ Expr.spansEach es, move s = s
  | [] => by simp [Expr.movedEach, Expr.spansEach]
  | e :: es => by
    simp [Expr.movedEach, Expr.spansEach, or_imp, forall_and, e.moved_eq_self,
      Expr.movedEach_eq_self es]

end

theorem Sweep.moved_eq_self (sweep : Sweep) :
    sweep.moved move = sweep ↔ ∀ s ∈ sweep.spans, move s = s := by
  cases sweep <;> simp [Sweep.moved, Sweep.spans, Expr.moved_eq_self, or_imp, forall_and]

mutual

theorem Stmt.moved_eq_self : ∀ s : Stmt, s.moved move = s ↔ ∀ sp ∈ s.spans, move sp = sp
  | .expr e => by simp [Stmt.moved, Stmt.spans, e.moved_eq_self]
  | .say value _ | .bind _ _ value _ | .give (some value) _ => by
    simp [Stmt.moved, Stmt.spans, value.moved_eq_self, and_comm]
  | .block body _ | .skill _ _ body _ => by
    simp [Stmt.moved, Stmt.spans, Stmt.movedEach_eq_self body, and_comm]
  | .ifThen test body _ | .keep test body _ => by
    simp [Stmt.moved, Stmt.spans, or_imp, forall_and, test.moved_eq_self, body.moved_eq_self,
      and_comm, and_left_comm]
  | .ifElse test yes no _ => by
    simp [Stmt.moved, Stmt.spans, or_imp, forall_and, test.moved_eq_self, yes.moved_eq_self,
      no.moved_eq_self, and_comm, and_left_comm]
  | .each _ sweep body _ => by
    simp [Stmt.moved, Stmt.spans, or_imp, forall_and, sweep.moved_eq_self, body.moved_eq_self,
      and_comm, and_assoc]
  | .give none _ | .stop _ | .skip _ => by simp [Stmt.moved, Stmt.spans]
  | .attempt body _ handler _ => by
    simp [Stmt.moved, Stmt.spans, or_imp, forall_and, Stmt.movedEach_eq_self body,
      Stmt.movedEach_eq_self handler, and_comm, and_left_comm]

theorem Stmt.movedEach_eq_self : ∀ ss : List Stmt,
    Stmt.movedEach move ss = ss ↔ ∀ s ∈ Stmt.spansEach ss, move s = s
  | [] => by simp [Stmt.movedEach, Stmt.spansEach]
  | s :: ss => by
    simp [Stmt.movedEach, Stmt.spansEach, or_imp, forall_and, s.moved_eq_self,
      Stmt.movedEach_eq_self ss]

end

end Vibe
