import Mathlib.Data.List.Forall2
import Vibe.Program

/-! Trees written out: the marks that the tokens of a tree have to match, in order. -/

namespace Vibe

/-- What a written tree asks of a token: its kind, and its place if it is the place of a node. -/
structure Mark where
  kind : Kind
  span : Option Span := none

namespace Mark

def Fits (m : Mark) (t : Token) : Prop :=
  t.kind = m.kind ∧ ∀ s ∈ m.span, t.span = s

def sign (s : Symbol) : Mark := ⟨.symbol s, none⟩

def word (k : Keyword) : Mark := ⟨.keyword k, none⟩

def name (n : String) : Mark := ⟨.ident n, none⟩

/-- Written parts with commas between them. -/
def listed (parts : List (List Mark)) : List Mark :=
  [sign .comma].intercalate parts

end Mark

/-- The kind of the token that a literal is written as. -/
def Literal.kind : Literal → Kind
  | number x => .number x
  | string s => .string s
  | bool true => .keyword .bet
  | bool false => .keyword .cap
  | null => .keyword .null

def UnaryOp.kind : UnaryOp → Kind
  | neg => .symbol .minus
  | not => .keyword .not

open Mark

mutual

def Expr.marks : Expr → List Mark
  | literal v s => [⟨v.kind, s⟩]
  | ident n s => [⟨.ident n, s⟩]
  | binary left op right s => left.marks ++ ⟨.symbol op.symbol, s⟩ :: right.marks
  | logical left op right s => left.marks ++ ⟨.keyword op.keyword, s⟩ :: right.marks
  | unary op operand s => ⟨op.kind, s⟩ :: operand.marks
  | group inner s => ⟨.symbol .leftParen, s⟩ :: inner.marks ++ [sign .rightParen]
  | call callee args s =>
    callee.marks ++ ⟨.symbol .leftParen, s⟩ :: listed (Expr.marksEach args) ++ [sign .rightParen]
  | array elements s =>
    ⟨.symbol .leftBracket, s⟩ :: listed (Expr.marksEach elements) ++ [sign .rightBracket]
  | index object position s =>
    object.marks ++ ⟨.symbol .leftBracket, s⟩ :: position.marks ++ [sign .rightBracket]
  | assign n value s => ⟨.ident n, s⟩ :: sign .equal :: value.marks
  | ask prompt s => ⟨.keyword .ask, s⟩ :: prompt.marks

def Expr.marksEach : List Expr → List (List Mark)
  | [] => []
  | e :: es => e.marks :: Expr.marksEach es

end

@[simp] theorem Expr.marksEach_eq_map (es : List Expr) : Expr.marksEach es = es.map Expr.marks := by
  induction es with
  | nil => rfl
  | cons e es ih => rw [Expr.marksEach, ih, List.map_cons]

def Sweep.marks : Sweep → List Mark
  | range first last => word .fromWord :: first.marks ++ word .toWord :: last.marks
  | items collection => word .inWord :: collection.marks

/-- The name for the error of a `try`, in parentheses, if it has one. -/
def errorNameMarks : Option String → List Mark
  | none => []
  | some n => [sign .leftParen, name n, sign .rightParen]

def conditionMarks (test : Expr) : List Mark :=
  sign .leftParen :: test.marks ++ [sign .rightParen]

/-- A body in braces, behind the opening one. -/
def bodyMarks (statements : List (List Mark)) : List Mark :=
  statements.flatten ++ [sign .rightBrace]

section

-- `close` is written behind each statement that may be followed by a semicolon.
variable (close : List Mark)

mutual

def Stmt.marks : Stmt → List Mark
  | expr e => e.marks ++ close
  | say value s => ⟨.keyword .say, s⟩ :: value.marks ++ close
  | bind binder n value s =>
    word binder.keyword :: ⟨.ident n, s⟩ :: sign .equal :: value.marks ++ close
  | block body s => ⟨.symbol .leftBrace, s⟩ :: bodyMarks (Stmt.marksEach body)
  | ifThen test yes s => ⟨.keyword .ifWord, s⟩ :: conditionMarks test ++ yes.marks
  | ifElse test yes no s =>
    ⟨.keyword .ifWord, s⟩ :: conditionMarks test ++ yes.marks ++ word .elseWord :: no.marks
  | keep test body s => ⟨.keyword .keep, s⟩ :: conditionMarks test ++ body.marks
  | each var sweep body s =>
    ⟨.keyword .each, s⟩ :: sign .leftParen :: name var :: sweep.marks ++
      sign .rightParen :: body.marks
  | skill n params body s =>
    word .skill :: ⟨.ident n, s⟩ :: sign .leftParen :: listed (params.map fun p => [name p]) ++
      sign .rightParen :: sign .leftBrace :: bodyMarks (Stmt.marksEach body)
  | give none s => ⟨.keyword .give, s⟩ :: close
  | give (some value) s => ⟨.keyword .give, s⟩ :: value.marks ++ close
  | stop s => ⟨.keyword .stop, s⟩ :: close
  | skip s => ⟨.keyword .skip, s⟩ :: close
  | attempt body errorName handler s =>
    ⟨.keyword .tryWord, s⟩ :: sign .leftBrace :: bodyMarks (Stmt.marksEach body) ++
      word .caught :: errorNameMarks errorName ++
      sign .leftBrace :: bodyMarks (Stmt.marksEach handler)

def Stmt.marksEach : List Stmt → List (List Mark)
  | [] => []
  | s :: ss => s.marks :: Stmt.marksEach ss

end

@[simp] theorem Stmt.marksEach_eq_map (ss : List Stmt) :
    Stmt.marksEach close ss = ss.map (Stmt.marks close) := by
  induction ss with
  | nil => rfl
  | cons s ss ih => rw [Stmt.marksEach, ih, List.map_cons]

theorem Stmt.marks_ne_nil (s : Stmt) : s.marks close ≠ [] := by
  cases s with
  | expr e => cases e <;> simp [Stmt.marks, Expr.marks]
  | give value => cases value <;> simp [Stmt.marks]
  | _ => simp [Stmt.marks]

def Program.marks (p : Program) : List Mark :=
  (p.map (Stmt.marks close)).flatten

end

/-! ### Trees without places -/

mutual

/-- The expression with the same place for all nodes. -/
def Expr.unplaced : Expr → Expr
  | literal v _ => .literal v .nowhere
  | ident n _ => .ident n .nowhere
  | binary left op right _ => .binary left.unplaced op right.unplaced .nowhere
  | logical left op right _ => .logical left.unplaced op right.unplaced .nowhere
  | unary op operand _ => .unary op operand.unplaced .nowhere
  | group inner _ => .group inner.unplaced .nowhere
  | call callee args _ => .call callee.unplaced (Expr.unplacedEach args) .nowhere
  | array elements _ => .array (Expr.unplacedEach elements) .nowhere
  | index object position _ => .index object.unplaced position.unplaced .nowhere
  | assign n value _ => .assign n value.unplaced .nowhere
  | ask prompt _ => .ask prompt.unplaced .nowhere

def Expr.unplacedEach : List Expr → List Expr
  | [] => []
  | e :: es => e.unplaced :: Expr.unplacedEach es

end

@[simp] theorem Expr.unplacedEach_eq_map (es : List Expr) :
    Expr.unplacedEach es = es.map Expr.unplaced := by
  induction es with
  | nil => rfl
  | cons e es ih => rw [Expr.unplacedEach, ih, List.map_cons]

def Sweep.unplaced : Sweep → Sweep
  | range first last => .range first.unplaced last.unplaced
  | items collection => .items collection.unplaced

mutual

/-- The statement with the same place for all nodes. -/
def Stmt.unplaced : Stmt → Stmt
  | expr e => .expr e.unplaced
  | say value _ => .say value.unplaced .nowhere
  | bind binder n value _ => .bind binder n value.unplaced .nowhere
  | block body _ => .block (Stmt.unplacedEach body) .nowhere
  | ifThen test yes _ => .ifThen test.unplaced yes.unplaced .nowhere
  | ifElse test yes no _ => .ifElse test.unplaced yes.unplaced no.unplaced .nowhere
  | keep test body _ => .keep test.unplaced body.unplaced .nowhere
  | each var sweep body _ => .each var sweep.unplaced body.unplaced .nowhere
  | skill n params body _ => .skill n params (Stmt.unplacedEach body) .nowhere
  | give value _ => .give (value.map Expr.unplaced) .nowhere
  | stop _ => .stop .nowhere
  | skip _ => .skip .nowhere
  | attempt body errorName handler _ =>
    .attempt (Stmt.unplacedEach body) errorName (Stmt.unplacedEach handler) .nowhere

def Stmt.unplacedEach : List Stmt → List Stmt
  | [] => []
  | s :: ss => s.unplaced :: Stmt.unplacedEach ss

end

@[simp] theorem Stmt.unplacedEach_eq_map (ss : List Stmt) :
    Stmt.unplacedEach ss = ss.map Stmt.unplaced := by
  induction ss with
  | nil => rfl
  | cons s ss ih => rw [Stmt.unplacedEach, ih, List.map_cons]

def Program.unplaced (p : Program) : Program :=
  p.map Stmt.unplaced

end Vibe
