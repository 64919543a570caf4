import Vibe.Syntax

/-! The shape of trees that can be written without loss: operators bind as tightly as their levels
say, and nothing that reaches as far right as it can stands where more would follow. -/

namespace Vibe

/-- How tightly an operator binds. -/
def BinaryOp.level : BinaryOp → Nat
  | eq | ne => 3
  | lt | le | gt | ge => 4
  | add | sub => 5
  | mul | div | mod => 6

def LogicalOp.level : LogicalOp → Nat
  | or => 1
  | and => 2

namespace Expr

/-- How tightly an expression holds together: 0 for assignments, 1 to 6 for the operators, 7 for
signs, and 8 for what calls and indexes can follow. -/
def level : Expr → Nat
  | assign .. => 0
  | logical _ op _ _ => op.level
  | binary _ op _ _ => op.level
  | unary .. => 7
  | _ => 8

/-- Whether an expression would take up whatever goes on with an expression behind it. -/
def isOpen : Expr → Bool
  | assign .. | ask .. => true
  | unary _ operand _ => operand.isOpen
  | binary _ _ right _ => right.isOpen
  | logical _ _ right _ => right.isOpen
  | _ => false

/-- Operators group from the left and hold what binds more tightly; calls and indexes follow what
they apply to. -/
inductive Canonical : Expr → Prop
  | literal (v : Literal) (s : Span) : Canonical (literal v s)
  | ident (name : String) (s : Span) : Canonical (ident name s)
  | binary {left right : Expr} {op : BinaryOp} (s : Span) (hl : left.Canonical)
      (hr : right.Canonical) (ll : op.level ≤ left.level) (lr : op.level < right.level)
      (closed : left.isOpen = false) : Canonical (binary left op right s)
  | logical {left right : Expr} {op : LogicalOp} (s : Span) (hl : left.Canonical)
      (hr : right.Canonical) (ll : op.level ≤ left.level) (lr : op.level < right.level)
      (closed : left.isOpen = false) : Canonical (logical left op right s)
  | unary {operand : Expr} (op : UnaryOp) (s : Span) (h : operand.Canonical)
      (l : 7 ≤ operand.level) : Canonical (unary op operand s)
  | group {inner : Expr} (s : Span) (h : inner.Canonical) : Canonical (group inner s)
  | call {callee : Expr} {args : List Expr} (s : Span) (h : callee.Canonical)
      (l : callee.level = 8) (closed : callee.isOpen = false) (count : args.length ≤ 255)
      (hargs : ∀ e ∈ args, e.Canonical) : Canonical (call callee args s)
  | array {elements : List Expr} (s : Span) (count : elements.length ≤ 255)
      (h : ∀ e ∈ elements, e.Canonical) : Canonical (array elements s)
  | index {object position : Expr} (s : Span) (h : object.Canonical)
      (l : object.level = 8) (closed : object.isOpen = false) (hp : position.Canonical) :
      Canonical (index object position s)
  | assign {value : Expr} (name : String) (s : Span) (h : value.Canonical) :
      Canonical (assign name value s)
  | ask {prompt : Expr} (s : Span) (h : prompt.Canonical) : Canonical (ask prompt s)

end Expr

/-- Both bounds of a range, or the collection. -/
inductive Sweep.Canonical : Sweep → Prop
  | range {first last : Expr} (hf : first.Canonical) (hl : last.Canonical) :
      Canonical (range first last)
  | items {collection : Expr} (h : collection.Canonical) : Canonical (items collection)

namespace Stmt

def isDeclaration : Stmt → Bool
  | bind .. | skill .. => true
  | _ => false

/-- Whether an `else` behind the statement would belong to an `if` in it. -/
def wantsElse : Stmt → Bool
  | ifThen .. => true
  | ifElse _ _ no _ => no.wantsElse
  | keep _ body _ => body.wantsElse
  | each _ _ body _ => body.wantsElse
  | _ => false

/-- Declarations stand only directly in bodies, and each `else` follows the `if` that it belongs
to. -/
inductive Canonical : Stmt → Prop
  | expr {e : Expr} (h : e.Canonical) : Canonical (expr e)
  | say {value : Expr} (s : Span) (h : value.Canonical) : Canonical (say value s)
  | bind {value : Expr} (binder : Binder) (name : String) (s : Span) (h : value.Canonical) :
      Canonical (bind binder name value s)
  | block {body : List Stmt} (s : Span) (h : ∀ st ∈ body, Canonical st) :
      Canonical (block body s)
  | ifThen {test : Expr} {yes : Stmt} (s : Span) (ht : test.Canonical) (hy : Canonical yes)
      (dy : yes.isDeclaration = false) : Canonical (ifThen test yes s)
  | ifElse {test : Expr} {yes no : Stmt} (s : Span) (ht : test.Canonical) (hy : Canonical yes)
      (dy : yes.isDeclaration = false) (ey : yes.wantsElse = false) (hn : Canonical no)
      (dn : no.isDeclaration = false) : Canonical (ifElse test yes no s)
  | keep {test : Expr} {body : Stmt} (s : Span) (ht : test.Canonical) (hb : Canonical body)
      (db : body.isDeclaration = false) : Canonical (keep test body s)
  | each {sweep : Sweep} {body : Stmt} (var : String) (s : Span) (hs : sweep.Canonical)
      (hb : Canonical body) (db : body.isDeclaration = false) : Canonical (each var sweep body s)
  | skill {params : List String} {body : List Stmt} (name : String) (s : Span)
      (count : params.length ≤ 255) (h : ∀ st ∈ body, Canonical st) :
      Canonical (skill name params body s)
  | give {value : Option Expr} (s : Span) (h : ∀ e ∈ value, e.Canonical) :
      Canonical (give value s)
  | stop (s : Span) : Canonical (stop s)
  | skip (s : Span) : Canonical (skip s)
  | attempt {body handler : List Stmt} (errorName : Option String) (s : Span)
      (hb : ∀ st ∈ body, Canonical st) (hh : ∀ st ∈ handler, Canonical st) :
      Canonical (attempt body errorName handler s)

end Stmt

/-- Every statement of the program has the shape. -/
def Program.Canonical (p : Program) : Prop :=
  ∀ s ∈ p, Stmt.Canonical s

/-! ### Nesting -/

mutual

/-- How many levels of nesting the inside of an expression takes. Operators, and what is called or
indexed, take none of their own. -/
def Expr.depth : Expr → Nat
  | literal .. | ident .. => 0
  | binary left _ right _ => max left.depth right.depth
  | logical left _ right _ => max left.depth right.depth
  | unary _ operand _ => operand.depth + 1
  | group inner _ => inner.depth + 1
  | call callee args _ => max callee.depth (Expr.deepest args)
  | array elements _ => Expr.deepest elements
  | index object position _ => max object.depth (position.depth + 1)
  | assign _ value _ => value.depth + 1
  | ask prompt _ => prompt.depth + 1

/-- How many levels the items of a list take. -/
def Expr.deepest : List Expr → Nat
  | [] => 0
  | e :: es => max (e.depth + 1) (Expr.deepest es)

end

def Sweep.depth : Sweep → Nat
  | range first last => max (first.depth + 1) (last.depth + 1)
  | items collection => collection.depth + 1

mutual

/-- How many levels of nesting a statement takes, its own included. Declarations take none of their
own. -/
def Stmt.depth : Stmt → Nat
  | expr e => e.depth + 2
  | say value _ => value.depth + 2
  | bind _ _ value _ => value.depth + 1
  | block body _ => Stmt.deepest body + 1
  | ifThen test yes _ => max (test.depth + 1) yes.depth + 1
  | ifElse test yes no _ => max (max (test.depth + 1) yes.depth) no.depth + 1
  | keep test body _ => max (test.depth + 1) body.depth + 1
  | each _ sweep body _ => max sweep.depth body.depth + 1
  | skill _ _ body _ => Stmt.deepest body
  | give none _ => 1
  | give (some value) _ => value.depth + 2
  | stop _ | skip _ => 1
  | attempt body _ handler _ => max (Stmt.deepest body) (Stmt.deepest handler) + 1

def Stmt.deepest : List Stmt → Nat
  | [] => 0
  | s :: ss => max s.depth (Stmt.deepest ss)

end

theorem Expr.lt_deepest {es : List Expr} {e : Expr} (h : e ∈ es) : e.depth < Expr.deepest es := by
  induction es with
  | nil => cases h
  | cons e' es ih =>
    rw [Expr.deepest]
    rcases List.mem_cons.1 h with rfl | h
    · omega
    · have := ih h
      omega

end Vibe
