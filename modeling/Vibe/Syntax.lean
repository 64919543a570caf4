import Vibe.Token

/-! Programs as trees. Every node has the place of the token that stands for it. -/

namespace Vibe

inductive BinaryOp where
  | add | sub | mul | div | mod | eq | ne | lt | le | gt | ge
  deriving DecidableEq

inductive LogicalOp where
  | and | or
  deriving DecidableEq

inductive UnaryOp where
  | neg | not
  deriving DecidableEq

def BinaryOp.symbol : BinaryOp → Symbol
  | add => .plus | sub => .minus | mul => .star | div => .slash | mod => .percent
  | eq => .equalEqual | ne => .bangEqual
  | lt => .less | le => .lessEqual | gt => .greater | ge => .greaterEqual

def LogicalOp.keyword : LogicalOp → Keyword
  | and => .and | or => .or

inductive Expr where
  | literal (value : Literal) (span : Span)
  | ident (name : String) (span : Span)
  | binary (left : Expr) (op : BinaryOp) (right : Expr) (span : Span)
  | logical (left : Expr) (op : LogicalOp) (right : Expr) (span : Span)
  | unary (op : UnaryOp) (operand : Expr) (span : Span)
  | group (inner : Expr) (span : Span)
  | call (callee : Expr) (args : List Expr) (span : Span)
  | array (elements : List Expr) (span : Span)
  | index (object index : Expr) (span : Span)
  | assign (name : String) (value : Expr) (span : Span)
  | ask (prompt : Expr) (span : Span)

def Expr.span : Expr → Span
  | literal _ s | ident _ s | binary _ _ _ s | logical _ _ _ s | unary _ _ s | group _ s
  | call _ _ s | array _ s | index _ _ s | assign _ _ s | ask _ s => s

/-- What an `each` loop runs over: the numbers from one bound to another, or the items of an array
or text. -/
inductive Sweep where
  | range (first last : Expr)
  | items (collection : Expr)

/-- Whether a binding may be assigned to (`hold`) or not (`lock`). -/
inductive Binder where
  | hold | lock
  deriving DecidableEq

def Binder.keyword : Binder → Keyword
  | hold => .hold | lock => .lock

inductive Stmt where
  | expr (e : Expr)
  | say (value : Expr) (span : Span)
  | bind (binder : Binder) (name : String) (value : Expr) (span : Span)
  | block (body : List Stmt) (span : Span)
  | ifThen (test : Expr) (yes : Stmt) (span : Span)
  | ifElse (test : Expr) (yes no : Stmt) (span : Span)
  | keep (test : Expr) (body : Stmt) (span : Span)
  | each (var : String) (sweep : Sweep) (body : Stmt) (span : Span)
  | skill (name : String) (params : List String) (body : List Stmt) (span : Span)
  | give (value : Option Expr) (span : Span)
  | stop (span : Span)
  | skip (span : Span)
  | attempt (body : List Stmt) (errorName : Option String) (handler : List Stmt) (span : Span)

/-- An expression statement has the place of its expression. -/
def Stmt.span : Stmt → Span
  | expr e => e.span
  | say _ s | bind _ _ _ s | block _ s | ifThen _ _ s | ifElse _ _ _ s | keep _ _ s | each _ _ _ s
  | skill _ _ _ s | give _ s | stop s | skip s | attempt _ _ _ s => s

abbrev Program := List Stmt

end Vibe
