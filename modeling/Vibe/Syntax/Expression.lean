import Vibe.Syntax
import Vibe.Syntax.Parser

/-! Reading expressions. From the loosest to the tightest: assignment, `or`, `and`, equality,
comparison, sums, products, signs, calls and indexing. -/

namespace Vibe.Parser

/-- How an operator joins the expressions on its two sides. -/
abbrev Joiner := Expr → Expr → Span → Expr

def joinBinary (op : BinaryOp) : Joiner := fun left right => .binary left op right

def joinLogical (op : LogicalOp) : Joiner := fun left right => .logical left op right

/-- The operators that group from the left, level by level, the loosest first. -/
def levels : List (Kind → Option Joiner) := [
  fun | .keyword .or => some (joinLogical .or) | _ => none,
  fun | .keyword .and => some (joinLogical .and) | _ => none,
  fun
    | .symbol .equalEqual => some (joinBinary .eq)
    | .symbol .bangEqual => some (joinBinary .ne)
    | _ => none,
  fun
    | .symbol .less => some (joinBinary .lt)
    | .symbol .lessEqual => some (joinBinary .le)
    | .symbol .greater => some (joinBinary .gt)
    | .symbol .greaterEqual => some (joinBinary .ge)
    | _ => none,
  fun
    | .symbol .plus => some (joinBinary .add)
    | .symbol .minus => some (joinBinary .sub)
    | _ => none,
  fun
    | .symbol .star => some (joinBinary .mul)
    | .symbol .slash => some (joinBinary .div)
    | .symbol .percent => some (joinBinary .mod)
    | _ => none]

/-- Goes on with `left` as long as an operator of the level follows. The list `bound` is at least
as long as what is left to read. -/
def chainFrom (join : Kind → Option Joiner) (operand : Parser Expr) :
    (bound : List Token) → Expr → Parser Expr
  | [], left => pure left
  | _ :: bound, left => fun ts =>
    match ts with
    | [] => (.ok left, ts)
    | t :: rest =>
      match join t.kind with
      | none => (.ok left, ts)
      | some joined =>
        (do let right ← operand; chainFrom join operand bound (joined left right t.span)) rest

/-- Operands joined by the operators of one level, grouped from the left. -/
def chain (join : Kind → Option Joiner) (operand : Parser Expr) : Parser Expr := fun ts =>
  (do let left ← operand; chainFrom join operand ts left) ts

/-- Everything that binary and logical operators make of their operands. -/
def operation (operand : Parser Expr) : Parser Expr :=
  levels.foldr chain operand

/-- An operation, or an assignment of what follows the equals sign to the name before it. -/
def assignment (operand value : Parser Expr) : Parser Expr := do
  let target ← operation operand
  match ← accept (.symbol .equal) with
  | none => return target
  | some equals =>
    let v ← value
    match target with
    | .ident name span => return .assign name v span
    | _ => fail .invalidAssignmentTarget (some equals)

/-- A literal, a name, a group, an array or a question. -/
def primary (expression : Parser Expr) : Parser Expr := fun ts =>
  match ts with
  | [] => fail (.expectedExpression (shown ts)) none ts
  | t :: rest =>
    match t.kind.literal? with
    | some v => (.ok (.literal v t.span), rest)
    | none =>
      match t.kind with
      | .ident name => (.ok (.ident name t.span), rest)
      | .symbol .leftParen =>
        (do
          let e ← expression
          expect (.symbol .rightParen) "expected ')' after expression"
          return .group e t.span : Parser Expr) rest
      | .symbol .leftBracket =>
        (do
          let es ← listUntil .rightBracket expression "array elements"
            "expected ']' after array elements"
          return .array es t.span : Parser Expr) rest
      | .keyword .ask => (do return .ask (← expression) t.span : Parser Expr) rest
      | _ => fail (.expectedExpression (shown ts)) (some t.span) ts

/-- Goes on with `e` as long as a call or an index follows. The list `bound` is at least as long
as what is left to read. -/
def postfixFrom (expression : Parser Expr) : (bound : List Token) → Expr → Parser Expr
  | [], e => pure e
  | _ :: bound, e => fun ts =>
    match ts with
    | ⟨.symbol .leftParen, span, _⟩ :: rest =>
      (do
        let args ← listUntil .rightParen expression "arguments" "expected ')' after arguments"
        postfixFrom expression bound (.call e args span)) rest
    | ⟨.symbol .leftBracket, span, _⟩ :: rest =>
      (do
        let i ← expression
        expect (.symbol .rightBracket) "expected ']' after index"
        postfixFrom expression bound (.index e i span)) rest
    | _ => (.ok e, ts)

/-- A primary expression with the calls and indexes behind it. -/
def postfixed (expression : Parser Expr) : Parser Expr := fun ts =>
  (do let e ← primary expression; postfixFrom expression ts e) ts

/-- The operator that a token of this kind is in front of an operand. -/
def unaryOp? : Kind → Option UnaryOp
  | .symbol .minus => some .neg
  | .keyword .not => some .not
  | _ => none

/-- A sign with its operand, or an expression without one. -/
def signed (operand expression : Parser Expr) : Parser Expr := fun ts =>
  match ts with
  | [] => postfixed expression ts
  | t :: rest =>
    match unaryOp? t.kind with
    | some op => (do return .unary op (← operand) t.span : Parser Expr) rest
    | none => postfixed expression ts

mutual

/-- Reads an expression; `budget` is how many more levels may be nested. -/
def expression : (budget : Nat) → Parser Expr
  | 0 => tooDeep
  | b + 1 => assignment (unary b) (expression b)

/-- Reads an operand of the binary operators. A sign takes one level for what follows it. -/
def unary : (budget : Nat) → Parser Expr
  | 0 => signed tooDeep tooDeep
  | b + 1 => signed (unary b) (assignment (unary b) (expression b))

end

/-- What stands inside an operand has the budget of the operand. -/
theorem unary_succ (b : Nat) : unary (b + 1) = signed (unary b) (expression (b + 1)) := by
  simp only [unary, expression]

end Vibe.Parser
