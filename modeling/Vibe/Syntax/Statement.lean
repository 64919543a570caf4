import Vibe.Syntax.Expression

/-! Reading statements. An error inside a program or a body is noted, and reading goes on at the
next place where a statement may begin. -/

namespace Vibe

/-- An error that reading went past, and the tokens that were left where it struck. -/
structure Setback where
  error : Error
  ahead : List Token

/-- A parser that goes on after errors inside bodies: it gives what it read or the error that
stopped it, the tokens left, and the errors that it went past, in order. -/
def BodyParser (α : Type) : Type :=
  List Token → Except Error α × List Token × List Setback

namespace BodyParser

@[always_inline] instance : Monad BodyParser where
  pure a ts := (.ok a, ts, [])
  bind p f ts := match p ts with
    | (.ok a, rest, errors) =>
      match f a rest with
      | (r, rest', errors') => (r, rest', errors ++ errors')
    | (.error e, rest, errors) => (.error e, rest, errors)

@[always_inline] instance : MonadLift Parser BodyParser where
  monadLift p ts := match p ts with
    | (r, rest) => (r, rest, [])

variable {α β : Type} {p : BodyParser α} {f : α → BodyParser β} {q : Parser α} {a a' : α} {b : β}
  {ts mid rest : List Token} {errors : List Setback}

@[simp] theorem pure_eq_ok :
    (pure a : BodyParser α) ts = (.ok a', rest, errors) ↔ a = a' ∧ ts = rest ∧ errors = [] := by
  change (Except.ok a, ts, []) = (Except.ok a', rest, errors) ↔ _
  simp [eq_comm]

@[simp] theorem lift_eq_ok :
    (liftM q : BodyParser α) ts = (.ok a, rest, errors) ↔ q ts = (.ok a, rest) ∧ errors = [] := by
  change ((q ts).1, (q ts).2, []) = (Except.ok a, rest, errors) ↔ _
  simp [Prod.ext_iff, eq_comm, and_assoc]

theorem bind_apply (p : BodyParser α) (f : α → BodyParser β) (ts : List Token) :
    (p >>= f) ts = match p ts with
      | (.ok a, rest, errors) =>
        match f a rest with
        | (r, rest', errors') => (r, rest', errors ++ errors')
      | (.error e, rest, errors) => (.error e, rest, errors) :=
  rfl

theorem bind_of_ok (h : p ts = (.ok a, mid, [])) : (p >>= f) ts = f a mid := by
  rw [bind_apply, h]
  rfl

/-- Parsers in a row give a result without an error when each of them does. -/
theorem bind_eq_ok : (p >>= f) ts = (.ok b, rest, []) ↔
    ∃ a mid, p ts = (.ok a, mid, []) ∧ f a mid = (.ok b, rest, []) := by
  constructor
  · intro h
    rw [bind_apply] at h
    split at h
    · next a mid errors hp =>
      simp only [Prod.mk.injEq, List.append_eq_nil_iff] at h
      obtain ⟨hr, hrest, rfl, herrors⟩ := h
      exact ⟨a, mid, hp, Prod.ext hr (Prod.ext hrest herrors)⟩
    · cases h
  · rintro ⟨a, mid, hp, hf⟩
    rw [bind_of_ok hp, hf]

theorem bind_lift_eq_ok {f : α → BodyParser β} : (liftM q >>= f) ts = (.ok b, rest, []) ↔
    ∃ a mid, q ts = (.ok a, mid) ∧ f a mid = (.ok b, rest, []) := by
  simp [bind_eq_ok]

end BodyParser

namespace Parser

/-- Takes the semicolon that may end a statement. -/
def terminator : Parser Unit := do
  let _ ← accept (.symbol .semicolon)

/-- After an error one token is dropped, and then more until a semicolon was dropped or a token
comes that begins a statement. -/
def resume : List Token → List Token
  | [] => []
  | dropped :: rest =>
    match rest with
    | [] => []
    | t :: _ =>
      if dropped.kind = .symbol .semicolon ∨ t.kind.startsStatement then rest else resume rest

/-- Reads statements up to the end of the input or a token that `closes`, which is not taken. The
list `bound` is at least as long as what is left to read; `done` and `errors` are what was read
and what failed so far, `done` in reverse. -/
def statements (one : BodyParser Stmt) (closes : Kind → Bool) :
    (bound : List Token) → (done : List Stmt) → (errors : List Setback) → List Token →
      List Stmt × List Token × List Setback
  | [], done, errors, ts => (done.reverse, ts, errors)
  | _ :: bound, done, errors, ts =>
    match ts with
    | [] => (done.reverse, ts, errors)
    | t :: _ =>
      if closes t.kind then (done.reverse, ts, errors)
      else match one ts with
        | (.ok s, rest, more) => statements one closes bound (s :: done) (errors ++ more) rest
        | (.error e, rest, more) =>
          statements one closes bound done (errors ++ more ++ [⟨e, rest⟩]) (resume rest)

/-- Reads statements up to a closing brace and takes the brace. -/
def body (one : BodyParser Stmt) : BodyParser (List Stmt) := do
  let read : BodyParser (List Stmt) := fun ts =>
    match statements one (· = .symbol .rightBrace) ts [] [] ts with
    | (stmts, rest, errors) => (.ok stmts, rest, errors)
  let stmts ← read
  expect (.symbol .rightBrace) "expected '\x7d' after block"
  return stmts

/-- The rest of a binding whose keyword has been taken. -/
def binding (binder : Binder) (expression : Parser Expr) : Parser Stmt := do
  let (name, span) ← expectName ("expected variable name after '" ++ binder.keyword.text ++ "'")
  expect (.symbol .equal) "expected '=' after variable name"
  let value ← expression
  terminator
  return .bind binder name value span

/-- The rest of a skill whose keyword has been taken. -/
def skillRest (body : BodyParser (List Stmt)) : BodyParser Stmt := do
  let (name, span) ← expectName "expected skill name"
  expect (.symbol .leftParen) "expected '(' after skill name"
  let params ← listUntil .rightParen (Prod.fst <$> expectName "expected parameter name")
    "parameters" "expected ')' after parameters"
  expect (.symbol .leftBrace) "expected '\x7b' before skill body"
  return .skill name params (← body) span

/-- What stands between the parentheses of an `each` loop, from behind the name on. -/
def sweep (expression : Parser Expr) : Parser Sweep := do
  if let some _ ← accept (.keyword .fromWord) then
    let first ← expression
    expect (.keyword .toWord) "expected 'to' after range start"
    let last ← expression
    expect (.symbol .rightParen) "expected ')' after range"
    return .range first last
  else if let some _ ← accept (.keyword .inWord) then
    let collection ← expression
    expect (.symbol .rightParen) "expected ')' after iterable"
    return .items collection
  else expected "expected 'from' or 'in' in each loop"

/-- The rest of an `if` at `span`: a condition in parentheses, a statement, and perhaps another
one for the other case. -/
def ifRest (span : Span) (expression : Parser Expr) (statement : BodyParser Stmt) :
    BodyParser Stmt := do
  expect (.symbol .leftParen) "expected '(' after 'if'"
  let test ← expression
  expect (.symbol .rightParen) "expected ')' after if condition"
  let yes ← statement
  match ← accept (.keyword .elseWord) with
  | some _ => return .ifElse test yes (← statement) span
  | none => return .ifThen test yes span

def keepRest (span : Span) (expression : Parser Expr) (statement : BodyParser Stmt) :
    BodyParser Stmt := do
  expect (.symbol .leftParen) "expected '(' after 'keep'"
  let test ← expression
  expect (.symbol .rightParen) "expected ')' after keep condition"
  return .keep test (← statement) span

def eachRest (span : Span) (expression : Parser Expr) (statement : BodyParser Stmt) :
    BodyParser Stmt := do
  expect (.symbol .leftParen) "expected '(' after 'each'"
  let (var, _) ← expectName "expected loop variable name"
  let swept ← sweep expression
  return .each var swept (← statement) span

/-- The rest of a `give`: nothing before a semicolon, a closing brace or the end of the input, and
otherwise an expression. -/
def giveRest (span : Span) (expression : Parser Expr) : Parser Stmt := fun ts =>
  let bare := ts.isEmpty || nextIs (.symbol .semicolon) ts || nextIs (.symbol .rightBrace) ts
  let value : Parser (Option Expr) := if bare then pure none else some <$> expression
  (do let v ← value; terminator; return .give v span : Parser Stmt) ts

def attemptRest (span : Span) (body : BodyParser (List Stmt)) : BodyParser Stmt := do
  expect (.symbol .leftBrace) "expected '\x7b' after 'try'"
  let tried ← body
  expect (.keyword .caught) "expected 'caught' after try block"
  let errorName ← errorName?
  expect (.symbol .leftBrace) "expected '\x7b' after 'caught'"
  return .attempt tried errorName (← body) span
where
  /-- The name for the error, in parentheses, if there is one. -/
  errorName? : Parser (Option String) := do
    match ← accept (.symbol .leftParen) with
    | none => return none
    | some _ =>
      let (name, _) ← expectName "expected error variable name"
      expect (.symbol .rightParen) "expected ')' after error variable"
      return some name

/-- A statement that is no declaration, from the parsers for what it contains. -/
def simpleStatement (expression : Parser Expr) (statement : BodyParser Stmt)
    (body : BodyParser (List Stmt)) : BodyParser Stmt := fun ts =>
  let expressionStatement : Parser Stmt := do
    let e ← expression
    terminator
    return .expr e
  match ts with
  | [] => (expressionStatement : BodyParser Stmt) ts
  | ⟨kind, span, _⟩ :: rest =>
    match kind with
    | .keyword .say =>
      ((do let e ← expression; terminator; return .say e span : Parser Stmt) :
        BodyParser Stmt) rest
    | .keyword .ifWord => ifRest span expression statement rest
    | .keyword .keep => keepRest span expression statement rest
    | .keyword .each => eachRest span expression statement rest
    | .keyword .give => (giveRest span expression : BodyParser Stmt) rest
    | .keyword .stop => ((do terminator; return .stop span : Parser Stmt) : BodyParser Stmt) rest
    | .keyword .skip => ((do terminator; return .skip span : Parser Stmt) : BodyParser Stmt) rest
    | .keyword .tryWord => attemptRest span body rest
    | .symbol .leftBrace => (do return .block (← body) span : BodyParser Stmt) rest
    | _ => (expressionStatement : BodyParser Stmt) ts

mutual

/-- Reads a statement or a declaration. `room` bounds the nesting of all statements: a level needs
a token of its own, so twice the number of tokens is enough. `budget` is how many more levels of
statements other than declarations, and of expressions, may be nested. -/
def declaration : (room budget : Nat) → BodyParser Stmt
  | 0, _ => (tooDeep : Parser Stmt)
  | n + 1, b => fun ts =>
    match ts with
    | ⟨.keyword .hold, _, _⟩ :: rest =>
      (binding .hold (expression b) : BodyParser Stmt) rest
    | ⟨.keyword .lock, _, _⟩ :: rest =>
      (binding .lock (expression b) : BodyParser Stmt) rest
    | ⟨.keyword .skill, _, _⟩ :: rest => skillRest (body (declaration n b)) rest
    | _ => statement n b ts

/-- Reads a statement that is no declaration. -/
def statement : (room budget : Nat) → BodyParser Stmt
  | 0, _ => (tooDeep : Parser Stmt)
  | _ + 1, 0 => (tooDeep : Parser Stmt)
  | n + 1, b + 1 => simpleStatement (expression b) (statement n b) (body (declaration n b))

end

end Parser

end Vibe
