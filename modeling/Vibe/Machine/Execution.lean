import Vibe.Machine.Instruction

/-! Executing statements and evaluating expressions, with any interpreter. -/

namespace Vibe

/-- How a statement ends: normally, on its way out of a loop or on to the next pass, or on its way
out of a skill with a value. -/
inductive Flow where
  | normal
  | stop
  | skip
  | give (v : Value)
  deriving DecidableEq

namespace Interpreter

universe u

variable {M : Type → Type u} [Interpreter M]

/-- Evaluates expressions from left to right. -/
@[specialize] def evalAll (eval : Expr → M Value) : List Expr → M (List Value)
  | [] => pure []
  | e :: es => do
    let v ← eval e
    let vs ← evalAll eval es
    return v :: vs

/-- Executes statements up to the first that does not end normally. -/
@[specialize] def execAll (exec : Stmt → M Flow) : List Stmt → M Flow
  | [] => pure .normal
  | s :: ss => do
    match ← exec s with
    | .normal => execAll exec ss
    | flow => return flow

/-- Binds parameters to arguments in a scope. -/
@[specialize] def defineParams (scope : Nat) : List String → List Value → M Unit
  | p :: ps, v :: vs => do
    act (.define p v .hold scope)
    defineParams scope ps vs
  | _, _ => pure ()

/-- What a call comes to when the body of the skill has ended. -/
@[inline] def callResult (span : Span) : Flow → M Value
  | .give v => pure v
  | .normal => pure .null
  | .stop => fail .stopOutsideLoop span
  | .skip => fail .skipOutsideLoop span

/-- Calls a skill of a program: its body is executed in a new scope in the one where the skill was
defined. -/
@[inline] def callSkill (exec : Stmt → M Flow) (skill : Skill) (args : List Value)
    (span : Span) : M Value := do
  let flow ← asCall span <| withScope skill.home fun scope => do
    defineParams scope skill.params args
    inScope scope (execAll exec skill.body)
  callResult span flow

/-- Calls a value. -/
@[inline] def call (exec : Stmt → M Flow) (callee : Value) (args : List Value) (span : Span) :
    M Value :=
  match callee with
  | .builtin b => act (.builtin b args span)
  | .skill id => do callSkill exec (← act (.skill id span)) args span
  | v => fail (.notCallable v.typeName) span

/-- Evaluates an expression, given how its parts are evaluated. -/
@[inline] def evalStep (eval : Expr → M Value) (exec : Stmt → M Flow) : Expr → M Value
  | .literal v _ => pure v.value
  | .ident name span => act (.lookup name span)
  | .assign name value span => do
    let v ← eval value
    act (.assign name v span)
    return v
  | .binary left op right span => do
    let l ← eval left
    let r ← eval right
    act (.operate op l r span)
  | .unary op operand span => do
    let v ← eval operand
    act (.operateUnary op v span)
  | .logical left op right _ => do
    let l ← eval left
    let holds ← act (.truthy l)
    if holds == (op == .or) then return l else eval right
  | .group inner _ => eval inner
  | .call callee args span => do
    let f ← eval callee
    match ← act (.arity f) with
    | none => fail (.notCallable f.typeName) span
    | some arity =>
      let values ← evalAll eval args
      if values.length = arity then call exec f values span
      else fail (.wrongArity arity values.length) span
  | .array elements _ => do
    let values ← evalAll eval elements
    act (.newArray values)
  | .index object position span => do
    let o ← eval object
    let i ← eval position
    act (.index o i span)
  | .ask prompt _ => do
    let v ← eval prompt
    let answer ← act (.ask (← act (.text v)))
    return .string answer

/-- Repeats a body as long as a test holds, at most as often as the fuel allows. -/
@[specialize] def repeatWhile (test : M Bool) (body : M Flow) : (fuel : Nat) → M Flow
  | 0 => halt
  | n + 1 => do
    if ← test then
      match ← body with
      | .stop => return .normal
      | .give v => return .give v
      | _ => repeatWhile test body n
    else return .normal

/-- Runs through the numbers from `x` to `last` in steps of one, at most as many as the fuel
allows. -/
@[specialize] def repeatRange (pass : Value → M Flow) (last : Float) :
    (fuel : Nat) → (x : Float) → M Flow
  | 0, _ => halt
  | n + 1, x => do
    if x ≤ last then
      match ← pass (.number x) with
      | .stop => return .normal
      | .give v => return .give v
      | _ => repeatRange pass last n (x + 1.0)
    else return .normal

/-- Runs through values. -/
@[specialize] def repeatItems (pass : Value → M Flow) : List Value → M Flow
  | [] => pure .normal
  | v :: vs => do
    match ← pass v with
    | .stop => return .normal
    | .give v => return .give v
    | _ => repeatItems pass vs

/-- One pass of an `each` loop: the variable is bound anew in the scope of the loop, and the body
is executed there. -/
@[inline] def eachPass (exec : Stmt → M Flow) (scope : Nat) (var : String) (body : Stmt)
    (v : Value) : M Flow := do
  act (.define var v .hold scope)
  inScope scope (exec body)

/-- The loop of an `each` statement, whose passes share one scope. What it runs through is fixed
before the first pass. -/
@[inline] def eachLoop (fuel : Nat) (eval : Expr → M Value) (exec : Stmt → M Flow)
    (var : String) (sweep : Sweep) (body : Stmt) (span : Span) : M Flow :=
  withScope none fun scope => do
    match sweep with
    | .range first last =>
      let x ← eval first
      let y ← eval last
      match x, y with
      | .number x, .number y => repeatRange (eachPass exec scope var body) y fuel x
      | _, _ => fail .rangeBoundsNotNumbers span
    | .items collection =>
      let v ← eval collection
      let items ← act (.items v span)
      repeatItems (eachPass exec scope var body) items

/-- Executes the handler of a `try` in a new scope, where the message of the failure is bound to
the error's name. -/
@[inline] def handle (exec : Stmt → M Flow) (errorName : Option String) (handler : List Stmt)
    (f : Fault) : M Flow :=
  inNewScope do
    match errorName with
    | some name => act (.define name (.string f.cause.message) .hold none)
    | none => pure ()
    execAll exec handler

/-- Whether a condition holds. -/
@[inline] def holds (eval : Expr → M Value) (test : Expr) : M Bool := do
  act (.truthy (← eval test))

/-- Executes a statement, given how its parts are executed and evaluated. -/
@[inline] def execStep (fuel : Nat) (eval : Expr → M Value) (exec : Stmt → M Flow) :
    Stmt → M Flow
  | .expr e => do
    let _ ← eval e
    return .normal
  | .say value _ => do
    let v ← eval value
    act (.print (← act (.text v)))
    return .normal
  | .bind binder name value _ => do
    let v ← eval value
    act (.define name v binder none)
    return .normal
  | .block body _ => inNewScope (execAll exec body)
  | .ifThen test yes _ => do
    if ← holds eval test then exec yes else return .normal
  | .ifElse test yes no _ => do
    if ← holds eval test then exec yes else exec no
  | .keep test body _ => repeatWhile (holds eval test) (exec body) fuel
  | .each var sweep body span => eachLoop fuel eval exec var sweep body span
  | .skill name params body _ => do
    let v ← act (.newSkill name params body)
    act (.define name v .hold none)
    return .normal
  | .give value _ =>
    match value with
    | some e => do return .give (← eval e)
    | none => return .give .null
  | .stop _ => return .stop
  | .skip _ => return .skip
  | .attempt body errorName handler _ =>
    orElse (inNewScope (execAll exec body)) (handle exec errorName handler)

mutual

/-- Evaluates an expression. The fuel bounds the nesting of what is being executed. -/
@[specialize] def eval : (fuel : Nat) → Expr → M Value
  | 0, _ => halt
  | n + 1, e => do
    tick e.span
    evalStep (eval n) (exec n) e

/-- Executes a statement. The fuel bounds the nesting of what is being executed, and the passes of
each loop. -/
@[specialize] def exec : (fuel : Nat) → Stmt → M Flow
  | 0, _ => halt
  | n + 1, s => do
    tick s.span
    execStep n (eval n) (exec n) s

end

/-- Executes statements that stand outside all loops and skills. -/
@[specialize] def runAll (exec : Stmt → M Flow) : List Stmt → M Unit
  | [] => pure ()
  | s :: ss => do
    match ← exec s with
    | .normal => runAll exec ss
    | .stop => fail .stopOutsideLoop s.span
    | .skip => fail .skipOutsideLoop s.span
    | .give _ => fail .giveOutsideSkill s.span

end Interpreter
end Vibe
