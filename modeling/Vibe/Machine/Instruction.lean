import Vibe.Machine
import Vibe.Store.Builtins
import Vibe.Store.Operators

/-! The instructions of the machine, and interpreters: everything that can carry out programs made
of instructions. The machine itself is one. -/

namespace Vibe

/-- What the machine does at once. An instruction comes to a value or fails. -/
inductive Instr : Type → Type where
  /-- Counts an operation. -/
  | tick (span : Span) : Instr Unit
  | fail (cause : RuntimeCause) (span : Span) : Instr Empty
  /-- Ends what was given too few steps. -/
  | halt : Instr Empty
  | truthy (v : Value) : Instr Bool
  /-- How many arguments a value takes, if it can be called. -/
  | arity (v : Value) : Instr (Option Nat)
  /-- A value as text. -/
  | text (v : Value) : Instr String
  | lookup (name : String) (span : Span) : Instr Value
  | assign (name : String) (v : Value) (span : Span) : Instr Unit
  /-- Makes a scope in the given one, or else in the current one. -/
  | newScope (home : Option Nat) : Instr Nat
  /-- Binds a name in the given scope, or else in the current one. -/
  | define (name : String) (v : Value) (binder : Binder) (scope : Option Nat) : Instr Unit
  | newArray (values : List Value) : Instr Value
  /-- Makes a skill whose home is the current scope. -/
  | newSkill (name : String) (params : List String) (body : List Stmt) : Instr Value
  | operate (op : BinaryOp) (left right : Value) (span : Span) : Instr Value
  | operateUnary (op : UnaryOp) (operand : Value) (span : Span) : Instr Value
  | index (object position : Value) (span : Span) : Instr Value
  /-- The values that a loop over the items of a value runs through. -/
  | items (v : Value) (span : Span) : Instr (List Value)
  /-- The skill that has a number. -/
  | skill (id : Nat) (span : Span) : Instr Skill
  | builtin (b : Builtin) (args : List Value) (span : Span) : Instr Value
  /-- Refuses one more call when as many as allowed are in progress. -/
  | enter (span : Span) : Instr Unit
  | print (line : String) : Instr Unit
  | ask (prompt : String) : Instr String

/-- Carries out an instruction on the machine. -/
@[inline] def Instr.run {α : Type} : Instr α → Run α
  | tick span => Run.tick span
  | fail cause span => Run.fail cause span
  | halt => Run.unfinished
  | truthy v => Run.read (·.store.truthy v)
  | arity v => Run.read (·.store.arity? v)
  | text v => Run.read (·.store.print v)
  | lookup name span => fun m => Run.orFail span (m.store.get name m.scope) m
  | assign name v span => do
    Run.orFail span (← fun m => Run.onStore (Store.assign name v m.scope) m)
  | newScope home => fun m => Run.onStore (Store.newScope (some (home.getD m.scope))) m
  | define name v binder scope => fun m =>
    Run.onStore (fun st => ((), st.define name v binder (scope.getD m.scope))) m
  | newArray values => Run.onStore (Store.newArray values.toArray)
  | newSkill name params body => fun m =>
    Run.onStore (Store.newSkill ⟨name, params, body, m.scope⟩) m
  | operate op left right span => fun m => Run.orFail span (m.store.operate op left right) m
  | operateUnary op operand span => fun m => Run.orFail span (m.store.operateUnary op operand) m
  | index object position span => fun m => Run.orFail span (m.store.index object position) m
  | items v span => fun m => Run.orFail span (m.store.sweepItems v) m
  | skill id span => fun m =>
    match m.store.skills[id]? with
    | some s => .done s m
    | none => .failed ⟨.notCallable (Value.skill id).typeName, span⟩ m
  | builtin b args span => do Run.orFail span (← Run.onStore (b.call args))
  | enter span => fun m =>
    if m.limits.maxCallDepth ≤ m.depth then .failed ⟨.stackOverflow, span⟩ m else .done () m
  | print line => Run.print line
  | ask prompt => Run.ask prompt

universe u

/-- What can carry out instructions one after the other, in other scopes, as calls in progress and
with something else to do in case of a failure. -/
class Interpreter (M : Type → Type u) extends Monad M where
  act {α : Type} : Instr α → M α
  /-- Does something in another scope, and is in the same scope as before afterwards. -/
  inScope {α : Type} : Nat → M α → M α
  /-- Does something as one more call in progress, unless that is refused. -/
  asCall {α : Type} : Span → M α → M α
  /-- Does something else in place of what fails. -/
  orElse {α : Type} : M α → (Fault → M α) → M α

@[always_inline] instance : Interpreter Run where
  act := Instr.run
  inScope := Run.inScope
  asCall span run := do
    Instr.run (.enter span)
    Run.deeper run
  orElse := Run.orElse

namespace Interpreter

variable {M : Type → Type u} [Interpreter M] {α : Type}

@[inline] def tick (span : Span) : M Unit :=
  act (.tick span)

@[inline] def fail (cause : RuntimeCause) (span : Span) : M α := do
  let e ← act (.fail cause span)
  return e.elim

@[inline] def halt : M α := do
  let e ← act .halt
  return e.elim

/-- Makes a scope in the given one, or else in the current one, and does something with it. -/
@[inline] def withScope (home : Option Nat) (run : Nat → M α) : M α := do
  run (← act (.newScope home))

/-- Does something in a new scope in the current one. -/
@[inline] def inNewScope (run : M α) : M α :=
  withScope none fun scope => inScope scope run

end Interpreter
end Vibe
