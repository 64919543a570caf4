import Vibe.Console
import Vibe.Store.Scopes

/-! The machine that runs programs: its state, and runs as functions of it. -/

namespace Vibe

/-- What the clock says each time that it is looked at: whether the operations that were counted
have taken long enough. -/
structure Clock where
  answer : Nat → Bool

instance : CoeFun Clock fun _ => Nat → Bool :=
  ⟨Clock.answer⟩

/-- A clock that always says the same. -/
instance : Coe Bool Clock :=
  ⟨fun b => ⟨fun _ => b⟩⟩

/-- What a run may use up. An operation is the execution of a statement or the evaluation of an
expression. When the operations are used up, the clock is looked at. The run fails, unless the clock
says that it was `unhurried`: then their count starts again. -/
structure Limits where
  maxOperations : Nat := 100000
  maxCallDepth : Nat := 2000
  unhurried : Clock := false

structure Machine where
  store : Store
  /-- The current scope. -/
  scope : Nat
  /-- How many skill calls are in progress. -/
  depth : Nat := 0
  /-- The operations counted in this run. -/
  operations : Nat := 0
  /-- How often the clock has been looked at. -/
  looks : Nat := 0
  limits : Limits
  console : Console
  /-- The lines that this run has printed. -/
  output : Array String := #[]

/-- Why a run fails, and where. -/
structure Fault where
  cause : RuntimeCause
  span : Span
  deriving DecidableEq

def Fault.toError (f : Fault) : Error :=
  ⟨.running f.cause, some f.span, none⟩

/-- How a part of a run ends, and the machine that it leaves. A part that is given too few steps
ends `unfinished`. -/
inductive Outcome (α : Type) where
  | done (a : α) (m : Machine)
  | failed (f : Fault) (m : Machine)
  | unfinished (m : Machine)

namespace Outcome

/-- The machine that is left. -/
def machine {α : Type} : Outcome α → Machine
  | done _ m | failed _ m | unfinished m => m

/-- Changes the machine that is left. -/
@[inline] def mapMachine {α : Type} (change : Machine → Machine) : Outcome α → Outcome α
  | done a m => done a (change m)
  | failed f m => failed f (change m)
  | unfinished m => unfinished (change m)

@[simp] theorem machine_mapMachine {α : Type} (change : Machine → Machine) (o : Outcome α) :
    (o.mapMachine change).machine = change o.machine := by
  cases o <;> rfl

end Outcome

/-- A part of a run. -/
def Run (α : Type) : Type :=
  Machine → Outcome α

namespace Run

variable {α β : Type}

@[always_inline] instance : Monad Run where
  pure a m := .done a m
  bind p next m := match p m with
    | .done a m => next a m
    | .failed f m => .failed f m
    | .unfinished m => .unfinished m

theorem pure_apply (a : α) (m : Machine) : (pure a : Run α) m = .done a m :=
  rfl

theorem bind_apply (p : Run α) (next : α → Run β) (m : Machine) :
    (p >>= next) m = match p m with
      | .done a m => next a m
      | .failed f m => .failed f m
      | .unfinished m => .unfinished m :=
  rfl

instance : LawfulMonad Run := .mk' _
  (fun p => by
    funext m
    change (p >>= pure) m = p m
    simp only [bind_apply]
    cases p m <;> rfl)
  (fun _ _ => rfl)
  (fun p _ _ => by
    funext m
    simp only [bind_apply]
    cases p m <;> rfl)

@[inline] def fail (cause : RuntimeCause) (span : Span) : Run α :=
  fun m => .failed ⟨cause, span⟩ m

@[inline] def unfinished : Run α :=
  fun m => .unfinished m

/-- What the machine is like. -/
@[inline] def read (view : Machine → α) : Run α :=
  fun m => .done (view m) m

/-- Gives a result, or fails at the given place. -/
@[inline] def orFail (span : Span) : Except RuntimeCause α → Run α
  | .ok a => pure a
  | .error cause => fail cause span

/-- The store that stands in while the machine's own one is being changed, so that there is only
one reference to it. -/
def noStore : Store := {}

/-- Changes the store and gives what comes of it. -/
@[inline] def onStore (change : Store → α × Store) : Run α := fun m =>
  let store := m.store
  let m := { m with store := noStore }
  let (a, store) := change store
  .done a { m with store }

/-- Does something in another scope, and is in the same scope as before afterwards. -/
@[inline] def inScope (scope : Nat) (run : Run α) : Run α := fun m =>
  let outer := m.scope
  (run { m with scope }).mapMachine fun m => { m with scope := outer }

/-- The scope is the same afterwards, however the part of the run ends. -/
theorem scope_inScope (scope : Nat) (run : Run α) (m : Machine) :
    (inScope scope run m).machine.scope = m.scope := by
  simp [inScope]

/-- Does something as one more call in progress, however it ends. -/
@[inline] def deeper (run : Run α) : Run α := fun m =>
  (run { m with depth := m.depth + 1 }).mapMachine fun m => { m with depth := m.depth - 1 }

/-- Does something else in place of what fails. -/
@[inline] def orElse (run : Run α) (handler : Fault → Run α) : Run α := fun m =>
  match run m with
  | .failed f m => handler f m
  | outcome => outcome

/-- Counts an operation. -/
def tick (span : Span) : Run Unit := fun m =>
  let m := { m with operations := m.operations + 1 }
  if m.operations ≤ m.limits.maxOperations then .done () m
  else if m.limits.unhurried m.looks then
    .done () { m with operations := 0, looks := m.looks + 1 }
  else .failed ⟨.possibleInfiniteLoop, span⟩ { m with looks := m.looks + 1 }

/-- Prints a line. -/
def print (line : String) : Run Unit := fun m =>
  .done () { m with output := m.output.push line, console := m.console.print line }

/-- Asks for an answer; where there is none it is empty. -/
def ask (prompt : String) : Run String := fun m =>
  let (answer, console) := m.console.ask prompt
  .done (answer.getD "") { m with console }

end Run
end Vibe
