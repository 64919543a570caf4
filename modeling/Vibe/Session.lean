import Vibe.Machine.Execution
import Vibe.Program

/-! Sessions: programs run one after the other on a machine that keeps its root scope. -/

namespace Vibe

/-- The scope of the definitions outside all blocks. -/
def Machine.root : Nat := 0

/-- A store with nothing but the root scope and the built-in skills in it. -/
def Store.initial (dice : Dice) : Store :=
  ({ scopes := #[{}], dice : Store }).defineBuiltins Machine.root

/-- How far operations may nest and loops may go on in one run. What is nested and what is repeated
takes an operation each time, so no more is needed than there are operations. How often their count
starts again is not known, so it is a number that no run will reach. -/
@[irreducible] def Limits.fuel (l : Limits) : Nat :=
  Nat.pow 2 60 + l.maxOperations

namespace Machine

/-- A machine on which nothing has been run. -/
def start (limits : Limits) (console : Console) (dice : Dice) : Machine :=
  { store := Store.initial dice, scope := root, limits, console }

/-- A new machine in place of this one. The console, the dice and the clock go on. -/
def restart (m : Machine) : Machine :=
  { start m.limits m.console m.store.dice with looks := m.looks }

/-- The machine at the beginning of a run: the root scope is the current one, and nothing has been
counted or printed. -/
def reset (m : Machine) : Machine :=
  { m with scope := root, depth := 0, operations := 0, output := #[] }

/-- Runs a program up to its end or its first failure that is not caught. -/
def run (p : Program) : Run Unit := fun m =>
  (Interpreter.runAll (Interpreter.exec m.limits.fuel) p : Run Unit) m.reset

/-- Runs a program and takes away the lines that it printed; a failure becomes the last line. -/
def interpret (p : Program) (m : Machine) : List String × Machine :=
  match run p m with
  | .failed f m => (m.output.toList ++ [f.toError.render], { m with output := #[] })
  | outcome => (outcome.machine.output.toList, { outcome.machine with output := #[] })

/-- The bindings of the root scope. -/
def globals (m : Machine) : List Binding :=
  m.store.bindings root

/-- The bindings of the root scope, apart from the names whose value is a built-in skill. -/
def definitions (m : Machine) : List Binding :=
  m.globals.filter fun b => match b.value with
    | .builtin _ => false
    | _ => true

end Machine

/-- Runs a program text on a new machine: the lines that it printed, with a failure at any stage as
the last line, and the console afterwards. -/
def execute (source : String) (console : Console) (dice : Dice) (clock : Clock := false) :
    List String × Console :=
  match Program.parse source with
  | .error e => ([e.render], console)
  | .ok p =>
    let (lines, m) := (Machine.start { unhurried := clock } console dice).interpret p
    (lines, m.console)

end Vibe
