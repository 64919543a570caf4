import Vibe.Command.Transcript
import Vibe.Session
import Vibe.Text.Blank

/-! The shell: lines of input that are commands or programs, run on one machine. -/

namespace Vibe

def version : String := "0.2.0"

/-- A session of the shell. The answers of the console are the lines of input not yet read, which
the programs read from too. -/
structure Shell where
  machine : Machine
  transcript : Transcript := {}

namespace Shell

def greeting : List String :=
  ["VibeScript " ++ version ++ " - a tiny, friendly language",
    "Type exit to exit, help for help", ""]

def help : List String :=
  ["REPL Commands:",
    "  exit, quit   Exit the REPL",
    "  clear        Forget every definition",
    "  vars         List defined variables and skills",
    "  help         Show this help",
    "",
    "Language Examples:",
    "  hold name = ask \"who are you? \"",
    "  say \"hey \" + name",
    "  lock limit = 3",
    "  skill double(n) \x7b give n * 2 \x7d",
    "  say double(limit)"]

/-- A line for each variable, or one that says that there are none. -/
def listing (m : Machine) : List String :=
  match m.definitions with
  | [] => ["No variables defined."]
  | bs => bs.map fun b =>
    "  " ++ b.binder.keyword.text ++ " " ++ b.name ++ " = " ++ m.store.print b.value

def say (texts : List String) (sh : Shell) : Shell :=
  { sh with transcript := sh.transcript.lines texts }

/-- Writes down what happened on the console since this was last done. -/
def flush (sh : Shell) : Shell :=
  { machine := { sh.machine with console := { sh.machine.console with events := #[] } }
    transcript := sh.transcript.events sh.machine.console }

/-- Runs a line as a program. -/
def runLine (line : String) (sh : Shell) : Shell :=
  match Program.parseAll line with
  | .error es => { sh with transcript := sh.transcript.errors es line }
  | .ok p =>
    let outcome := Machine.run p sh.machine
    let sh := flush { sh with machine := outcome.machine }
    match outcome with
    | .failed f _ => { sh with transcript := sh.transcript.errors [f.toError] line }
    | _ => sh

/-- Forgets all definitions. -/
def clear (sh : Shell) : Shell :=
  { sh with machine := sh.machine.restart }

/-- Does what a line asks for, and tells whether the session goes on. -/
def step (line : String) (sh : Shell) : Shell × Bool :=
  match String.ofList (Text.trim line.toList) with
  | "" => (sh, true)
  | "exit" | "quit" => (sh, false)
  | "help" => (sh.say help, true)
  | "clear" => (sh.clear.say ["State cleared."], true)
  | "vars" => (sh.say (listing sh.machine), true)
  | line => (sh.runLine line, true)

/-- Takes the next line of input. -/
def nextLine (sh : Shell) : Option (String × Shell) :=
  let m := sh.machine
  match m.console.answers with
  | [] => none
  | line :: rest =>
    some (line, { sh with machine := { m with console := { m.console with answers := rest } } })

/-- Does what the lines of input ask for, up to the end of the session. The bound is at least the
number of lines. -/
def loop : (bound : Nat) → Shell → Shell
  | 0, sh => sh
  | n + 1, sh =>
    match sh.nextLine with
    | none => sh
    | some (line, sh) =>
      match sh.step line with
      | (sh, true) => loop n sh
      | (sh, false) => sh

/-- A whole session on the given lines of input. -/
def session (input : List String) (dice : Dice) (clock : Clock) : Transcript :=
  let sh : Shell := { machine := Machine.start { unhurried := clock } { answers := input } dice }
  (loop input.length (sh.say greeting)).say ["Goodbye!"] |>.transcript

end Shell
end Vibe
