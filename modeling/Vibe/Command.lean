import Vibe.Command.Shell
import Vibe.Syntax.Outline
import Vibe.Token.Listing

/-! The command line. -/

namespace Vibe

/-- What a command leaves behind: its output and its exit code. -/
structure Report where
  transcript : Transcript
  code : Nat

namespace Command

def help : List String :=
  ["VibeScript",
    "A tiny, friendly teaching language",
    "Version " ++ version,
    "",
    "USAGE:",
    "  vibe run <file.vibe>           Execute a VibeScript file",
    "  vibe run <file.vibe> --debug   Also print tokens and syntax tree",
    "  vibe repl                      Start interactive REPL",
    "  vibe help                      Show this help message",
    "  vibe version                   Show version",
    "",
    "EXAMPLES:",
    "  vibe run demos/hello.vibe",
    "  vibe repl",
    "",
    "LANGUAGE FEATURES:",
    "  hold x = 10                    Mutable variable",
    "  lock pi = 3.14                 Constant",
    "  say x                          Print a value",
    "  keep (x > 0) \x7b x = x - 1 \x7d     While loop",
    "  each (i from 1 to 3) \x7b say i \x7d Range loop",
    "  skill add(a, b) \x7b give a + b \x7d Function definition"]

/-- What the arguments of the command line ask for. -/
inductive Request where
  | help
  | version
  | shell
  | runFile (path : String) (debug : Bool)
  | missingFile
  | unknown (word : String)
  deriving DecidableEq

/-- A file is run by `run` or by its name alone if that ends in `.vibe`. -/
def Request.ofArgs (args : List String) : Request :=
  match args with
  | [] => .help
  | "run" :: [] => .missingFile
  | "run" :: path :: options => .runFile path (options.contains "--debug")
  | "repl" :: _ => .shell
  | "help" :: _ | "--help" :: _ | "-h" :: _ => .help
  | "version" :: _ | "--version" :: _ | "-v" :: _ => .version
  | word :: options =>
    if word.endsWith ".vibe" then .runFile word (options.contains "--debug") else .unknown word

/-- The text of a file, or why there is none. -/
def readText (content : Option ByteArray) : Except String String :=
  match content with
  | none => .error "No such file or directory (os error 2)"
  | some bytes =>
    match String.fromUTF8? bytes with
    | some text => .ok text
    | none => .error "stream did not contain valid UTF-8"

/-- Lists tokens under a heading. -/
def listTokens (tokens : List Token) (t : Transcript) : Transcript :=
  (t.line "TOKENS:").lines (tokens.map Token.listing) |>.line ""

/-- Lists the trees of a program under a heading, and begins the output of its run. -/
def listTrees (p : Program) (t : Transcript) : Transcript :=
  ((t.line "SYNTAX TREE:").lines (p.map Stmt.tree)).lines ["", "OUTPUT:"]

/-- Runs a program text; with `debug`, its tokens and trees are listed before. The tokens that are
listed are cut on their own, before the text is read as a program. -/
def runText (source : String) (debug : Bool) (input : List String) (dice : Dice) (clock : Clock) :
    Report :=
  let listed : Except Error Transcript :=
    if debug then (Token.scan source).map (listTokens · {}) else .ok {}
  match listed with
  | .error e => ⟨({} : Transcript).errors [e] source, 1⟩
  | .ok t =>
    match Program.parseAll source with
    | .error es => ⟨t.errors es source, 1⟩
    | .ok p =>
      let t := if debug then listTrees p t else t
      let outcome := Machine.run p (Machine.start { unhurried := clock } { answers := input } dice)
      let t := t.events outcome.machine.console
      match outcome with
      | .failed f _ => ⟨t.errors [f.toError] source, 1⟩
      | _ => ⟨t, 0⟩

/-- Whether the command line reads standard input: the shell does, and a program that asks. -/
def takesInput (args : List String) (content : Option ByteArray) : Bool :=
  match Request.ofArgs args with
  | .shell => true
  | .runFile _ _ =>
    match (readText content).toOption.bind fun source => (Token.scan source).toOption with
    | some tokens => tokens.any (·.kind = .keyword .ask)
    | none => false
  | _ => false

/-- Carries out the command line: `content` gives the content of a file, and `input` is the text on
standard input. -/
def run (args : List String) (content : String → Option ByteArray) (input : String)
    (dice : Dice) (clock : Clock := false) : Report :=
  let lines := (Text.pieces input.toList).map fun p => String.ofList (Text.withoutEndings p)
  let none : Transcript := {}
  match Request.ofArgs args with
  | .help => ⟨none.lines help, 0⟩
  | .version => ⟨none.line ("VibeScript " ++ version), 0⟩
  | .shell => ⟨Shell.session lines dice clock, 0⟩
  | .runFile path debug =>
    match readText (content path) with
    | .ok source => runText source debug lines dice clock
    | .error reason =>
      ⟨none.errorLine ("error: cannot read file '" ++ path ++ "': " ++ reason), 1⟩
  | .missingFile =>
    ⟨(none.errorLine "error: missing file argument").errorLine
      "Usage: vibe run <file.vibe> [--debug]", 1⟩
  | .unknown word =>
    ⟨(none.errorLine ("error: unknown command '" ++ word ++ "'")).lines help, 1⟩

end Command
end Vibe
