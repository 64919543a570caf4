import Vibe.Token.Scan
import Vibe.Syntax.Statement

/-! Programs from their tokens and from their texts. -/

namespace Vibe.Program

/-- The tokens before the one that marks the end, and the place of the end. Without such a token
the input ends at its last token. -/
def input (tokens : List Token) : List Token × Span :=
  let ahead := tokens.takeWhile (·.kind ≠ .finish)
  let finish := match tokens.dropWhile (·.kind ≠ .finish) with
    | t :: _ => t.span
    | [] => (tokens.getLast?.map Token.span).getD ⟨0, 0, 1, 1⟩
  (ahead, finish)

/-- Reads tokens as a program: the statements that could be read, and all errors in order. -/
def recover (tokens : List Token) : Program × List Error :=
  let (ahead, finish) := input tokens
  let one := Parser.declaration (2 * ahead.length + 2) Parser.maxNesting
  match Parser.statements one (fun _ => false) ahead [] [] ahead with
  | (stmts, _, errors) => (stmts, errors.map (·.error.orAt finish))

/-- Reads tokens as a program, or gives every error. -/
def ofTokens (tokens : List Token) : Except (List Error) Program :=
  match recover tokens with
  | (stmts, []) => .ok stmts
  | (_, errors) => .error errors

/-- Reads a text as a program, or gives every error. A text that cannot be cut into tokens has
one. -/
def parseAll (source : String) : Except (List Error) Program :=
  match Token.scan source with
  | .ok tokens => ofTokens tokens
  | .error e => .error [e]

/-- Reads a text as a program, or gives the first error. -/
def parse (source : String) : Except Error Program := do
  match recover (← Token.scan source) with
  | (stmts, []) => return stmts
  | (_, e :: _) => throw e

end Vibe.Program
