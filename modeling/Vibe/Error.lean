import Vibe.Span
import Vibe.Text.Lines

/-! Errors: why a program text was refused or a run failed, and where. -/

namespace Vibe

/-- Why a text cannot be cut into tokens. -/
inductive LexCause where
  | unexpectedCharacter (c : Char)
  | unterminatedString
  | invalidNumber (text : String)
  deriving DecidableEq

/-- Why tokens do not form a program. -/
inductive SyntaxCause where
  | expected (what found : String)
  | expectedExpression (found : String)
  | invalidAssignmentTarget
  | tooMany (items : String)
  | nestingTooDeep (limit : Nat)
  deriving DecidableEq

/-- Why a run fails. -/
inductive RuntimeCause where
  | undefinedVariable (name : String)
  | constantReassignment (name : String)
  | cannotAdd (left right : String)
  | operandNotNumber (operator : String)
  | divisionByZero
  | notCallable (type : String)
  | wrongArity (expected given : Nat)
  | cannotIterate (type : String)
  | cannotIndex (type : String)
  | indexNotNumber (type : String)
  | rangeBoundsNotNumbers
  | possibleInfiniteLoop
  | stackOverflow
  | stopOutsideLoop
  | skipOutsideLoop
  | giveOutsideSkill
  | builtin (message : String)
  deriving DecidableEq

/-- Why a program failed, in the stage that tells. -/
inductive Cause where
  | lexing (cause : LexCause)
  | parsing (cause : SyntaxCause)
  | running (cause : RuntimeCause)
  deriving DecidableEq

def LexCause.message : LexCause → String
  | unexpectedCharacter c => "unexpected character '" ++ String.singleton c ++ "'"
  | unterminatedString => "unterminated string"
  | invalidNumber text => "invalid number '" ++ text ++ "'"

def SyntaxCause.message : SyntaxCause → String
  | expected what found => what ++ ", got '" ++ found ++ "'"
  | expectedExpression found => "expected expression, got '" ++ found ++ "'"
  | invalidAssignmentTarget => "invalid assignment target"
  | tooMany items => "can't have more than 255 " ++ items
  | nestingTooDeep limit => "nesting too deep, more than " ++ toString limit ++ " levels"

def RuntimeCause.message : RuntimeCause → String
  | undefinedVariable name => "undefined variable '" ++ name ++ "'"
  | constantReassignment name => "cannot reassign constant '" ++ name ++ "', it's locked"
  | cannotAdd left right => "cannot add " ++ left ++ " and " ++ right
  | operandNotNumber operator => "operand must be a number for '" ++ operator ++ "'"
  | divisionByZero => "division by zero"
  | notCallable type => type ++ " is not callable, only skills can be called"
  | wrongArity expected given =>
    "wrong arity: expected " ++ toString expected ++
      (if expected = 1 then " argument" else " arguments") ++ " but got " ++ toString given
  | cannotIterate type => "cannot iterate over " ++ type
  | cannotIndex type => "cannot index " ++ type
  | indexNotNumber type => "index must be a number, got " ++ type
  | rangeBoundsNotNumbers => "range bounds must be numbers"
  | possibleInfiniteLoop => "possible infinite loop detected, too many operations"
  | stackOverflow => "stack overflow"
  | stopOutsideLoop => "'stop' outside of loop"
  | skipOutsideLoop => "'skip' outside of loop"
  | giveOutsideSkill => "'give' outside of skill"
  | builtin message => message

def Cause.message : Cause → String
  | lexing c => c.message
  | parsing c => c.message
  | running c => c.message

/-- The name of the stage. -/
def Cause.phase : Cause → String
  | lexing _ => "LexError"
  | parsing _ => "ParseError"
  | running _ => "RuntimeError"

/-- A cause with its place, if it has one, and the line of the program that it points into, if
that was looked up. -/
structure Error where
  cause : Cause
  span : Option Span := none
  sourceLine : Option String := none
  deriving DecidableEq

namespace Error

/-- Places the error, unless it has a place. -/
def orAt (e : Error) (s : Span) : Error :=
  { e with span := some (e.span.getD s) }

/-- Looks up the line that the error points into; a text without that line gives none. -/
def withSource (e : Error) (source : String) : Error :=
  match e.span with
  | none => e
  | some s => if s.line = 0 then e else { e with sourceLine := Text.line? source s.line }

/-- The line that the error points into, and under it a caret at its column. -/
def excerpt (line : String) (column : Nat) : String :=
  "\n  | " ++ line ++ "\n  | " ++ String.ofList (List.replicate (column - 1) ' ') ++ "^"

/-- The error as text: its place, stage and message, and the excerpt if its line is known. -/
def render (e : Error) : String :=
  let body := e.cause.phase ++ ": " ++ e.cause.message
  match e.span with
  | none => body
  | some s =>
    "[line " ++ toString s.line ++ ":" ++ toString s.column ++ "] " ++ body ++
      (match e.sourceLine with
        | none => ""
        | some line => excerpt line s.column)

end Error
end Vibe
