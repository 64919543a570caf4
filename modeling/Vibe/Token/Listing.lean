import Vibe.Token
import Vibe.Text.Quoted

/-! Listings of tokens, one line for each. -/

namespace Vibe

def Keyword.label : Keyword → String
  | hold => "Hold" | lock => "Lock" | say => "Say" | ask => "Ask" | ifWord => "If"
  | elseWord => "Else" | keep => "Keep" | each => "Each" | fromWord => "From" | toWord => "To"
  | inWord => "In" | skill => "Skill" | give => "Give" | stop => "Stop" | skip => "Skip"
  | bet => "True" | cap => "False" | null => "Null" | and => "And" | or => "Or" | not => "Not"
  | tryWord => "Try" | caught => "Caught"

def Symbol.label : Symbol → String
  | plus => "Plus" | minus => "Minus" | star => "Star" | slash => "Slash" | percent => "Percent"
  | equal => "Equal" | equalEqual => "EqualEqual" | bangEqual => "BangEqual" | less => "Less"
  | lessEqual => "LessEqual" | greater => "Greater" | greaterEqual => "GreaterEqual"
  | leftParen => "LeftParen" | rightParen => "RightParen" | leftBrace => "LeftBrace"
  | rightBrace => "RightBrace" | leftBracket => "LeftBracket" | rightBracket => "RightBracket"
  | comma => "Comma" | semicolon => "Semicolon"

namespace Kind

/-- The name of the kind. -/
def label : Kind → String
  | number _ => "Number"
  | string _ => "String"
  | ident _ => "Ident"
  | keyword k => k.label
  | symbol s => s.label
  | finish => "Eof"

/-- The name of the kind and what it carries. -/
def listing : Kind → String
  | number x => "Number(" ++ Layout.listed.write x ++ ")"
  | string s => "String(" ++ Text.quote s ++ ")"
  | ident name => "Ident(" ++ Text.quote name ++ ")"
  | k => k.label

end Kind

/-- The text with spaces after it up to the given width. -/
def Text.padRight (width : Nat) (s : String) : String :=
  s ++ String.ofList (List.replicate (width - s.length) ' ')

/-- The text with spaces before it up to the given width. -/
def Text.padLeft (width : Nat) (s : String) : String :=
  String.ofList (List.replicate (width - s.length) ' ') ++ s

/-- The place, kind and spelling of a token, in columns. -/
def Token.listing (t : Token) : String :=
  Text.padLeft 4 (toString t.span.line) ++ ":" ++ Text.padRight 4 (toString t.span.column) ++ " " ++
    Text.padRight 20 t.kind.listing ++ " " ++ t.lexeme

end Vibe
