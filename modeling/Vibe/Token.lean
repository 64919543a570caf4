import Vibe.Span
import Vibe.Decimal.Layout

/-! The words and signs of the language, and tokens: words and signs at their places. -/

namespace Vibe

/-- The reserved words. -/
inductive Keyword where
  | hold | lock | say | ask | ifWord | elseWord | keep | each | fromWord | toWord | inWord
  | skill | give | stop | skip | bet | cap | null | and | or | not | tryWord | caught
  deriving DecidableEq

namespace Keyword

def text : Keyword → String
  | hold => "hold" | lock => "lock" | say => "say" | ask => "ask" | ifWord => "if"
  | elseWord => "else" | keep => "keep" | each => "each" | fromWord => "from" | toWord => "to"
  | inWord => "in" | skill => "skill" | give => "give" | stop => "stop" | skip => "skip"
  | bet => "bet" | cap => "cap" | null => "null" | and => "and" | or => "or" | not => "not"
  | tryWord => "try" | caught => "caught"

def all : List Keyword :=
  [hold, lock, say, ask, ifWord, elseWord, keep, each, fromWord, toWord, inWord, skill, give,
    stop, skip, bet, cap, null, and, or, not, tryWord, caught]

/-- The keyword that a word spells. Case matters. -/
def ofWord? (word : String) : Option Keyword :=
  all.find? fun k => k.text == word

/-- Whether the keyword can only stand at the start of a statement. -/
def startsStatement : Keyword → Bool
  | skill | hold | lock | ifWord | keep | each | say | give | stop | skip | tryWord => true
  | _ => false

end Keyword

/-- Operators and punctuation. -/
inductive Symbol where
  | plus | minus | star | slash | percent
  | equal | equalEqual | bangEqual | less | lessEqual | greater | greaterEqual
  | leftParen | rightParen | leftBrace | rightBrace | leftBracket | rightBracket
  | comma | semicolon
  deriving DecidableEq

def Symbol.text : Symbol → String
  | plus => "+" | minus => "-" | star => "*" | slash => "/" | percent => "%"
  | equal => "=" | equalEqual => "==" | bangEqual => "!=" | less => "<" | lessEqual => "<="
  | greater => ">" | greaterEqual => ">=" | leftParen => "(" | rightParen => ")"
  | leftBrace => "\x7b" | rightBrace => "\x7d" | leftBracket => "[" | rightBracket => "]"
  | comma => "," | semicolon => ";"

/-- A value written out in a program. -/
inductive Literal where
  | number (x : Float)
  | string (s : String)
  | bool (b : Bool)
  | null
  deriving DecidableEq

/-- What a token is, apart from its place and spelling. -/
inductive Kind where
  | number (x : Float)
  | string (s : String)
  | ident (name : String)
  | keyword (k : Keyword)
  | symbol (s : Symbol)
  | finish
  deriving DecidableEq

namespace Kind

/-- How messages show a token of this kind. -/
def text : Kind → String
  | number x => Layout.plain.write x
  | string s => "\"" ++ s ++ "\""
  | ident name => name
  | keyword k => k.text
  | symbol s => s.text
  | finish => "end of input"

/-- The value that a token of this kind stands for by itself. -/
def literal? : Kind → Option Literal
  | number x => some (.number x)
  | string s => some (.string s)
  | keyword .bet => some (.bool true)
  | keyword .cap => some (.bool false)
  | keyword .null => some .null
  | _ => none

/-- Whether a token of this kind can only stand at the start of a statement. -/
def startsStatement : Kind → Bool
  | keyword k => k.startsStatement
  | _ => false

end Kind

structure Token where
  kind : Kind
  span : Span
  lexeme : String
  deriving DecidableEq

end Vibe
