import Vibe.Token
import Vibe.Error

/-! Parsers on lists of tokens. The token that marks the end of the input is not in the list: the
list ends where the input ends. -/

namespace Vibe

/-- Reads from the front of a token list: gives a value or an error, and the tokens left. An error
without a place stands at the end of the input. -/
def Parser (α : Type) : Type :=
  List Token → Except Error α × List Token

namespace Parser

@[always_inline] instance : Monad Parser where
  pure a ts := (.ok a, ts)
  bind p f ts := match p ts with
    | (.ok a, rest) => f a rest
    | (.error e, rest) => (.error e, rest)

section Monad

variable {α β : Type} {p : Parser α} {f : α → Parser β} {g : α → β} {a a' : α} {b : β}
  {ts mid rest : List Token}

@[simp] theorem pure_eq_ok :
    (pure a : Parser α) ts = (.ok a', rest) ↔ a = a' ∧ ts = rest := by
  change (Except.ok a, ts) = (Except.ok a', rest) ↔ _
  simp

theorem bind_apply (p : Parser α) (f : α → Parser β) (ts : List Token) :
    (p >>= f) ts = match p ts with
      | (.ok a, mid) => f a mid
      | (.error e, mid) => (.error e, mid) :=
  rfl

theorem bind_of_ok (h : p ts = (.ok a, mid)) : (p >>= f) ts = f a mid := by
  rw [bind_apply, h]

/-- Parsers in a row give a result when each of them does. -/
theorem bind_eq_ok : (p >>= f) ts = (.ok b, rest) ↔
    ∃ a mid, p ts = (.ok a, mid) ∧ f a mid = (.ok b, rest) := by
  constructor
  · intro h
    rw [bind_apply] at h
    split at h
    · next a mid hp => exact ⟨a, mid, hp, h⟩
    · cases h
  · rintro ⟨a, mid, hp, hf⟩
    rw [bind_of_ok hp, hf]

theorem map_eq_ok : (g <$> p) ts = (.ok b, rest) ↔ ∃ a, p ts = (.ok a, rest) ∧ g a = b := by
  change (p >>= fun a => pure (g a)) ts = _ ↔ _
  rw [bind_eq_ok]
  constructor
  · rintro ⟨a, mid, hp, hg⟩
    obtain ⟨rfl, rfl⟩ := pure_eq_ok.1 hg
    exact ⟨a, hp, rfl⟩
  · rintro ⟨a, hp, rfl⟩
    exact ⟨a, rest, hp, rfl⟩

end Monad

/-- The place of the next token. -/
def place (ts : List Token) : Option Span :=
  ts.head?.map Token.span

/-- How messages show the next token. -/
def shown (ts : List Token) : String :=
  match ts with
  | t :: _ => t.kind.text
  | [] => Kind.finish.text

def fail {α : Type} (cause : SyntaxCause) (span : Option Span) : Parser α :=
  fun ts => (.error ⟨.parsing cause, span, none⟩, ts)

/-- Fails at the next token, which is not what should stand there. -/
def expected {α : Type} (what : String) : Parser α :=
  fun ts => fail (.expected what (shown ts)) (place ts) ts

/-- Whether the next token is of the given kind. -/
def nextIs (kind : Kind) (ts : List Token) : Bool :=
  match ts with
  | t :: _ => t.kind = kind
  | [] => false

/-- Takes the next token if it is of the given kind, and gives its place. -/
def accept (kind : Kind) : Parser (Option Span) := fun ts =>
  match ts with
  | t :: rest => if t.kind = kind then (.ok (some t.span), rest) else (.ok none, ts)
  | [] => (.ok none, ts)

/-- Takes a token of the given kind. -/
def expect (kind : Kind) (what : String) : Parser Unit := do
  match ← accept kind with
  | some _ => pure ()
  | none => expected what

/-- Takes a name and gives it with its place. -/
def expectName (what : String) : Parser (String × Span) := fun ts =>
  match ts with
  | ⟨.ident name, span, _⟩ :: rest => (.ok (name, span), rest)
  | _ => expected what ts

/-- The most parameters, arguments or elements that one list may have. -/
def maxItems : Nat := 255

/-- Items with commas between them, at most `limit` of them and at least one. -/
def separated {α : Type} (item : Parser α) (items : String) : Nat → Parser (List α)
  | 0 => fun ts => fail (.tooMany items) (place ts) ts
  | limit + 1 => do
    let a ← item
    match ← accept (.symbol .comma) with
    | some _ => return a :: (← separated item items limit)
    | none => return [a]

/-- Items with commas between them up to a closing sign, which is taken too. -/
def listUntil {α : Type} (close : Symbol) (item : Parser α) (items what : String) :
    Parser (List α) := fun ts =>
  let list : Parser (List α) :=
    if nextIs (.symbol close) ts then pure [] else separated item items maxItems
  (do let as ← list; expect (.symbol close) what; return as) ts

/-- How deep statements and expressions may nest. -/
def maxNesting : Nat := 512

/-- Fails because the next token would begin a level too many. -/
def tooDeep {α : Type} : Parser α :=
  fun ts => fail (.nestingTooDeep maxNesting) (place ts) ts

end Parser
end Vibe
