/-! The console that a program talks to: answers given in advance, and a record of what was printed
and asked. -/

namespace Vibe

/-- What a program does to its console. -/
inductive ConsoleEvent where
  | printed (line : String)
  | asked (prompt : String)
  deriving DecidableEq

/-- The answers not yet given, and everything that happened so far, in order. -/
structure Console where
  answers : List String := []
  events : Array ConsoleEvent := #[]

namespace Console

def print (line : String) (c : Console) : Console :=
  { c with events := c.events.push (.printed line) }

/-- Puts a prompt and takes the next answer, if there is one. -/
def ask (prompt : String) (c : Console) : Option String × Console :=
  (c.answers.head?, ⟨c.answers.tail, c.events.push (.asked prompt)⟩)

/-- The lines printed so far. -/
def printed (c : Console) : List String :=
  c.events.toList.filterMap fun
    | .printed line => some line
    | .asked _ => none

/-- The prompts put so far. -/
def prompts (c : Console) : List String :=
  c.events.toList.filterMap fun
    | .printed _ => none
    | .asked prompt => some prompt

variable {c : Console} {line prompt : String}

@[simp] theorem printed_print : (c.print line).printed = c.printed ++ [line] := by
  simp [printed, print]

@[simp] theorem prompts_print : (c.print line).prompts = c.prompts := by
  simp [prompts, print]

@[simp] theorem printed_ask : (c.ask prompt).2.printed = c.printed := by
  simp [printed, ask]

@[simp] theorem prompts_ask : (c.ask prompt).2.prompts = c.prompts ++ [prompt] := by
  simp [prompts, ask]

@[simp] theorem answers_print : (c.print line).answers = c.answers :=
  rfl

@[simp] theorem answers_ask : (c.ask prompt).2.answers = c.answers.tail :=
  rfl

@[simp] theorem answer_ask : (c.ask prompt).1 = c.answers.head? :=
  rfl

end Console
end Vibe
