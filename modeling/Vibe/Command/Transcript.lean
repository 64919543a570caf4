import Vibe.Console
import Vibe.Error

/-! What a command writes on its two output streams. -/

namespace Vibe

/-- The text on the stream for results and the text on the stream for errors. -/
structure Transcript where
  out : String := ""
  err : String := ""

namespace Transcript

/-- Writes a line. -/
def line (text : String) (t : Transcript) : Transcript :=
  { t with out := t.out ++ text ++ "\n" }

/-- Writes a line on the stream for errors. -/
def errorLine (text : String) (t : Transcript) : Transcript :=
  { t with err := t.err ++ text ++ "\n" }

/-- Writes several lines. -/
def lines (texts : List String) (t : Transcript) : Transcript :=
  texts.foldl (fun t text => t.line text) t

/-- Writes errors, each with the line of the source that it points into. -/
def errors (es : List Error) (source : String) (t : Transcript) : Transcript :=
  es.foldl (fun t e => t.errorLine (e.withSource source).render) t

/-- Writes what happened on a console: every printed line, and every prompt without a line end. -/
def events (c : Console) (t : Transcript) : Transcript :=
  c.events.foldl (fun t event => match event with
    | .printed text => t.line text
    | .asked prompt => { t with out := t.out ++ prompt }) t

end Transcript
end Vibe
