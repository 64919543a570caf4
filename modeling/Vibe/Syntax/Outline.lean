import Vibe.Syntax
import Vibe.Decimal.Layout
import Vibe.Text.Quoted

/-! Outlines: trees as indented text, with every field of a node on lines of its own. -/

namespace Vibe

/-- A tree to be written out. -/
inductive Outline where
  /-- A text without parts. -/
  | leaf (text : String)
  /-- A name with named parts. -/
  | record (name : String) (fields : List (String × Outline))
  /-- A name with parts. -/
  | tuple (name : String) (parts : List Outline)
  /-- Parts without a name. -/
  | list (parts : List Outline)

namespace Outline

/-- The start of a line at the given level. -/
def indent (level : Nat) : String :=
  String.ofList (List.replicate (4 * level) ' ')

/-- Lines between an opening and a closing sign, at the given level; without lines the signs
stand side by side. -/
def enclosed (level : Nat) (opening closing lines : String) : String :=
  if lines.isEmpty then opening ++ closing
  else opening ++ "\n" ++ lines ++ indent level ++ closing

mutual

/-- Writes a tree whose first line has been indented to the given level. -/
def write (level : Nat) : Outline → String
  | leaf text => text
  | record name fields =>
    enclosed level (name ++ " \x7b") "\x7d" (writeFields (level + 1) fields)
  | tuple name parts => enclosed level (name ++ "(") ")" (writeParts (level + 1) parts)
  | list parts => enclosed level "[" "]" (writeParts (level + 1) parts)

/-- Writes parts on lines of their own. -/
def writeParts (level : Nat) : List Outline → String
  | [] => ""
  | t :: ts => indent level ++ write level t ++ ",\n" ++ writeParts level ts

/-- Writes named parts on lines of their own. -/
def writeFields (level : Nat) : List (String × Outline) → String
  | [] => ""
  | (name, t) :: ts =>
    indent level ++ name ++ ": " ++ write level t ++ ",\n" ++ writeFields level ts

end

/-- A part that may be missing. -/
def option : Option Outline → Outline
  | none => leaf "None"
  | some t => tuple "Some" [t]

def text (s : String) : Outline :=
  leaf (Text.quote s)

end Outline

def Span.outline (s : Span) : Outline :=
  .record "Span" [("start", .leaf (toString s.start)), ("end", .leaf (toString s.stop)),
    ("line", .leaf (toString s.line)), ("column", .leaf (toString s.column))]

def Literal.outline : Literal → Outline
  | number x => .tuple "Number" [.leaf (Layout.listed.write x)]
  | string s => .tuple "String" [.text s]
  | bool b => .tuple "Bool" [.leaf (if b then "true" else "false")]
  | null => .leaf "Null"

def BinaryOp.label : BinaryOp → String
  | add => "Add" | sub => "Sub" | mul => "Mul" | div => "Div" | mod => "Mod" | eq => "Eq"
  | ne => "Ne" | lt => "Lt" | le => "Le" | gt => "Gt" | ge => "Ge"

def LogicalOp.label : LogicalOp → String
  | and => "And" | or => "Or"

def UnaryOp.label : UnaryOp → String
  | neg => "Neg" | not => "Not"

mutual

def Expr.outline : Expr → Outline
  | literal value s => .record "Literal" [("value", value.outline), ("span", s.outline)]
  | ident name s => .record "Ident" [("name", .text name), ("span", s.outline)]
  | binary left op right s => .record "Binary" [("left", left.outline),
      ("op", .leaf op.label), ("right", right.outline), ("span", s.outline)]
  | logical left op right s => .record "Logical" [("left", left.outline),
      ("op", .leaf op.label), ("right", right.outline), ("span", s.outline)]
  | unary op operand s => .record "Unary" [("op", .leaf op.label),
      ("operand", operand.outline), ("span", s.outline)]
  | group inner s => .record "Grouping" [("expr", inner.outline), ("span", s.outline)]
  | call callee args s => .record "Call" [("callee", callee.outline),
      ("args", .list (Expr.outlines args)), ("span", s.outline)]
  | array elements s => .record "Array" [("elements", .list (Expr.outlines elements)),
      ("span", s.outline)]
  | index object position s => .record "Index" [("object", object.outline),
      ("index", position.outline), ("span", s.outline)]
  | assign name value s => .record "Assign" [("name", .text name), ("value", value.outline),
      ("span", s.outline)]
  | ask prompt s => .record "Ask" [("prompt", prompt.outline), ("span", s.outline)]

def Expr.outlines : List Expr → List Outline
  | [] => []
  | e :: es => e.outline :: Expr.outlines es

end

def Sweep.outline : Sweep → Outline
  | range first last => .record "Range" [("start", first.outline), ("end", last.outline)]
  | items collection => .tuple "Collection" [collection.outline]

def Binder.label : Binder → String
  | hold => "Hold" | lock => "Lock"

mutual

def Stmt.outline : Stmt → Outline
  | expr e => .record "Expr" [("expr", e.outline)]
  | say value s => .record "Say" [("value", value.outline), ("span", s.outline)]
  | bind binder name value s => .record binder.label [("name", .text name),
      ("value", value.outline), ("span", s.outline)]
  | block body s => .record "Block" [("stmts", .list (Stmt.outlines body)),
      ("span", s.outline)]
  | ifThen test yes s => .record "If" [("condition", test.outline),
      ("then_branch", yes.outline), ("else_branch", .option none), ("span", s.outline)]
  | ifElse test yes no s => .record "If" [("condition", test.outline),
      ("then_branch", yes.outline), ("else_branch", .option (some no.outline)),
      ("span", s.outline)]
  | keep test body s => .record "Keep" [("condition", test.outline), ("body", body.outline),
      ("span", s.outline)]
  | each var sweep body s => .record "Each" [("var", .text var), ("source", sweep.outline),
      ("body", body.outline), ("span", s.outline)]
  | skill name params body s => .tuple "Skill" [.record "SkillDecl" [("name", .text name),
      ("params", .list (params.map .text)), ("body", .list (Stmt.outlines body)),
      ("span", s.outline)]]
  | give none s => .record "Give" [("value", .option none), ("span", s.outline)]
  | give (some value) s => .record "Give" [("value", .option (some value.outline)),
      ("span", s.outline)]
  | stop s => .record "Stop" [("span", s.outline)]
  | skip s => .record "Skip" [("span", s.outline)]
  | attempt body errorName handler s => .record "Try" [("body", .list (Stmt.outlines body)),
      ("error_var", .option (errorName.map .text)), ("handler", .list (Stmt.outlines handler)),
      ("span", s.outline)]

def Stmt.outlines : List Stmt → List Outline
  | [] => []
  | s :: ss => s.outline :: Stmt.outlines ss

end

/-- The tree of a statement as text. -/
def Stmt.tree (s : Stmt) : String :=
  s.outline.write 0

end Vibe
