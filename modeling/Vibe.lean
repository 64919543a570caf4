import Vibe.Command
import Vibe.Command.Shell
import Vibe.Command.Transcript
import Vibe.Console
import Vibe.Decimal.Binary
import Vibe.Decimal.Layout
import Vibe.Decimal.Numeral
import Vibe.Decimal.Rounding
import Vibe.Decimal.Shortest
import Vibe.Dice
import Vibe.Error
import Vibe.Machine
import Vibe.Machine.Execution
import Vibe.Machine.Instruction
import Vibe.Main
import Vibe.Program
import Vibe.Proofs.Command.Debugging
import Vibe.Proofs.Command.Excerpts
import Vibe.Proofs.Command.Listing
import Vibe.Proofs.Command.Tracing
import Vibe.Proofs.Decimal.Conversion
import Vibe.Proofs.Decimal.Layout
import Vibe.Proofs.Decimal.Nearest
import Vibe.Proofs.Decimal.Packing
import Vibe.Proofs.Decimal.Reading
import Vibe.Proofs.Decimal.Shortest
import Vibe.Proofs.Decimal.Spelling
import Vibe.Proofs.Decimal.Whole
import Vibe.Proofs.Machine.Accord
import Vibe.Proofs.Machine.Correspondence
import Vibe.Proofs.Machine.Definitions
import Vibe.Proofs.Machine.Diagnostics
import Vibe.Proofs.Machine.Exhaustion
import Vibe.Proofs.Machine.Frame
import Vibe.Proofs.Machine.Indexing
import Vibe.Proofs.Machine.Instructions
import Vibe.Proofs.Machine.Invocations
import Vibe.Proofs.Machine.Lasting
import Vibe.Proofs.Machine.Lexical
import Vibe.Proofs.Machine.Literals
import Vibe.Proofs.Machine.Location
import Vibe.Proofs.Machine.Logs
import Vibe.Proofs.Machine.Moving
import Vibe.Proofs.Machine.Noting
import Vibe.Proofs.Machine.Obedience
import Vibe.Proofs.Machine.Operations
import Vibe.Proofs.Machine.Placement
import Vibe.Proofs.Machine.Remembering
import Vibe.Proofs.Machine.Restoration
import Vibe.Proofs.Machine.Rooting
import Vibe.Proofs.Machine.Rules
import Vibe.Proofs.Machine.Sessions
import Vibe.Proofs.Machine.Signals
import Vibe.Proofs.Machine.Steadiness
import Vibe.Proofs.Machine.Sweeps
import Vibe.Proofs.Machine.Termination
import Vibe.Proofs.Machine.Transparency
import Vibe.Proofs.Machine.Watching
import Vibe.Proofs.Store.Assignment
import Vibe.Proofs.Store.Chains
import Vibe.Proofs.Store.Copies
import Vibe.Proofs.Store.Definitions
import Vibe.Proofs.Store.Equality
import Vibe.Proofs.Store.Growth
import Vibe.Proofs.Store.Histories
import Vibe.Proofs.Store.Lawful
import Vibe.Proofs.Store.Ledger
import Vibe.Proofs.Store.Moving
import Vibe.Proofs.Store.Observation
import Vibe.Proofs.Store.Operands
import Vibe.Proofs.Store.Printing
import Vibe.Proofs.Store.Reach
import Vibe.Proofs.Store.Rooted
import Vibe.Proofs.Syntax.Braces
import Vibe.Proofs.Syntax.Completeness.Expressions
import Vibe.Proofs.Syntax.Completeness.Programs
import Vibe.Proofs.Syntax.Completeness.Statements
import Vibe.Proofs.Syntax.Composition.Expressions
import Vibe.Proofs.Syntax.Composition.Programs
import Vibe.Proofs.Syntax.Composition.Statements
import Vibe.Proofs.Syntax.Isolation.Expressions
import Vibe.Proofs.Syntax.Isolation.Programs
import Vibe.Proofs.Syntax.Isolation.Statements
import Vibe.Proofs.Syntax.Moving
import Vibe.Proofs.Syntax.Nesting.Paths
import Vibe.Proofs.Syntax.Nesting.Programs
import Vibe.Proofs.Syntax.Nesting.Readers
import Vibe.Proofs.Syntax.Operators
import Vibe.Proofs.Syntax.Places
import Vibe.Proofs.Syntax.Progress.Expressions
import Vibe.Proofs.Syntax.Progress.Programs
import Vibe.Proofs.Syntax.Progress.Statements
import Vibe.Proofs.Syntax.Reading
import Vibe.Proofs.Syntax.Recovery.Expressions
import Vibe.Proofs.Syntax.Recovery.Programs
import Vibe.Proofs.Syntax.Recovery.Statements
import Vibe.Proofs.Syntax.Shape
import Vibe.Proofs.Syntax.Soundness.Expressions
import Vibe.Proofs.Syntax.Soundness.Programs
import Vibe.Proofs.Syntax.Soundness.Statements
import Vibe.Proofs.Syntax.Spans
import Vibe.Proofs.Syntax.Writing
import Vibe.Proofs.Text.Carets
import Vibe.Proofs.Text.Lines
import Vibe.Proofs.Token.Cutting
import Vibe.Proofs.Token.Escapes
import Vibe.Proofs.Token.Gaps
import Vibe.Proofs.Token.Lexemes
import Vibe.Proofs.Token.Lossless
import Vibe.Proofs.Token.Positions
import Vibe.Proofs.Token.Spacing
import Vibe.Proofs.Token.Stacking
import Vibe.Session
import Vibe.Span
import Vibe.Store
import Vibe.Store.Builtins
import Vibe.Store.Equality
import Vibe.Store.Operators
import Vibe.Store.Printing
import Vibe.Store.Scopes
import Vibe.Syntax
import Vibe.Syntax.Expression
import Vibe.Syntax.Outline
import Vibe.Syntax.Parser
import Vibe.Syntax.Statement
import Vibe.Text.Blank
import Vibe.Text.Letter
import Vibe.Text.Lines
import Vibe.Text.Numeric
import Vibe.Text.Quoted
import Vibe.Text.Ranges
import Vibe.Text.Visible
import Vibe.Token
import Vibe.Token.Listing
import Vibe.Token.Scan
import Vibe.Value
