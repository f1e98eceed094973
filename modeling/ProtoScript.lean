import ProtoScript.CommandLine.Arguments
import ProtoScript.CommandLine.Basic
import ProtoScript.Decimal.Arithmetic
import ProtoScript.Decimal.Basic
import ProtoScript.Decimal.Text
import ProtoScript.Directory
import ProtoScript.Eval.Basic
import ProtoScript.Eval.Evaluator
import ProtoScript.Eval.Native
import ProtoScript.Eval.Operators
import ProtoScript.Fault
import ProtoScript.Heap
import ProtoScript.Literal.Basic
import ProtoScript.Literal.Escape
import ProtoScript.Literal.Number
import ProtoScript.Main
import ProtoScript.Numeral
import ProtoScript.Proofs.Decimal.Division
import ProtoScript.Proofs.Decimal.Exact
import ProtoScript.Proofs.Decimal.Rational
import ProtoScript.Proofs.Decimal.Rounding
import ProtoScript.Proofs.Eval.Comparison
import ProtoScript.Proofs.Eval.Confinement
import ProtoScript.Proofs.Eval.Congruence
import ProtoScript.Proofs.Eval.Discipline
import ProtoScript.Proofs.Eval.Draws
import ProtoScript.Proofs.Eval.Groups
import ProtoScript.Proofs.Eval.Locality
import ProtoScript.Proofs.Eval.Mirror
import ProtoScript.Proofs.Eval.Moves
import ProtoScript.Proofs.Eval.Noninterference
import ProtoScript.Proofs.Eval.Ordering
import ProtoScript.Proofs.Eval.Outcome
import ProtoScript.Proofs.Eval.Provenance
import ProtoScript.Proofs.Eval.Recast
import ProtoScript.Proofs.Eval.Runs
import ProtoScript.Proofs.Eval.Signal
import ProtoScript.Proofs.Eval.Soundness
import ProtoScript.Proofs.Eval.Stock
import ProtoScript.Proofs.Eval.Tracing
import ProtoScript.Proofs.Eval.Trail
import ProtoScript.Proofs.Eval.Traversal
import ProtoScript.Proofs.Eval.Upkeep
import ProtoScript.Proofs.Heap.Prototype
import ProtoScript.Proofs.Heap.Reach
import ProtoScript.Proofs.Heap.Scoping
import ProtoScript.Proofs.Heap.Shadowing
import ProtoScript.Proofs.Literal.Denotation
import ProtoScript.Proofs.Literal.ReadBack
import ProtoScript.Proofs.Literal.Segments
import ProtoScript.Proofs.Literal.Spelling
import ProtoScript.Proofs.Literal.Written
import ProtoScript.Proofs.Numeral
import ProtoScript.Proofs.Report.Writing
import ProtoScript.Proofs.Session.Blocks
import ProtoScript.Proofs.Session.Concatenation
import ProtoScript.Proofs.Session.Continuation
import ProtoScript.Proofs.Session.Diagnosis
import ProtoScript.Proofs.Session.Failures
import ProtoScript.Proofs.Session.Letters
import ProtoScript.Proofs.Session.Queue
import ProtoScript.Proofs.Session.Record
import ProtoScript.Proofs.Session.Root
import ProtoScript.Proofs.Session.Soundness
import ProtoScript.Proofs.Shell.Colour
import ProtoScript.Proofs.Shell.Entry
import ProtoScript.Proofs.Shell.Letters
import ProtoScript.Proofs.Shell.Survival
import ProtoScript.Proofs.Shell.Typing
import ProtoScript.Proofs.Text.Alphabet
import ProtoScript.Proofs.Text.Filling
import ProtoScript.Proofs.Text.Lines
import ProtoScript.Proofs.Text.Marks
import ProtoScript.Proofs.Text.Messages
import ProtoScript.Proofs.Text.Places
import ProtoScript.Proofs.Token.Boundaries
import ProtoScript.Proofs.Token.Exact
import ProtoScript.Proofs.Token.Grammar
import ProtoScript.Proofs.Token.Layout
import ProtoScript.Proofs.Token.Letters
import ProtoScript.Proofs.Token.Lines
import ProtoScript.Proofs.Token.Munch
import ProtoScript.Proofs.Token.Respacing
import ProtoScript.Proofs.Token.Shape
import ProtoScript.Proofs.Token.Shift
import ProtoScript.Proofs.Token.Spacing
import ProtoScript.Proofs.Tree.Blame
import ProtoScript.Proofs.Tree.Canonical
import ProtoScript.Proofs.Tree.Complete
import ProtoScript.Proofs.Tree.Decision
import ProtoScript.Proofs.Tree.Exact
import ProtoScript.Proofs.Tree.Exchange
import ProtoScript.Proofs.Tree.Extension
import ProtoScript.Proofs.Tree.Grammar
import ProtoScript.Proofs.Tree.Groups
import ProtoScript.Proofs.Tree.Guidance
import ProtoScript.Proofs.Tree.Letters
import ProtoScript.Proofs.Tree.Lookahead
import ProtoScript.Proofs.Tree.Parts
import ProtoScript.Proofs.Tree.Printer
import ProtoScript.Proofs.Tree.Progress
import ProtoScript.Proofs.Tree.Room
import ProtoScript.Proofs.Tree.RoundTrip
import ProtoScript.Proofs.Tree.Sound
import ProtoScript.Proofs.Tree.Stops
import ProtoScript.Proofs.Tree.Taken
import ProtoScript.Proofs.Tree.Traversal
import ProtoScript.Proofs.Value.Equality
import ProtoScript.Proofs.Value.Faults
import ProtoScript.Proofs.Value.Recursion
import ProtoScript.Proofs.Value.Termination
import ProtoScript.Report.Basic
import ProtoScript.Report.Reporter
import ProtoScript.Session.Basic
import ProtoScript.Session.Source
import ProtoScript.Shell.Basic
import ProtoScript.Table
import ProtoScript.Text.Blank
import ProtoScript.Text.Digit
import ProtoScript.Text.Lines
import ProtoScript.Text.Printable
import ProtoScript.Text.Quoted
import ProtoScript.Text.Style
import ProtoScript.Text.Template
import ProtoScript.Token.Basic
import ProtoScript.Token.Cursor
import ProtoScript.Token.Lexer
import ProtoScript.Tree.Basic
import ProtoScript.Tree.Expectation
import ProtoScript.Tree.Parser
import ProtoScript.Value.Basic
import ProtoScript.Value.Display
import ProtoScript.Value.Equality
import ProtoScript.Value.Inspect
