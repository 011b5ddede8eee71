import LineBasic.Span
import LineBasic.Operator
import LineBasic.Number.Form
import LineBasic.Number.Whole
import LineBasic.Number.Shortest
import LineBasic.Number.Text
import LineBasic.Number.Reader
import LineBasic.Text.Range
import LineBasic.Text.Blank
import LineBasic.Text.Width
import LineBasic.Text.Bytes
import LineBasic.Text.Quoted
import LineBasic.Value
import LineBasic.Symbols
import LineBasic.Token
import LineBasic.Token.Scan
import LineBasic.Expr
import LineBasic.Statement
import LineBasic.Program
import LineBasic.Diagnostic
import LineBasic.Diagnostic.Excerpt
import LineBasic.Reading.Cursor
import LineBasic.Reading.Expr
import LineBasic.Reading.Statement
import LineBasic.Reading.Program
import LineBasic.Check
import LineBasic.CallStack
import LineBasic.Machine.Fault
import LineBasic.Machine.Sink
import LineBasic.Machine.State
import LineBasic.Machine.Execute
import LineBasic.Machine.Run
import LineBasic.Code.Instruction
import LineBasic.Code.LineMap
import LineBasic.Code.CodeUnit
import LineBasic.Code.Lower
import LineBasic.Code.Listing
import LineBasic.Command
import LineBasic.Command.Arguments
import LineBasic.Main
import LineBasic.Proofs.Grammar
import LineBasic.Proofs.Reading.Expr
import LineBasic.Proofs.Reading.Statement
import LineBasic.Proofs.Number
import LineBasic.Proofs.Reading.Program
import LineBasic.Proofs.Machine.Execute
import LineBasic.Proofs.Machine.Run
import LineBasic.Proofs.Machine.Brackets
import LineBasic.Proofs.Reading.Source
import LineBasic.Proofs.Check
import LineBasic.Proofs.Code.FlatMachine
import LineBasic.Proofs.Code.Layout
import LineBasic.Proofs.Code.Operands
import LineBasic.Proofs.Code.Labels
import LineBasic.Proofs.Code.Simulation
import LineBasic.Proofs.Code.Program
import LineBasic.Proofs.Code.Correctness
import LineBasic.Proofs.Code.Agreement
import LineBasic.Proofs.Code.Scope
import LineBasic.Proofs.Code.Temporaries
import LineBasic.Proofs.Code.WellNamed
import LineBasic.Proofs.Scan.Lexeme
import LineBasic.Proofs.Scan.Places
import LineBasic.Proofs.Scan.Lines
import LineBasic.Proofs.Reading.Bare
import LineBasic.Proofs.Reading.Lines
import LineBasic.Proofs.Machine.Bare
import LineBasic.Proofs.Reading.LineOrder
import LineBasic.Proofs.Scan.LetterCase
import LineBasic.Proofs.Machine.Names
import LineBasic.Proofs.Machine.Outcome
import LineBasic.Proofs.Machine.Limit
import LineBasic.Proofs.Reading.Predictive
import LineBasic.Proofs.Reading.Faults
import LineBasic.Proofs.Targets
import LineBasic.Proofs.Code.ListedText
import LineBasic.Proofs.Code.Listing
import LineBasic.Proofs.Machine.Failing
import LineBasic.Proofs.Reading.Strings
import LineBasic.Proofs.Code.OperandKinds
import LineBasic.Proofs.Code.ListingLines
import LineBasic.Proofs.Code.Renumbering
import LineBasic.Proofs.Code.TwoUnits
import LineBasic.Proofs.Scan.Joined
import LineBasic.Proofs.Scan.Patterns
import LineBasic.Proofs.Scan.LongestMatch
import LineBasic.Proofs.Machine.Blame
import LineBasic.Proofs.Reading.Literals
import LineBasic.Proofs.Code.OperandTexts
import LineBasic.Proofs.Machine.Stages
import LineBasic.Proofs.Machine.Returns
import LineBasic.Proofs.Machine.Forward
import LineBasic.Proofs.Text.Lines
import LineBasic.Proofs.Machine.Journal
import LineBasic.Proofs.Machine.PrintedLines
import LineBasic.Proofs.CallStack
import LineBasic.Proofs.Comparison
import LineBasic.Proofs.Reading.Placement
import LineBasic.Proofs.Reading.Nesting
import LineBasic.Proofs.Reading.Underlines
