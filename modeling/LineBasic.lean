import LineBasic.Fault
import LineBasic.Number.Magnitude
import LineBasic.Number.Arithmetic
import LineBasic.Number.Decimal
import LineBasic.Number.Shortest
import LineBasic.Number.Numeral
import LineBasic.Line
import LineBasic.Token
import LineBasic.Token.Scan
import LineBasic.Source
import LineBasic.Cursor
import LineBasic.Memory
import LineBasic.Stack
import LineBasic.Labels
import LineBasic.Expression
import LineBasic.Text.Space
import LineBasic.Statement
import LineBasic.Machine.State
import LineBasic.Machine.Step
import LineBasic.Machine.Run
import LineBasic.File
import LineBasic.File.Tree
import LineBasic.Main
import LineBasic.Proofs.Cursor.Advance
import LineBasic.Proofs.Cursor.Line
import LineBasic.Proofs.Program
import LineBasic.Proofs.Token.Extent
import LineBasic.Proofs.Expression.Rule
import LineBasic.Proofs.Expression.Evaluation
import LineBasic.Proofs.Expression.Exact
import LineBasic.Proofs.Expression.Grammar
import LineBasic.Proofs.Expression.Meaning
import LineBasic.Proofs.Machine.Frame
import LineBasic.Proofs.Reading
import LineBasic.Proofs.Machine.Slices
import LineBasic.Proofs.Machine.Restart
import LineBasic.Proofs.Line.Split
import LineBasic.Proofs.Line.Start
import LineBasic.Proofs.Line.Tokens
import LineBasic.Proofs.Cursor.Alike
import LineBasic.Proofs.Expression.Limit
import LineBasic.Proofs.Reading.Limit
import LineBasic.Proofs.Reading.Alike
import LineBasic.Proofs.Expression.Alike
import LineBasic.Proofs.Machine.Alike
import LineBasic.Proofs.Machine.Sense
import LineBasic.Proofs.Line.Spelling
import LineBasic.Proofs.Machine.Operation
import LineBasic.Proofs.Cursor.Boundary
import LineBasic.Proofs.Token.Head
import LineBasic.Proofs.Labels
import LineBasic.Proofs.Machine.Effect
import LineBasic.Proofs.Stack
import LineBasic.Proofs.Machine.Boundary
import LineBasic.Proofs.Machine.Nesting
import LineBasic.Proofs.Machine.Jump
import LineBasic.Proofs.Machine.Order
import LineBasic.Proofs.Machine.Straight
import LineBasic.Proofs.Machine.History
import LineBasic.Proofs.Machine.Fault
import LineBasic.Proofs.Machine.Answer
import LineBasic.Proofs.Cursor.Tokens
import LineBasic.Proofs.Machine.Control
import LineBasic.Proofs.Machine.Progress
import LineBasic.Proofs.Number.Unpacked
import LineBasic.Proofs.Machine.Branch
import LineBasic.Proofs.Machine.Writing
import LineBasic.Proofs.Reading.Printout
import LineBasic.Proofs.Machine.Print
import LineBasic.Proofs.Number.Whole
import LineBasic.Proofs.Number.Product
import LineBasic.Proofs.Number.Power
import LineBasic.Proofs.Machine.Count
import LineBasic.Proofs.Reading.Raise
import LineBasic.Proofs.Machine.Raise
import LineBasic.Proofs.Machine.Overflow
import LineBasic.Proofs.Token.Lexeme
import LineBasic.Proofs.Cursor.Lexeme
import LineBasic.Proofs.Cursor.Lines
import LineBasic.Proofs.Cursor.GiveBack
import LineBasic.Proofs.Cursor.Printed
import LineBasic.Proofs.Number.Nearest
import LineBasic.Proofs.Number.Readback
import LineBasic.Proofs.Expression.Literal
import LineBasic.Proofs.Machine.Readback
