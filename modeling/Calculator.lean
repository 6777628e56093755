import Calculator.Arithmetic
import Calculator.CommandLine.Answer
import Calculator.CommandLine.Event
import Calculator.CommandLine.Folder
import Calculator.CommandLine.Options
import Calculator.CommandLine.Run
import Calculator.Error
import Calculator.Ewe.Assembly
import Calculator.Ewe.Compiler
import Calculator.Ewe.Failure
import Calculator.Ewe.Loader
import Calculator.Ewe.Machine
import Calculator.Ewe.Statement
import Calculator.Expr
import Calculator.Expr.Evaluation
import Calculator.Expr.Parser
import Calculator.Main
import Calculator.Source
import Calculator.Text.Cut
import Calculator.Text.Line
import Calculator.Text.Numeral
import Calculator.Text.Position
import Calculator.Text.WhiteSpace
import Calculator.Token
import Calculator.Token.Lexer
import Calculator.Proofs.Ewe.Effect
import Calculator.Proofs.Ewe.Execution
import Calculator.Proofs.Ewe.Simulation
import Calculator.Proofs.Numeral
import Calculator.Proofs.Ewe.Loading
import Calculator.Proofs.Ewe.CallingConvention
import Calculator.Proofs.Ewe.Capacity
import Calculator.Proofs.Parser.Grammar
import Calculator.Proofs.Parser.Stream
import Calculator.Proofs.Parser.Adequacy
import Calculator.Proofs.Parser.Acceptance
import Calculator.Proofs.Agreement
import Calculator.Proofs.Token.Layout
import Calculator.Proofs.Ewe.Instructions
import Calculator.Proofs.Ewe.FaultSite
import Calculator.Proofs.Parser.Viability
import Calculator.Proofs.Parser.Image
import Calculator.Proofs.Parser.Origin
import Calculator.Proofs.CommandLine.Conversation
import Calculator.Proofs.CommandLine.Modes
import Calculator.Proofs.Parser.Descent
import Calculator.Proofs.Parser.Reuse
import Calculator.Proofs.Parser.Threshold
import Calculator.Proofs.Report
import Calculator.Proofs.Exact
import Calculator.Proofs.Division
import Calculator.Proofs.Interference
import Calculator.Proofs.Token.PushBack
import Calculator.Proofs.Parser.Positions
import Calculator.Proofs.Ewe.FixedMemory
import Calculator.Proofs.Ewe.Wording
import Calculator.Proofs.Ewe.Precedence
import Calculator.Proofs.Ewe.Relayout
import Calculator.Proofs.CommandLine.Inspection
import Calculator.Proofs.Unambiguity
import Calculator.Proofs.Parser.Progress
