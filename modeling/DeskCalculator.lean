import DeskCalculator.Magnitude
import DeskCalculator.Decimal
import DeskCalculator.Decimal.Nearest
import DeskCalculator.Decimal.Shortest
import DeskCalculator.Readout
import DeskCalculator.Numeral
import DeskCalculator.Elementary
import DeskCalculator.Operator
import DeskCalculator.Literal
import DeskCalculator.Token
import DeskCalculator.Piece
import DeskCalculator.Failure
import DeskCalculator.Cursor
import DeskCalculator.Expression
import DeskCalculator.FunctionKey
import DeskCalculator.Calculation
import DeskCalculator.Key
import DeskCalculator.Session
import DeskCalculator.Text.Blank
import DeskCalculator.Text.Lines
import DeskCalculator.CommandLine.Request
import DeskCalculator.CommandLine.Reply
import DeskCalculator.Main
import DeskCalculator.Proofs.Grammar.Derivation
import DeskCalculator.Proofs.Grammar.Unambiguous
import DeskCalculator.Proofs.Descent.Run
import DeskCalculator.Proofs.Descent.Steps
import DeskCalculator.Proofs.Descent.Adequacy
import DeskCalculator.Proofs.Descent.Ahead
import DeskCalculator.Proofs.Grammar.Soundness
import DeskCalculator.Proofs.Grammar.Completeness
import DeskCalculator.Proofs.Grammar.Evaluation
import DeskCalculator.Proofs.Descent.NestingLimit
import DeskCalculator.Proofs.Descent.Relocation
import DeskCalculator.Proofs.Scan.Row
import DeskCalculator.Proofs.Grammar.Expectation
import DeskCalculator.Proofs.Descent.Greedy
import DeskCalculator.Proofs.Grammar.Obstacle
import DeskCalculator.Proofs.Grammar.Viable
import DeskCalculator.Proofs.Grammar.FirstError
import DeskCalculator.Proofs.Number.Bits
import DeskCalculator.Proofs.Number.Rounding
import DeskCalculator.Proofs.Number.Value
import DeskCalculator.Proofs.Number.Exact
import DeskCalculator.Proofs.Number.Nearest
import DeskCalculator.Proofs.Number.PlainText
import DeskCalculator.Proofs.Number.Whole
import DeskCalculator.Proofs.Scan.Longest
import DeskCalculator.Proofs.Scan.Spaced
import DeskCalculator.Proofs.Grammar.NumeralSource
import DeskCalculator.Proofs.Display.ReadBack
import DeskCalculator.Proofs.Grammar.Spacing
import DeskCalculator.Proofs.Grammar.Alphabet
import DeskCalculator.Proofs.Grammar.LiteralSource
import DeskCalculator.Proofs.Keypad.Recall
import DeskCalculator.Proofs.Display.Canonical
import DeskCalculator.Proofs.Keypad.Agreement
import DeskCalculator.Proofs.Text.Lines
import DeskCalculator.Proofs.CommandLine.Answers
import DeskCalculator.Proofs.Scan.Lexeme
import DeskCalculator.Proofs.Grammar.LiteralGrammar
import DeskCalculator.Proofs.Scan.Lossless
import DeskCalculator.Proofs.Grammar.Reprint
import DeskCalculator.Proofs.Descent.Operation
import DeskCalculator.Proofs.Descent.Extension
import DeskCalculator.Proofs.Grammar.Final
import DeskCalculator.Proofs.Grammar.Check
import DeskCalculator.Proofs.Grammar.Exchange
import DeskCalculator.Proofs.Descent.Behind
import DeskCalculator.Proofs.Grammar.Excess
import DeskCalculator.Proofs.Grammar.Located
import DeskCalculator.Proofs.Number.Classes
import DeskCalculator.Proofs.Number.Overflow
import DeskCalculator.Proofs.Keypad.Domain
import DeskCalculator.Proofs.Keypad.Formulas
import DeskCalculator.Proofs.Descent.Levels
import DeskCalculator.Proofs.Descent.Forward
import DeskCalculator.Proofs.Descent.Bounded
import DeskCalculator.Proofs.Keypad.Labels
import DeskCalculator.Proofs.Number.Absorption
import DeskCalculator.Proofs.Calculation.DivisionByZero
import DeskCalculator.Proofs.Grammar.LeftOver
