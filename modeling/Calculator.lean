import Calculator.Text.Numeral
import Calculator.Operator
import Calculator.Token
import Calculator.Lexeme
import Calculator.Scanner
import Calculator.TokenStream
import Calculator.Expression
import Calculator.Expression.Evaluate
import Calculator.Expression.Render
import Calculator.Node
import Calculator.Grammar
import Calculator.Parser
import Calculator.Parser.Run
import Calculator.Reading
import Calculator.Parser.Cursor
import Calculator.Session
import Calculator.Main
import Calculator.Proofs.Steps
import Calculator.Proofs.Limit
import Calculator.Proofs.Shape
import Calculator.Proofs.Account
import Calculator.Proofs.Recovery
import Calculator.Proofs.Relocation
import Calculator.Proofs.Segmentation
import Calculator.Proofs.Seam
import Calculator.Proofs.Recognition
import Calculator.Proofs.Spelling
import Calculator.Proofs.Outline
import Calculator.Proofs.Layout
import Calculator.Proofs.RoundTrip
import Calculator.Proofs.Calculation
import Calculator.Proofs.FirstFault
import Calculator.Proofs.Exactness
import Calculator.Proofs.Formula
import Calculator.Proofs.Scanning
import Calculator.Proofs.Munch
import Calculator.Proofs.Order
import Calculator.Proofs.Calls
import Calculator.Proofs.Tree
import Calculator.Proofs.Diagnosis
import Calculator.Proofs.Abandonment
import Calculator.Proofs.Expectation
import Calculator.Proofs.Mismatch
import Calculator.Proofs.Filler
import Calculator.Proofs.Phrase
import Calculator.Proofs.Compound
import Calculator.Proofs.Interchange
import Calculator.Proofs.History
import Calculator.Proofs.Answer
import Calculator.Proofs.Conversation
import Calculator.Proofs.Truncation
import Calculator.Proofs.Composition
import Calculator.Proofs.Regrouping
import Calculator.Proofs.Parentheses
import Calculator.Proofs.Gathering
import Calculator.Proofs.Passage
import Calculator.Proofs.Agreement
import Calculator.Proofs.Discipline
