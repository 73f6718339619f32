import Calculator.Parser
import Calculator.TokenStream
import Calculator.Expression.Evaluate

/-!
# Reading and Calculating a Line

A **reading** is what a line of text is taken for: the expression at the root, the mark at
which the expression ends, and everything that is wrong with the line — first the defects of
single tokens, then those of their order. A line is always read; it is valid when nothing is
wrong with it.

A line that is valid has a value, unless an operator in it has none. `calculate` gives the
value or the reason why there is none.
-/

namespace Calculator

/-- What a line is taken for. -/
structure Reading where
  /-- The expression. -/
  root : Expression
  /-- The mark behind the expression: the one behind the line, or a stand-in in front of the
  first token that is no part of the expression. -/
  endOfFile : Token
  /-- What is wrong with the line. -/
  diagnostics : List Diagnostic
deriving DecidableEq

/-- The number of levels that the expression of a line may have. -/
def depthLimit : Nat := 256

namespace Reading

/-- Whether nothing is wrong with the line. -/
def isValid (r : Reading) : Bool :=
  r.diagnostics.isEmpty

/-- The **reading of a sentence** under a depth limit, if there is one. -/
def ofSentence (limit : Option Nat) (s : Sentence) : Reading :=
  let parser : Parser := ⟨limit, s.endOfFile⟩
  let parsed := parser.chain .sum 0 (.tokens s.tokens)
  let stop := parser.expect .endOfFile parsed.rest
  { root := parsed.expression
    endOfFile := stop.token
    diagnostics := parsed.diagnostics ++ stop.diagnostics }

/-- The reading of a text under a depth limit, if there is one. -/
def ofTextWithin (limit : Option Nat) (text : String) : Reading :=
  let reading := ofSentence limit (Sentence.ofText text)
  { reading with diagnostics := Token.defects (Token.scan text) ++ reading.diagnostics }

/-- The **reading of a text** under the depth limit. -/
def ofText (text : String) : Reading :=
  ofTextWithin (some depthLimit) text

end Reading

/-- Why a line has no value. -/
inductive Failure
  /-- It is not valid, and what is wrong with it. -/
  | malformed (diagnostics : List Diagnostic)
  /-- Its expression has no value. -/
  | undefined (fault : Fault)
deriving DecidableEq

/-- The text that a user is shown. -/
def Failure.message : Failure → String
  | malformed diagnostics => Diagnostic.joinedMessages diagnostics
  | undefined fault => fault.message

/-- The value of a reading. The expression is evaluated only if the line is valid. -/
def Reading.value (r : Reading) : Except Failure Int32 :=
  if r.isValid then r.root.evaluate.mapError .undefined else .error (.malformed r.diagnostics)

/-- The **value of a line of text**, or the reason why it has none. -/
def calculate (text : String) : Except Failure Int32 :=
  (Reading.ofText text).value

end Calculator
