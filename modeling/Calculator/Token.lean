import Calculator.Operator

/-!
# Tokens

A line of text is cut into tokens. A token records its kind, the byte offset at which it
starts, its exact text, and for a numeral that fits in 32 bits its value.

A token with empty text stands for something that is not in the line: the end of the line, or
a token that was expected and not found (`Token.standIn`).

What can be wrong with a line is a matter of its tokens: of single ones, or of the order in which
they stand. A **diagnostic** is a cause and a byte offset. Diagnostics are collected and never stop
the reading of a line; a line is valid when it has none.

* `Token.Kind`, `Token` — kinds and tokens;
* `Token.Kind.name_injective` — a kind can be told from its name;
* `Diagnostic.Cause`, `Diagnostic` — what can be wrong, and where;
* `Diagnostic.Cause.message` — the wording, which is in this one place.
-/

namespace Calculator

/-- The kinds of tokens. -/
inductive Token.Kind
  /-- A character that no token starts with. -/
  | bad
  /-- A run of blanks. -/
  | blank
  /-- A run of decimal digits. -/
  | number
  /-- One of the four operators. -/
  | operator (o : Operator)
  /-- An opening parenthesis. -/
  | groupOpen
  /-- A closing parenthesis. -/
  | groupClose
  /-- The mark behind the last token of a line. -/
  | endOfFile
deriving DecidableEq

namespace Token.Kind

/-- The name of a kind, as messages and outlines print it. -/
def name : Token.Kind → String
  | bad => "BadToken"
  | blank => "WhiteSpaceToken"
  | number => "NumberToken"
  | operator .plus => "PlusToken"
  | operator .minus => "MinusToken"
  | operator .times => "StarToken"
  | operator .divide => "SlashToken"
  | groupOpen => "GroupOpenToken"
  | groupClose => "GroupCloseToken"
  | endOfFile => "EndOfFileToken"

/-- The text of the kinds that have only one. -/
def symbol? : Token.Kind → Option Char
  | operator o => some o.symbol
  | groupOpen => some '('
  | groupClose => some ')'
  | bad | blank | number | endOfFile => none

/-- The operator that a kind stands for, if it is one. -/
def operator? : Token.Kind → Option Operator
  | operator o => some o
  | _ => none

/-- How tightly a kind binds as an operator; zero for every kind that is none. -/
def precedence (k : Token.Kind) : Nat :=
  k.operator?.elim 0 Operator.precedence

/-- Whether a token of this kind is read as part of an expression. -/
def isSignificant : Token.Kind → Bool
  | bad | blank | endOfFile => false
  | number | operator _ | groupOpen | groupClose => true

/-- Different kinds have different names. -/
theorem name_injective {j k : Token.Kind} (h : j.name = k.name) : j = k := by
  have operators : ∀ o p : Operator, (operator o).name = (operator p).name → o = p := by
    intro o p h
    cases o <;> cases p <;> simp_all [name]
  cases j with
  | operator o =>
    cases k with
    | operator p => rw [operators o p h]
    | _ => cases o <;> simp [name] at h
  | _ =>
    cases k with
    | operator p => cases p <;> simp [name] at h
    | _ => simp_all [name]

end Token.Kind

/-- A piece of a line: what it is, where it starts, how it is written, and what it is worth. -/
structure Token where
  /-- What the token is. -/
  kind : Token.Kind
  /-- The byte offset at which the token starts. -/
  position : Nat
  /-- The token as it is written in the line. -/
  text : String
  /-- The value of a numeral that fits in 32 bits. -/
  value : Option Int32
deriving DecidableEq

namespace Token

/-- The stand-in for a token that was expected at a position and is not there. -/
def standIn (kind : Token.Kind) (position : Nat) : Token where
  kind := kind
  position := position
  text := ""
  value := none

/-- The mark behind a line that ends at a position. -/
def endOfFile (position : Nat) : Token :=
  standIn .endOfFile position

/-- The token of a kind as it is written without a line: at position zero, and with empty text
when the kind has no text of its own. -/
def ofKind (kind : Token.Kind) : Token where
  kind := kind
  position := 0
  text := kind.symbol?.elim "" String.singleton
  value := none

/-- Whether a token has no text. -/
def isEmpty (t : Token) : Bool :=
  t.text.isEmpty

/-- The byte offset just behind a token. -/
def stop (t : Token) : Nat :=
  t.position + t.text.utf8ByteSize

/-- A stand-in has no text. -/
@[simp] theorem isEmpty_standIn (kind : Token.Kind) (position : Nat) :
    (standIn kind position).isEmpty = true := rfl

/-- A stand-in stops where it starts. -/
@[simp] theorem stop_standIn (kind : Token.Kind) (position : Nat) :
    (standIn kind position).stop = position := by
  simp [stop, standIn]

end Token

/-! ### Diagnostics -/

/-- What can be wrong with a line. -/
inductive Diagnostic.Cause
  /-- A numeral whose value does not fit in 32 bits. -/
  | numberOutOfRange (text : String)
  /-- A character that no token starts with. -/
  | badCharacter (c : Char)
  /-- A token of another kind than the grammar asks for. -/
  | unexpectedToken (found expected : Token.Kind)
  /-- An expression of more levels than the limit allows. -/
  | tooDeep (limit : Nat)
deriving DecidableEq

/-- A defect of a line: the cause, and the byte offset at which it was met. -/
structure Diagnostic where
  /-- What is wrong. -/
  cause : Diagnostic.Cause
  /-- Where it is wrong. -/
  position : Nat
deriving DecidableEq

namespace Diagnostic

/-- The wording of a cause. -/
def Cause.message : Cause → String
  | numberOutOfRange text =>
    "The number " ++ text ++ " cannot be represented by a 32-bit integer."
  | badCharacter c => "ERROR: bad character input: " ++ String.singleton c
  | unexpectedToken found expected =>
    "ERROR: Unexpected token: <" ++ found.name ++ ">, expected: <" ++ expected.name ++ ">"
  | tooDeep limit => "ERROR: Expression nests deeper than " ++ limit.repr ++ " levels"

/-- The text that a user is shown; the position is not part of it. -/
def message (d : Diagnostic) : String :=
  d.cause.message

/-- The messages of a list of diagnostics, one a line, without a final line break. -/
def joinedMessages (ds : List Diagnostic) : String :=
  "\n".intercalate (ds.map message)

end Diagnostic

end Calculator
