import Calculator.Lexeme

/-!
# Scanning on Demand

A `Scanner` hands out the tokens of a text one at a time and keeps the diagnostics met so far.
There are two ways to ask for a token:

* `Scanner.read` always answers, and behind the last token it answers the mark for the end over
  and over;
* `Scanner.next?` answers that mark once and then nothing more. Only a mark handed out by
  `next?` itself ends the sequence; one handed out by `read` does not.

`Scanner.take` and `Scanner.drain` repeat `next?` a number of times or until it has nothing more
to give. A scanner is a value: a copy goes on by itself.
-/

namespace Calculator

/-- A text that is being cut into tokens. -/
structure Scanner where
  /-- The characters that are still to be read. -/
  rest : List Char
  /-- The byte offset of the first of them. -/
  position : Nat
  /-- What was wrong with the tokens read so far. -/
  diagnostics : List Diagnostic
  /-- Whether `next?` has handed out the mark for the end. -/
  finished : Bool
deriving DecidableEq

namespace Scanner

/-- The scanner at the start of a text. -/
def ofString (text : String) : Scanner where
  rest := text.toList
  position := 0
  diagnostics := []
  finished := false

/-- The first token of the rest and the scanner behind it. At the end of the text that is the
mark for the end, and the scanner stays as it is. -/
def read (s : Scanner) : Token × Scanner :=
  match s.rest with
  | [] => (Token.endOfFile s.position, s)
  | c :: cs =>
    let token := Token.ofLexeme s.position (c :: cs.takeWhile (joins c))
    (token,
      { s with
        rest := cs.dropWhile (joins c)
        position := token.stop
        diagnostics := s.diagnostics ++ token.defect?.toList })

/-- The next token, or nothing once the mark for the end was handed out. -/
def next? (s : Scanner) : Option Token × Scanner :=
  if s.finished then (none, s)
  else
    let (token, t) := s.read
    (some token, { t with finished := token.kind = .endOfFile })

/-- At most a number of tokens, fewer if the sequence ends before. -/
def take : Nat → Scanner → List Token × Scanner
  | 0, s => ([], s)
  | k + 1, s =>
    match s.next? with
    | (none, t) => ([], t)
    | (some token, t) =>
      let (tokens, u) := take k t
      (token :: tokens, u)

/-- An upper bound for the number of tokens that are left: a token has at least one character,
and the mark for the end comes once. -/
def fuel (s : Scanner) : Nat :=
  s.rest.length + 1

/-- All the tokens that are left. -/
def drain (s : Scanner) : List Token × Scanner :=
  s.take s.fuel

end Scanner

end Calculator
