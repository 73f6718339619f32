import Calculator.Node
import Calculator.Reading

/-!
# Sessions

The calculator as a conversation: it prompts, reads a line, answers, and prompts again. Results
go to the standard output and everything that is wrong to the standard error.

A session ends at the first line that holds nothing but blanks, at the end of the input, or at
a line that is not well-formed UTF-8; only the last is a failure. Two options make the answer
longer: one shows the outline of the expression, the other the tokens of the line.

The input is a stream of bytes. A line reaches up to and including the next line feed; the last one
may lack it, and there is no empty line behind a final line feed. No byte is lost: the lines of a
stream, put together, are the stream. What is calculated is the line without its line break.

* `Text.lines`, `Text.decode?`, `Text.chomp` — the lines of the input and their texts;
* `Options.ofArguments` — what the arguments of the command ask for, or why they are refused;
* `Reading.report` — what is said about a line that was read;
* `Options.answer` — the whole answer to a line;
* `Options.respond` — what one line does to a session;
* `Session.converse`, `Session.run` — a whole session, as a function of the arguments and of
  the bytes of the input.
-/

namespace Calculator

/-! ### The lines of the input -/

namespace Text

/-- The byte that ends a line. -/
def lineFeed : UInt8 := 10

/-- The lines of a stream of bytes, each with its line feed. -/
def lines (bytes : List UInt8) : List (List UInt8) :=
  bytes.splitBy fun b _ => b != lineFeed

/-- The text that a line of bytes encodes, if it is well-formed UTF-8. -/
def decode? (line : List UInt8) : Option String :=
  String.fromUTF8? line.toByteArray

/-- Whether a character belongs to a line break. -/
def isLineBreak (c : Char) : Bool :=
  c == '\r' || c == '\n'

/-- A text without the carriage returns and line feeds at its end. -/
def chomp (text : String) : String :=
  String.ofList (text.toList.reverse.dropWhile isLineBreak).reverse

/-- A text is **blank** when each of its characters is; the empty text is blank. -/
def isBlankText (s : String) : Bool :=
  s.toList.all isBlank

end Text

/-! ### Output -/

/-- What is written to the two output streams. -/
structure Output where
  /-- What is written to the standard output. -/
  stdout : String
  /-- What is written to the standard error. -/
  stderr : String
deriving DecidableEq

namespace Output

/-- Nothing is written. -/
def empty : Output := ⟨"", ""⟩

/-- A text on the standard output. -/
def out (text : String) : Output := ⟨text, ""⟩

/-- A text on the standard error. -/
def err (text : String) : Output := ⟨"", text⟩

/-- One output behind another, on each stream. -/
def append (first second : Output) : Output :=
  ⟨first.stdout ++ second.stdout, first.stderr ++ second.stderr⟩

instance : Append Output := ⟨append⟩

/-- On the standard output one stands behind the other. -/
@[simp] theorem stdout_append (a b : Output) : (a ++ b).stdout = a.stdout ++ b.stdout := rfl

/-- On the standard error one stands behind the other. -/
@[simp] theorem stderr_append (a b : Output) : (a ++ b).stderr = a.stderr ++ b.stderr := rfl

end Output

/-! ### The arguments of the command -/

/-- What an answer shows beside the result. -/
structure Options where
  /-- Whether to show the outline of the expression. -/
  showOutline : Bool
  /-- Whether to show the tokens of the line. -/
  showTokens : Bool
deriving DecidableEq

/-- Why the arguments of the command lead to no session. -/
inductive Refusal
  /-- They ask for help. -/
  | help
  /-- One of them is unknown. -/
  | unknownOption (argument : String)
deriving DecidableEq

/-- How the command is used. -/
def usage : String :=
  "Usage: languid [--tree] [--tokens]\n" ++
  "\n" ++
  "Reads arithmetic expressions from stdin, one per line.\n" ++
  "An empty line ends the session.\n" ++
  "\n" ++
  "Options:\n" ++
  "  --tree    Print the syntax tree of each line\n" ++
  "  --tokens  Print the scanned tokens of each line\n"

/-- What is said when the arguments are refused. -/
def Refusal.message : Refusal → String
  | help => usage
  | unknownOption argument => "Unknown option: " ++ argument ++ "\n" ++ usage

namespace Options

/-- No option is set. -/
def none : Options := ⟨false, false⟩

/-- The options with those of one argument added. -/
def add (o : Options) (argument : String) : Except Refusal Options :=
  if argument = "--tree" then .ok { o with showOutline := true }
  else if argument = "--tokens" then .ok { o with showTokens := true }
  else if argument = "-h" ∨ argument = "--help" then .error .help
  else .error (.unknownOption argument)

/-- The options that a list of arguments asks for. The first argument that is refused decides
what is said. -/
def ofArguments (arguments : List String) : Except Refusal Options :=
  arguments.foldlM add none

end Options

/-! ### The answer to a line -/

/-- What is said about a line that was read: what is wrong with it, one defect a line, or else
its value or the fault that keeps it from having one. -/
def Reading.report (r : Reading) : Output :=
  if r.isValid then
    match r.root.evaluate with
    | .ok v => .out (Text.Numeral.ofInt32 v ++ "\n")
    | .error fault => .err (fault.message ++ "\n")
  else
    .err (String.join (r.diagnostics.map fun d => d.message ++ "\n"))

/-- A token as it is shown: its kind, and its text between quotes. -/
def Token.listing (t : Token) : String :=
  t.kind.name ++ ": '" ++ t.text ++ "'\n"

namespace Options

/-- The outline of a reading, if it is to be shown. -/
def outline (o : Options) (r : Reading) : Output :=
  if o.showOutline then .out (Node.expression r.root).outlineText else .empty

/-- The tokens of a text, if they are to be shown. -/
def tokens (o : Options) (text : String) : Output :=
  if o.showTokens then .out (String.join ((Token.scan text).map Token.listing)) else .empty

/-- The **answer to a text**: outline, tokens and report. -/
def answer (o : Options) (text : String) : Output :=
  let reading := Reading.ofText text
  o.outline reading ++ o.tokens text ++ reading.report

end Options

/-! ### A whole session -/

/-- What one line does to a session. -/
inductive Response
  /-- The line is answered, and the session goes on. -/
  | continued (output : Output)
  /-- The session ends, with this output and this exit code. -/
  | ended (output : Output) (exitCode : Nat)
deriving DecidableEq

/-- What is said about a line that is not well-formed UTF-8. -/
def undecodable : String :=
  "Error: stream did not contain valid UTF-8\n"

/-- What **one line does to a session**. At the end of the input the line is empty. -/
def Options.respond (o : Options) (line : List UInt8) : Response :=
  match Text.decode? line with
  | Option.none => .ended (.err undecodable) 1
  | some text =>
    if Text.isBlankText text then .ended .empty 0
    else .continued (o.answer (Text.chomp text))

/-- What a run of the command does: its output and its exit code. -/
structure Session where
  /-- What is written. -/
  output : Output
  /-- How the run ends. -/
  exitCode : Nat
deriving DecidableEq

namespace Session

/-- What is written before a line is read. -/
def prompt : Output := .out "> "

/-- A **session on a list of lines**. -/
def converse (o : Options) : List (List UInt8) → Session
  | [] => ⟨prompt, 0⟩
  | line :: lines =>
    match o.respond line with
    | .ended output exitCode => ⟨prompt ++ output, exitCode⟩
    | .continued output =>
      let rest := converse o lines
      ⟨prompt ++ output ++ rest.output, rest.exitCode⟩

/-- A **run of the command** with the given arguments on the given input. -/
def run (arguments : List String) (input : List UInt8) : Session :=
  match Options.ofArguments arguments with
  | .error refusal => ⟨.err refusal.message, 2⟩
  | .ok o => converse o (Text.lines input)

end Session

end Calculator
