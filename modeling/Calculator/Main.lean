import Calculator.Session

/-!
# The Command

The calculator as a program: `Options.respond` in a loop over the lines of the standard input.
A run writes what `Session.run` says, each answer as soon as its line is complete.
-/

namespace Calculator.Main

/-- Writes an output to the two streams. -/
def write (output : Output) : IO Unit := do
  let stdout ← IO.getStdout
  let stderr ← IO.getStderr
  stdout.putStr output.stdout
  stdout.flush
  stderr.putStr output.stderr
  stderr.flush

/-- Reads the bytes of a line up to and including its line feed, or up to the end of the
input. -/
partial def readLine (input : IO.FS.Stream) (line : List UInt8) : IO (List UInt8) := do
  let bytes ← input.read 1
  match bytes.toList with
  | [] => return line.reverse
  | b :: _ => if b = Text.lineFeed then return (b :: line).reverse else readLine input (b :: line)

/-- Prompts, reads a line and answers it, until the session ends. -/
partial def converse (o : Options) : IO UInt32 := do
  write Session.prompt
  let line ← readLine (← IO.getStdin) []
  match o.respond line with
  | .ended output exitCode =>
    write output
    return exitCode.toUInt32
  | .continued output =>
    write output
    converse o

end Calculator.Main

/-- Runs the calculator with the arguments of the command line. -/
def main (arguments : List String) : IO UInt32 :=
  match Calculator.Options.ofArguments arguments with
  | .error refusal => do
    Calculator.Main.write (.err refusal.message)
    return 2
  | .ok o => Calculator.Main.converse o
