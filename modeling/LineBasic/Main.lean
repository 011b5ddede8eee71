import LineBasic.Command.Arguments

/-!
# The command line

Reads the file, performs the command and writes what it has to say. A run is made step by step, so
that its output appears and its input is read while it goes on: a step that lacks a line of input
is made again from its start once the line has come.
-/

namespace LineBasic

/-- How the program is called. -/
def usage : String := "usage: linebasic FILE [-v] tokens|check|run [--prompt TEXT]|tac"

/-- A line of the standard input with its line break, and nothing at its end. -/
partial def readLine (stdin : IO.FS.Stream) (line : List UInt8) : IO (List UInt8) := do
  let bytes ← stdin.read 1
  match bytes.toList with
  | [] => return line.reverse
  | b :: _ => if b == 10 then return (b :: line).reverse else readLine stdin (b :: line)

/-- Writes what a machine has written beyond the first `shown` bytes. -/
def showOutput (m : Machine) (shown : Nat) : IO Nat := do
  let stdout ← IO.getStdout
  stdout.write (m.output.written.extract shown m.output.written.size)
  stdout.flush
  return max shown m.output.written.size

/-- Goes on with a run, of which `shown` bytes of output have been written and whose input may
have ended. -/
partial def interact (p : Program) (m : Machine) (shown : Nat) (inputEnded : Bool) :
    IO (Except Failure Unit × Machine) := do
  match m.step p with
  | .next m' => interact p m' (← showOutput m' shown) inputEnded
  | .done m' =>
    let _ ← showOutput m' shown
    return (.ok (), m')
  | .failed f m' =>
    let shown ← showOutput m' shown
    if f.fault == .input .endOfInput && !inputEnded then
      let line ← readLine (← IO.getStdin) []
      interact p { m with input := .ofLines (m.input.lines ++ Text.splitLines line) } shown
        line.isEmpty
    else return (.error f, m')

/-- Runs a program on the standard streams. -/
def runHere (s : Source) (prompt : String) : IO UInt32 := do
  let stderr ← IO.getStderr
  match s.load with
  | .error e =>
    stderr.putStr e
    return 1
  | .ok (p, r) =>
    stderr.putStr (s.report r.diagnostics)
    let m := Machine.start prompt .empty .unlimited
    let (result, m) ←
      match p.first? with
      | none => pure (.error ⟨.nothingToRun, none, none⟩, m)
      | some first => interact p (m.reset p first) 0 false
    stderr.putStr (s.report (m.report result))
    return exitCode result

/-- The bytes of a file, if it can be read. -/
def fileBytes (file : String) : IO (Option (List UInt8)) := do
  try
    return some (← IO.FS.readBinFile file).toList
  catch _ => return none

/-- Performs what the command line asks for. -/
def invoke (i : Invocation) : IO UInt32 := do
  let content ← fileBytes i.file
  match i.command, FileFault.textOf content with
  | .run prompt, .ok text => runHere ⟨i.file, text⟩ prompt
  | command, _ =>
    match command.perform i.file content [] 0 with
    | none => return 1
    | some output =>
      IO.print output.stdout
      IO.eprint output.stderr
      return output.exit

end LineBasic

def main (args : List String) : IO UInt32 := do
  match LineBasic.Invocation.ofArgs? args with
  | some i => LineBasic.invoke i
  | none =>
    IO.eprintln LineBasic.usage
    return 2
