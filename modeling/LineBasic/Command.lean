import LineBasic.Check
import LineBasic.Code.Listing
import LineBasic.Code.Lower
import LineBasic.Diagnostic.Excerpt
import LineBasic.Machine.Run
import LineBasic.Reading.Program

/-!
# Commands

What the program does from the command line with a source file: list its tokens, check it, run it
or list its flat code. Every command ends with an exit code and has written to the standard output
and to the standard error.

* `Source.load`: the checks that come before every command but the first;
* `Command.perform`: a command on a file, with its whole input given.
-/

namespace LineBasic

/-- What to do with a source file. -/
inductive Command where
  | tokens
  | check
  | run (prompt : String)
  | tac
deriving DecidableEq

/-- What a command has written, and its exit code. -/
structure Output where
  exit : UInt32
  stdout : String
  stderr : String
deriving DecidableEq

namespace Output

/-- A success. -/
def success (stdout stderr : String) : Output := ⟨0, stdout, stderr⟩

/-- A failure. -/
def failure (stdout stderr : String) : Output := ⟨1, stdout, stderr⟩

end Output

/-- Why a file could not be read. -/
inductive FileFault where
  | missing
  | notText
deriving DecidableEq

/-- The wording of a file fault. -/
def FileFault.reason : FileFault → String
  | .missing => "No such file or directory (os error 2)"
  | .notText => "stream did not contain valid UTF-8"

/-- The message about a file that could not be read. -/
def FileFault.message (file : String) (f : FileFault) : String :=
  "Error: failed to read " ++ file ++ "\n\nCaused by:\n    " ++ f.reason ++ "\n"

/-- The text of a file, of which the bytes are given if it is there. -/
def FileFault.textOf (bytes : Option (List UInt8)) : Except FileFault String :=
  match bytes with
  | none => .error .missing
  | some bytes =>
    match Text.ofBytes? bytes with
    | none => .error .notText
    | some text => .ok text

/-- A source file: its name and its text. -/
structure Source where
  file : String
  text : String

namespace Source

/-- Diagnostics on a source, one after another. -/
def report (s : Source) (ds : List Diagnostic) : String :=
  String.join (ds.map fun d => d.render s.file s.text)

/-- The tokens of a source, or the message that it has none. -/
def tokens (s : Source) : Except String (List Token) :=
  (tokensOf s.text).mapError fun e => s.report [e.diagnostic]

/-- The program in a source with the report on it, or the message about its errors. -/
def load (s : Source) : Except String (Program × Report) :=
  match Program.ofText s.text with
  | .error e => .error (s.report [e.diagnostic])
  | .ok p => if p.check.hasErrors then .error (s.report p.check.diagnostics) else .ok (p, p.check)

end Source

/-- A token as it is listed, with its place. -/
def Token.listing (t : Token) : String :=
  toString t.line ++ ":" ++ toString t.column ++ "\t" ++ t.describe ++ "\n"

/-- The message that a program has no errors. -/
def Source.okText (s : Source) (p : Program) (r : Report) : String :=
  "OK: " ++ s.file ++ " (" ++ toString p.size ++ " lines, " ++ toString r.symbols.size ++
    " variables)\n"

/-- What is reported at the end of a run: its warnings, then its failure. -/
def Machine.report (m : Machine) (result : Except Failure Unit) : List Diagnostic :=
  m.warnings.toList.map Warning.diagnostic ++
    match result with
    | .ok () => []
    | .error f => [f.diagnostic]

/-- The exit code of a run. -/
def exitCode (result : Except Failure Unit) : UInt32 :=
  match result with
  | .ok () => 0
  | .error _ => 1

namespace Command

/-- Runs a program for at most `fuel` steps, after `warnings` were written. -/
def performRun (s : Source) (p : Program) (warnings prompt : String) (input : List UInt8)
    (fuel : Nat) : Option Output :=
  match (Machine.start prompt input .unlimited).run p fuel with
  | .unfinished _ => none
  | .ended result m =>
    some ⟨exitCode result, Text.decode m.output.written, warnings ++ s.report (m.report result)⟩

/-- Performs a command on a source with its whole input given. A run that takes more than `fuel`
steps has no output yet. -/
def performOn (command : Command) (s : Source) (input : List UInt8) (fuel : Nat) : Option Output :=
  match command with
  | .tokens =>
    match s.tokens with
    | .error e => some (.failure "" e)
    | .ok ts => some (.success (String.join (ts.map Token.listing)) "")
  | command =>
    match s.load with
    | .error e => some (.failure "" e)
    | .ok (p, r) =>
      let warnings := s.report r.diagnostics
      match command with
      | .run prompt => performRun s p warnings prompt input fuel
      | .tac =>
        match p.lower r.symbols with
        | .ok u => some (.success u.listing warnings)
        | .error e => some (.failure "" (warnings ++ s.report [e.diagnostic]))
      | _ => some (.success (s.okText p r) warnings)

/-- Performs a command on a file, of which the bytes are given if it is there. -/
def perform (command : Command) (file : String) (content : Option (List UInt8))
    (input : List UInt8) (fuel : Nat) : Option Output :=
  match FileFault.textOf content with
  | .error f => some (.failure "" (f.message file))
  | .ok text => command.performOn ⟨file, text⟩ input fuel

end Command

end LineBasic
