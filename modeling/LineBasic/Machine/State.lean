import LineBasic.CallStack
import LineBasic.Machine.Input
import LineBasic.Machine.Sink
import LineBasic.Program
import LineBasic.Symbols

/-!
# The state of a run

A `Machine` holds what a program can see and change: its variables, its call stack, the input not
yet read and the output written so far. An `Exec` is a computation on it that may end
in a fault; what it did before the fault stays done.
-/

namespace LineBasic

/-- Whether a run is going on. -/
inductive RunState where
  | running
  | exited
deriving DecidableEq

/-- The state of a run. -/
structure Machine where
  /-- What is written before each line of input is read. -/
  prompt : String
  input : Input
  output : Sink
  symbols : Symbols
  stack : CallStack
  state : RunState
  warnings : Array Warning

/-- A computation on a machine. -/
abbrev Exec := EStateM Fault Machine

namespace Machine

/-- The usual prompt. -/
def defaultPrompt : String := "? "

/-- A machine on which nothing has run. -/
def start (prompt : String) (input : Input) (output : Sink) : Machine where
  prompt := prompt
  input := input
  output := output
  symbols := .empty
  stack := .start 0
  state := .exited
  warnings := #[]

/-- The machine after it is told to end its run. -/
def exit (m : Machine) : Machine := { m with state := .exited }

/-- The machine ready to run a program from line `first`: all variables of the program are
declared and none is set. -/
def reset (m : Machine) (p : Program) (first : Nat) : Machine :=
  { m with
    symbols := .ofNames p.assigned
    stack := .start first
    state := .running
    warnings := #[] }

end Machine

namespace Exec

/-- The result of a pure computation. -/
def ofExcept {α : Type} (r : Except Fault α) : Exec α :=
  match r with
  | .ok a => pure a
  | .error e => throw e

/-- Sets a variable. -/
def assign (name : String) (value : Value) : Exec Unit :=
  modify fun m => { m with symbols := m.symbols.set name value }

/-- Records a remark on the statement with the given span. -/
def warn (remark : Remark) (span : Span) : Exec Unit :=
  modify fun m => { m with warnings := m.warnings.push ⟨remark, m.stack.line, span⟩ }

/-- Records a remark if there is one. -/
def warnIf (remark : Option Remark) (span : Span) : Exec Unit :=
  match remark with
  | some r => warn r span
  | none => return ()

/-- Uses the output. It is a fault if the output refuses to be used in this way. -/
def output (use : Sink → Sink × Option String) : Exec Unit := do
  let m ← get
  let (output, cause?) := use m.output
  set { m with output := output }
  match cause? with
  | none => return ()
  | some cause => throw (.output cause)

/-- Writes text. -/
def write (text : String) : Exec Unit := output fun s => s.write text.toUTF8

/-- Makes sure that all output has arrived. -/
def flush : Exec Unit := output Sink.flush

/-- Reads a line of input after the prompt. -/
def readValue : Exec Value := do
  write (← get).prompt
  flush
  let m ← get
  let (input, line) := m.input.read
  set { m with input := input }
  match line with
  | .ok text => return .ofInputLine text
  | .error cause => throw (.input cause)

/-- Moves the current frame to a line. -/
def goto (line : Int) : Exec Unit := modify fun m => { m with stack := m.stack.goto line }

/-- Enters a subroutine at a line. -/
def call (line : Int) : Exec Unit := modify fun m => { m with stack := m.stack.call line }

/-- Leaves the current subroutine. -/
def ret : Exec Unit := do
  let m ← get
  match m.stack.ret with
  | none => throw .returnOutsideSub
  | some stack => set { m with stack := stack }

end Exec

end LineBasic
