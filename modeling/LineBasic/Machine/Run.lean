import LineBasic.Machine.Execute

/-!
# Running a program

A run executes one line after another, starting at the first, until a statement ends it, no line
is left, or a fault occurs.

* `Machine.step`: one line;
* `Machine.run`: a run of bounded length, which keeps its state when the bound is reached.
-/

namespace LineBasic

/-- The number of a line, if a run-time line can be one. -/
def lineIndex? (line : Int) : Option Nat :=
  if 0 ≤ line ∧ line ≤ maxLineNumber then some line.toNat else none

/-- The line of a program that a run-time line names. -/
def Program.lineAt? (p : Program) (line : Int) : Option Line := (lineIndex? line).bind p.get?

/-- What one step of a run leads to. -/
inductive Transition where
  /-- The run goes on. -/
  | next (machine : Machine)
  /-- The run is over. -/
  | done (machine : Machine)
  /-- The run fails. -/
  | failed (failure : Failure) (machine : Machine)

/-- How a run ends, if it ends within its bound. -/
inductive RunResult where
  | ended (result : Except Failure Unit) (machine : Machine)
  | unfinished (machine : Machine)

namespace Machine

/-- Moves to the first line after line `n`. The run is over if there is none. -/
def advance (p : Program) (n : Nat) (m : Machine) : Transition :=
  match p.next? n with
  | some k => .next { m with stack := m.stack.goto k }
  | none => .done m.exit

/-- Where a run goes after line `n` was executed. A subroutine returns to the line after its
call. -/
def follow (p : Program) (n : Nat) (flow : Flow) (m : Machine) : Transition :=
  if m.state = .exited then .done m
  else
    match flow with
    | .jump => .next m
    | .call => .next m
    | .next => m.advance p n
    | .ret =>
      match lineIndex? m.stack.line with
      | some caller => m.advance p caller
      | none => .done m

/-- Executes the line that the current frame is at. -/
def step (p : Program) (m : Machine) : Transition :=
  match p.lineAt? m.stack.line with
  | none => .failed ⟨.noStatement m.stack.line, some m.stack.line, none⟩ m
  | some line =>
    match line.statement.execute m with
    | .error fault m' => .failed ⟨fault, some m.stack.line, some line.statement.span⟩ m'
    | .ok flow m' => m'.follow p line.number flow

/-- Ends a run that is over: the output must still be flushed. -/
def finish (m : Machine) : RunResult :=
  let (output, cause?) := m.output.flush
  match cause? with
  | none => .ended (.ok ()) { m with output := output }
  | some cause => .ended (.error ⟨.output cause, none, none⟩) { m with output := output }

/-- Goes on with a run for at most `fuel` steps. -/
def resume (p : Program) (fuel : Nat) (m : Machine) : RunResult :=
  match fuel with
  | 0 => .unfinished m
  | fuel + 1 =>
    match m.step p with
    | .next m' => m'.resume p fuel
    | .done m' => m'.finish
    | .failed f m' => .ended (.error f) m'

/-- Runs a program from its first line for at most `fuel` steps. -/
def run (p : Program) (fuel : Nat) (m : Machine) : RunResult :=
  match p.first? with
  | none => .ended (.error ⟨.nothingToRun, none, none⟩) m
  | some first => (m.reset p first).resume p fuel

end Machine

end LineBasic
