import LineBasic.Machine.Run
import LineBasic.Proofs.Machine.Execute
import LineBasic.Proofs.Reading.Bare

/-!
# Runs without spans

Spans have no part in a run but to be reported: they stand in warnings and in the failure that
ends it.

* `Machine.bare`, `RunResult.bare`: a machine and a result in which every span is the origin;
* `Statement.execute_bare`: a statement without spans does the same;
* `Machine.run_bare`: a run of a program without spans gives the same result, but for spans.
-/

namespace LineBasic

/-! ### Machines and results -/

/-- A warning without its span. -/
def Warning.bare (w : Warning) : Warning := { w with span := .origin }

/-- A failure without its span. -/
def Failure.bare (f : Failure) : Failure := { f with span := f.span.map fun _ => .origin }

/-- A machine whose warnings have no spans. -/
def Machine.bare (m : Machine) : Machine := { m with warnings := m.warnings.map Warning.bare }

/-- What a step leads to, without spans. -/
def Transition.bare : Transition → Transition
  | .next m => .next m.bare
  | .done m => .done m.bare
  | .failed f m => .failed f.bare m.bare

/-- How a run ends, without spans. -/
def RunResult.bare : RunResult → RunResult
  | .ended result m => .ended (result.mapError Failure.bare) m.bare
  | .unfinished m => .unfinished m.bare

/-- What a computation on a machine ends with, without spans. -/
def Exec.bare {α : Type} : EStateM.Result Fault Machine α → EStateM.Result Fault Machine α
  | .ok a m => .ok a m.bare
  | .error f m => .error f m.bare

/-! ### Statements -/

namespace Expr

@[simp]
lemma evaluate_bare (symbols : Symbols) (e : Expr) :
    e.bare.evaluate symbols = e.evaluate symbols := by
  induction e with
  | binary op l r span ihl ihr => rw [bare, evaluate, evaluate, ihl, ihr]
  | _ => rfl

@[simp]
lemma target_bare (symbols : Symbols) (e : Expr) : e.bare.target symbols = e.target symbols := by
  rw [target, target, evaluate_bare]

end Expr

namespace Machine

lemma bare_remarked (m : Machine) (remark : Option Remark) (span : Span) :
    (m.remarked remark span).bare = m.bare.remarked remark .origin := by
  cases remark with
  | none => rfl
  | some r => simp [remarked, bare, Warning.bare]

end Machine

namespace Exec

lemma readValue_bare (m : Machine) : readValue m.bare = bare (readValue m) := by
  have hbare : m.bare.wrote m.bare.prompt = ((m.wrote m.prompt).1.bare, (m.wrote m.prompt).2) := rfl
  have hinput : m.bare.input = m.input := rfl
  have houtput : (m.wrote m.prompt).1.bare.output = (m.wrote m.prompt).1.output := rfl
  rw [readValue_eq, readValue_eq, hbare, hinput]
  dsimp only
  rw [houtput]
  cases (m.wrote m.prompt).2 with
  | some cause => rfl
  | none =>
    cases (m.wrote m.prompt).1.output.flush.2 with
    | some cause => rfl
    | none => cases m.input.read.2 <;> rfl

lemma readInto_bare (names : List String) (m : Machine) :
    readInto names m.bare = bare (readInto names m) := by
  induction names generalizing m with
  | nil => rfl
  | cons name names ih =>
    rw [readInto, bind_eq, bind_eq, readValue_bare]
    cases readValue m with
    | error f m' => rfl
    | ok v m' => exact ih { m' with symbols := m'.symbols.set name v }

end Exec

namespace Statement

/-- A statement without spans does the same. -/
theorem execute_bare (s : Statement) (m : Machine) :
    s.bare.execute m.bare = Exec.bare (s.execute m) := by
  have hsymbols (m : Machine) : m.bare.symbols = m.symbols := rfl
  induction s generalizing m with
  | assign name e span =>
    rw [bare, execute_assign, execute_assign, hsymbols, Expr.evaluate_bare]
    cases e.evaluate m.symbols <;> rfl
  | print item span =>
    have hprinted : printed m.bare.symbols (item.map Expr.bare) = printed m.symbols item := by
      cases item with
      | none => rfl
      | some e => exact Expr.evaluate_bare m.symbols e
    rw [bare, execute_print, execute_print, hprinted]
    cases printed m.symbols item with
    | error f => rfl
    | ok v =>
      have hwrote (m : Machine) (text : String) :
        m.bare.wrote text = ((m.wrote text).1.bare, (m.wrote text).2) := rfl
      dsimp only
      rw [← Machine.bare_remarked m v.printRemark? span, hwrote]
      cases ((m.remarked v.printRemark? span).wrote (v.text ++ "\n")).2 <;> rfl
  | ifThen c t span ih =>
    rw [bare, execute_ifThen, execute_ifThen, hsymbols, Expr.evaluate_bare]
    cases c.evaluate m.symbols with
    | error f => rfl
    | ok v =>
      dsimp only
      rw [← Machine.bare_remarked, ih]
      split <;> rfl
  | ifThenElse c t e span iht ihe =>
    rw [bare, execute_ifThenElse, execute_ifThenElse, hsymbols, Expr.evaluate_bare]
    cases c.evaluate m.symbols with
    | error f => rfl
    | ok v =>
      dsimp only
      rw [← Machine.bare_remarked, iht, ihe]
      split <;> rfl
  | goto e span =>
    rw [bare, execute_goto, execute_goto, hsymbols, Expr.target_bare]
    cases e.target m.symbols with
    | error f => rfl
    | ok line =>
      dsimp only
      split <;> rfl
  | gosub e span =>
    rw [bare, execute_gosub, execute_gosub, hsymbols, Expr.target_bare]
    cases e.target m.symbols with
    | error f => rfl
    | ok line =>
      dsimp only
      rw [← Machine.bare_remarked]
      rfl
  | ret span =>
    have hstack : m.bare.stack = m.stack := rfl
    rw [bare, execute_ret, execute_ret, hstack]
    cases m.stack.ret <;> rfl
  | input names span =>
    rw [bare, execute_input, execute_input, Exec.readInto_bare]
    cases Exec.readInto names m <;> rfl
  | halt span => rfl

end Statement

/-! ### Programs -/

namespace Program

lemma get?_bare (p : Program) (n : Nat) : p.bare.get? n = (p.get? n).map Line.bare := by
  rw [get?, get?, bare, List.find?_map]
  rfl

lemma lineAt?_bare (p : Program) (line : Int) :
    p.bare.lineAt? line = (p.lineAt? line).map Line.bare := by
  rw [lineAt?, lineAt?]
  cases lineIndex? line with
  | none => rfl
  | some n => exact p.get?_bare n

lemma first?_bare (p : Program) : p.bare.first? = p.first? := by
  rw [first?, first?, bare, List.head?_map, Option.map_map]
  rfl

lemma next?_bare (p : Program) (n : Nat) : p.bare.next? n = p.next? n := by
  rw [next?, next?, bare, List.find?_map, Option.map_map]
  rfl

lemma assigned_bare (p : Program) : p.bare.assigned = p.assigned := by
  rw [assigned, assigned, bare, List.flatMap_map]
  simp [Line.bare]

end Program

namespace Machine

variable (p : Program)

lemma advance_bare (n : Nat) (m : Machine) :
    m.bare.advance p.bare n = (m.advance p n).bare := by
  rw [advance, advance, p.next?_bare]
  cases p.next? n <;> rfl

lemma follow_bare (n : Nat) (flow : Flow) (m : Machine) :
    m.bare.follow p.bare n flow = (m.follow p n flow).bare := by
  have hstate : m.bare.state = m.state := rfl
  have hstack : m.bare.stack = m.stack := rfl
  rw [follow.eq_def, follow.eq_def, hstate, hstack]
  split
  · rfl
  · cases flow with
    | next => exact advance_bare p n m
    | jump => rfl
    | call => rfl
    | ret =>
      dsimp only
      cases lineIndex? m.stack.line with
      | none => rfl
      | some caller => exact advance_bare p caller m

/-- A step in a program without spans leads to the same, but for spans. -/
theorem step_bare (m : Machine) : m.bare.step p.bare = (m.step p).bare := by
  have hstack : m.bare.stack = m.stack := rfl
  rw [step, step, hstack, p.lineAt?_bare]
  cases p.lineAt? m.stack.line with
  | none => rfl
  | some l =>
    have hexecute : l.bare.statement.execute m.bare = Exec.bare (l.statement.execute m) :=
      l.statement.execute_bare m
    simp only [Option.map_some, hexecute]
    cases l.statement.execute m with
    | error f m' =>
      have hspan : l.bare.statement.span = .origin := l.statement.span_bare
      simp only [Exec.bare, hspan]
      rfl
    | ok flow m' => exact follow_bare p l.number flow m'

lemma resume_bare (fuel : Nat) (m : Machine) :
    m.bare.resume p.bare fuel = (m.resume p fuel).bare := by
  induction fuel generalizing m with
  | zero => rfl
  | succ fuel ih =>
    rw [resume, resume, step_bare]
    cases m.step p with
    | next m' => exact ih m'
    | done m' =>
      have houtput : m'.bare.output = m'.output := rfl
      simp only [Transition.bare, finish, houtput]
      cases m'.output.flush.2 <;> rfl
    | failed f m' => rfl

/-- A run of a program without spans gives the same result, but for spans. -/
theorem run_bare (fuel : Nat) (m : Machine) : m.bare.run p.bare fuel = (m.run p fuel).bare := by
  rw [run, run, p.first?_bare]
  cases p.first? with
  | none => rfl
  | some first =>
    have hreset : m.bare.reset p.bare first = (m.reset p first).bare := by
      rw [reset, reset, p.assigned_bare]
      simp [bare]
    simp only [hreset, resume_bare]

end Machine

end LineBasic
