import LineBasic.Diagnostic
import LineBasic.Number.Text
import LineBasic.Number.Whole
import LineBasic.Program
import LineBasic.Symbols

/-!
# Checking a program

What can be said about a program before it runs. A name that is read must be assigned somewhere,
a jump to a fixed line must have that line, and without a `GOSUB` no `RETURN` can succeed.

* `Program.check`: the report on a program;
* `Statement.problems`: the errors of one statement, in the order of its text.
-/

namespace LineBasic

/-- What a check can find. -/
inductive Problem where
  | neverAssigned (name : String)
  | undefinedLine (target : Number)
  | returnWithoutGosub
deriving DecidableEq

/-- A problem and its place. -/
structure Finding where
  problem : Problem
  span : Span
deriving DecidableEq

/-- The wording of a problem. -/
def Problem.message : Problem → String
  | .neverAssigned name => "undefined identifier: " ++ name ++ " is never assigned"
  | .undefinedLine x => "undefined line: " ++ Number.text x
  | .returnWithoutGosub => "RETURN in a program without GOSUB"

/-- The wording of a finding. -/
def Finding.message (f : Finding) : String := f.problem.message

/-- The names an expression reads that are not among the known ones. -/
def Expr.problems (known : List String) (e : Expr) : List Finding :=
  e.reads.filterMap fun (name, span) =>
    if known.contains name then none else some ⟨.neverAssigned name, span⟩

namespace Program

/-- Whether a number, cut to a whole one, is the number of a line. A number outside the range of
line numbers is not. -/
def hasTarget (p : Program) (x : Number) : Bool :=
  Number.atMost 0 x && Number.atMost x maxLineNumber.toFloat && (p.get? x.wholePart.toNat).isSome

/-- The errors of a jump target: names that are not known, and a fixed line that is not there. -/
def targetProblems (p : Program) (known : List String) (target : Expr) : List Finding :=
  target.problems known ++
    match target.constant? with
    | some x => if p.hasTarget x then [] else [⟨.undefinedLine x, target.span⟩]
    | none => []

end Program

namespace Statement

/-- The errors of a statement in a program. -/
def problems (p : Program) (known : List String) : Statement → List Finding
  | .assign _ value _ => value.problems known
  | .print item _ => item.toList.flatMap (Expr.problems known)
  | .ifThen condition t _ => condition.problems known ++ t.problems p known
  | .ifThenElse condition t e _ =>
    condition.problems known ++ t.problems p known ++ e.problems p known
  | .goto target _ => p.targetProblems known target
  | .gosub target _ => p.targetProblems known target
  | .ret _ => []
  | .input _ _ => []
  | .halt _ => []

/-- Whether a statement is a subroutine call. -/
def isGosub : Statement → Bool
  | .gosub .. => true
  | _ => false

/-- The span of a `RETURN`. -/
def returnSpan? : Statement → Option Span
  | .ret s => some s
  | _ => none

end Statement

/-- What a check finds in a program. -/
structure Report where
  /-- Every variable that the program assigns, without a value. -/
  symbols : Symbols
  /-- Whether the program calls a subroutine anywhere. -/
  hasGosub : Bool
  errors : List Finding
  warnings : List Finding

/-- Whether a check found an error. -/
def Report.hasErrors (r : Report) : Bool := !r.errors.isEmpty

/-- The diagnostics of a check, errors first. -/
def Report.diagnostics (r : Report) : List Diagnostic :=
  (r.errors.map fun f => .at .error f.span f.message) ++
    r.warnings.map fun f => .at .warning f.span f.message

namespace Program

/-- The statements of a program that are no conditionals, in order. -/
def atoms (p : Program) : List Statement := p.lines.flatMap fun l => l.statement.atoms

/-- Whether a program calls a subroutine anywhere. -/
def hasGosub (p : Program) : Bool := p.atoms.any Statement.isGosub

/-- The errors of a program, in ascending order of its lines. -/
def problems (p : Program) : List Finding :=
  p.lines.flatMap fun l => l.statement.problems p p.assigned

/-- One warning for each `RETURN` of a program that calls no subroutine. -/
def returnWarnings (p : Program) : List Finding :=
  if p.hasGosub then []
  else (p.atoms.filterMap Statement.returnSpan?).map fun s => ⟨.returnWithoutGosub, s⟩

/-- The report on a program. -/
def check (p : Program) : Report where
  symbols := .ofNames p.assigned
  hasGosub := p.hasGosub
  errors := p.problems
  warnings := p.returnWarnings

end Program

end LineBasic
