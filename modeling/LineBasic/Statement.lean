import LineBasic.Expr

/-!
# Statements

What a line of a program does. A conditional holds its branches, so statements are trees too.

* `Statement.assigned`: the names a statement can assign, branches included;
* `Statement.atoms`: the statements without branches inside a statement, in order.
-/

namespace LineBasic

/-- A statement, with the span of its text. -/
inductive Statement where
  /-- `LET name = value`, in which the first word may be missing. -/
  | assign (name : String) (value : Expr) (span : Span)
  /-- `PRINT item`, or `PRINT` alone for an empty line. -/
  | print (item : Option Expr) (span : Span)
  /-- `IF condition THEN branch`. -/
  | ifThen (condition : Expr) (thenBranch : Statement) (span : Span)
  /-- `IF condition THEN branch ELSE branch`. -/
  | ifThenElse (condition : Expr) (thenBranch elseBranch : Statement) (span : Span)
  /-- `GOTO target`. -/
  | goto (target : Expr) (span : Span)
  /-- `GOSUB target`. -/
  | gosub (target : Expr) (span : Span)
  /-- `RETURN`. -/
  | ret (span : Span)
  /-- `INPUT name, name, …`. -/
  | input (names : List String) (span : Span)
  /-- `END`. -/
  | halt (span : Span)
deriving DecidableEq

namespace Statement

/-- The span of a statement. -/
def span : Statement → Span
  | .assign _ _ s => s
  | .print _ s => s
  | .ifThen _ _ s => s
  | .ifThenElse _ _ _ s => s
  | .goto _ s => s
  | .gosub _ s => s
  | .ret s => s
  | .input _ s => s
  | .halt s => s

/-- The names that a statement can assign, in order of appearance. -/
def assigned : Statement → List String
  | .assign name _ _ => [name]
  | .input names _ => names
  | .ifThen _ t _ => t.assigned
  | .ifThenElse _ t e _ => t.assigned ++ e.assigned
  | _ => []

/-- The statements inside a statement that are no conditionals, in order of appearance. -/
def atoms : Statement → List Statement
  | .ifThen _ t _ => t.atoms
  | .ifThenElse _ t e _ => t.atoms ++ e.atoms
  | s => [s]

end Statement

end LineBasic
