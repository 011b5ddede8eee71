import LineBasic.Number.Form
import LineBasic.Operator
import LineBasic.Span

/-!
# Expressions

The trees that the operators build over names, numbers and texts. Every node has the span of its
text, so that a fault can point at it.
-/

namespace LineBasic

/-- An expression. -/
inductive Expr where
  | ident (name : String) (span : Span)
  | number (value : Number) (span : Span)
  | string (value : String) (span : Span)
  | binary (op : BinaryOp) (left right : Expr) (span : Span)
deriving DecidableEq

namespace Expr

/-- The span of an expression. -/
def span : Expr → Span
  | .ident _ s => s
  | .number _ s => s
  | .string _ s => s
  | .binary _ _ _ s => s

/-- The value of a numeric literal. -/
def constant? : Expr → Option Number
  | .number x _ => some x
  | _ => none

/-- The negation of an expression after a minus sign with span `minus`: a literal is negated,
anything else is taken from zero. -/
def negated (minus : Span) (operand : Expr) : Expr :=
  match operand with
  | .number x s => .number (-x) (minus.merge s)
  | e => .binary (.arith .sub) (.number 0 minus) e (minus.merge e.span)

/-- The names an expression reads, with the span of each occurrence, from left to right. -/
def reads : Expr → List (String × Span)
  | .ident name s => [(name, s)]
  | .number .. => []
  | .string .. => []
  | .binary _ l r _ => l.reads ++ r.reads

end Expr

end LineBasic
