/-!
# Operators

The four arithmetic operators and the six relations, and how each is written.
-/

namespace LineBasic

/-- An arithmetic operator. -/
inductive ArithOp where
  | add
  | sub
  | mul
  | div
deriving DecidableEq

/-- A relational operator. -/
inductive RelOp where
  | eq
  | ne
  | lt
  | le
  | gt
  | ge
deriving DecidableEq

/-- An operator between two operands. -/
inductive BinaryOp where
  | arith (op : ArithOp)
  | rel (op : RelOp)
deriving DecidableEq

/-- How an arithmetic operator is written. -/
def ArithOp.symbol : ArithOp → String
  | .add => "+"
  | .sub => "-"
  | .mul => "*"
  | .div => "/"

/-- How a relation is written. -/
def RelOp.symbol : RelOp → String
  | .eq => "="
  | .ne => "<>"
  | .lt => "<"
  | .le => "<="
  | .gt => ">"
  | .ge => ">="

/-- How an operator is written. -/
def BinaryOp.symbol : BinaryOp → String
  | .arith op => op.symbol
  | .rel op => op.symbol

/-- Whether a relation that asks for an order accepts the order found. -/
def RelOp.accepts : RelOp → Ordering → Bool
  | .eq, o => o == .eq
  | .ne, o => o != .eq
  | .lt, o => o == .lt
  | .le, o => o != .gt
  | .gt, o => o == .gt
  | .ge, o => o != .lt

/-- The relation read from the other side. -/
def RelOp.converse : RelOp → RelOp
  | .eq => .eq
  | .ne => .ne
  | .lt => .gt
  | .le => .ge
  | .gt => .lt
  | .ge => .le

theorem RelOp.accepts_converse_swap (op : RelOp) (o : Ordering) :
    op.converse.accepts o.swap = op.accepts o := by
  cases op <;> cases o <;> rfl

end LineBasic
