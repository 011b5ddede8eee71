import LineBasic.Expr
import LineBasic.Reading.Cursor

/-!
# Reading expressions

Expressions are read by binding power. Relations bind weakest, then sums, then products, then a
minus sign before its operand; operators of one level are taken from the left. Reading with a
least power takes in every operator that binds at least that strongly.

* `Expr.readAbove`: an expression with operators of at least a given power;
* `Expr.read`: an expression.
-/

namespace LineBasic

/-- How strongly an operator holds the operand on its left. -/
def BinaryOp.leftPower : BinaryOp → Nat
  | .rel _ => 1
  | .arith .add | .arith .sub => 3
  | .arith .mul | .arith .div => 5

/-- How strongly an operator holds the operand on its right. It is one more than on the left, so
that operators of one level are taken from the left. -/
def BinaryOp.rightPower (op : BinaryOp) : Nat := op.leftPower + 1

/-- How strongly a minus sign holds the operand after it. -/
def minusPower : Nat := 7

namespace Expr

mutual

/-- Reads an expression in which every operator outside parentheses has at least the given
power. -/
def readAbove (power : Nat) (c : Cursor) : Except ParseError (Reading c.rest.length Expr) :=
  match readOperand c with
  | .error e => .error e
  | .ok first =>
    match climb power first.value first.next with
    | .error e => .error e
    | .ok all => .ok (all.relax first.short)
termination_by 2 * c.rest.length + 1
decreasing_by
  · exact Nat.lt_succ_self _
  · have := first.short
    omega

/-- Reads an operand: a name, a literal, an expression in parentheses, or a minus sign and its
operand. -/
def readOperand (c : Cursor) : Except ParseError (Reading c.rest.length Expr) :=
  match c with
  | ⟨_, ⟨.number x, s, _, _⟩ :: ts⟩ => .ok ⟨.number x s, ⟨s, ts⟩, Nat.lt_succ_self _⟩
  | ⟨_, ⟨.string x, s, _, _⟩ :: ts⟩ => .ok ⟨.string x s, ⟨s, ts⟩, Nat.lt_succ_self _⟩
  | ⟨_, ⟨.ident x, s, _, _⟩ :: ts⟩ => .ok ⟨.ident x s, ⟨s, ts⟩, Nat.lt_succ_self _⟩
  | ⟨_, ⟨.operator (.arith .sub), s, _, _⟩ :: ts⟩ =>
    match readAbove minusPower ⟨s, ts⟩ with
    | .error e => .error e
    | .ok operand => .ok ⟨negated s operand.value, operand.next, Nat.lt_succ_of_lt operand.short⟩
  | ⟨_, ⟨.leftParen, s, _, _⟩ :: ts⟩ =>
    match readAbove 0 ⟨s, ts⟩ with
    | .error e => .error e
    | .ok inner =>
      match inner.next.expect .rightParen with
      | .error e => .error e
      | .ok close =>
        .ok ⟨inner.value, close.next, Nat.lt_succ_of_lt (Nat.lt_trans close.short inner.short)⟩
  | c => .error (c.expected .expression)
termination_by 2 * c.rest.length
decreasing_by
  all_goals
    simp only [List.length_cons]
    omega

/-- Reads the operators of at least the given power after an operand, with their right operands,
and joins them to it from the left. -/
def climb (power : Nat) (left : Expr) (c : Cursor) :
    Except ParseError (Reading (c.rest.length + 1) Expr) :=
  match c with
  | ⟨last, ⟨.operator op, s, l, k⟩ :: ts⟩ =>
    if op.leftPower < power then
      .ok ⟨left, ⟨last, ⟨.operator op, s, l, k⟩ :: ts⟩, Nat.lt_succ_self _⟩
    else
      match readAbove op.rightPower ⟨s, ts⟩ with
      | .error e => .error e
      | .ok right =>
        let joined := .binary op left right.value (left.span.merge right.value.span)
        match climb power joined right.next with
        | .error e => .error e
        | .ok all =>
          .ok (all.relax (Nat.succ_le_succ (Nat.le_succ_of_le (Nat.le_of_lt right.short))))
  | c => .ok ⟨left, c, Nat.lt_succ_self _⟩
termination_by 2 * c.rest.length
decreasing_by
  · simp only [List.length_cons]
    omega
  · have := right.short
    simp only [List.length_cons] at *
    omega

end

/-- Reads an expression. -/
def read (c : Cursor) : Except ParseError (Reading c.rest.length Expr) := readAbove 0 c

/-- The expression at the front of a list of tokens. -/
def ofTokens (tokens : List Token) : Except ParseError Expr :=
  (read (.start tokens)).map Reading.value

end Expr

end LineBasic
