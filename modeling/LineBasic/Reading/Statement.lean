import LineBasic.Reading.Expr
import LineBasic.Statement

/-!
# Reading statements

A statement is known by its first word; one that starts with a name is an assignment. A branch of
a conditional is a statement, or a number that stands for a jump to that line. The branches are
read innermost first, so `ELSE` belongs to the nearest `IF` that has none.

* `Statement.read`: a statement;
* `Statement.readBranch`: a branch of a conditional.
-/

namespace LineBasic

namespace Cursor

/-- Reads names separated by commas. -/
def names (c : Cursor) : Except ParseError (Reading c.rest.length (List String)) :=
  match c.ident with
  | .error e => .error e
  | .ok first =>
    match first.next.accept? .comma with
    | none => .ok ⟨[first.value], first.next, first.short⟩
    | some comma =>
      match names comma.next with
      | .error e => .error e
      | .ok more =>
        .ok ⟨first.value :: more.value, more.next,
          Nat.lt_trans more.short (Nat.lt_trans comma.short first.short)⟩
termination_by c.rest.length
decreasing_by exact Nat.lt_trans comma.short first.short

end Cursor

namespace Statement

/-- Reads an assignment from its name on. -/
def readAssign (c : Cursor) : Except ParseError (Reading c.rest.length Statement) :=
  match c.ident with
  | .error e => .error e
  | .ok name =>
    match name.next.expect (.operator (.rel .eq)) with
    | .error e => .error e
    | .ok sign =>
      match Expr.read sign.next with
      | .error e => .error e
      | .ok value =>
        .ok ⟨.assign name.value value.value (c.span.merge value.value.span), value.next,
          Nat.lt_trans value.short (Nat.lt_trans sign.short name.short)⟩

/-- Reads what follows `PRINT`, whose span is `start`. -/
def readPrint (start : Span) (c : Cursor) :
    Except ParseError (Reading (c.rest.length + 1) Statement) :=
  if c.atLineEnd || c.kind? == some (.keyword .elseKw) then
    .ok ⟨.print none (start.merge c.last), c, c.length_lt_succ⟩
  else
    match Expr.read c with
    | .error e => .error e
    | .ok item =>
      .ok ⟨.print (some item.value) (start.merge item.next.last), item.next,
        Nat.lt_succ_of_lt item.short⟩

/-- Reads the target of a jump whose keyword has the span `start`. -/
def readJump (jump : Expr → Span → Statement) (start : Span) (c : Cursor) :
    Except ParseError (Reading (c.rest.length + 1) Statement) :=
  match Expr.read c with
  | .error e => .error e
  | .ok target =>
    .ok ⟨jump target.value (start.merge target.value.span), target.next,
      Nat.lt_succ_of_lt target.short⟩

/-- Reads what follows `INPUT`, whose span is `start`. -/
def readInput (start : Span) (c : Cursor) :
    Except ParseError (Reading (c.rest.length + 1) Statement) :=
  match c.names with
  | .error e => .error e
  | .ok names =>
    .ok ⟨.input names.value (start.merge names.next.last), names.next,
      Nat.lt_succ_of_lt names.short⟩

/-- Reads the condition of an `IF` and the word `THEN`. -/
def readCondition (c : Cursor) : Except ParseError (Reading c.rest.length Expr) :=
  match Expr.read c with
  | .error e => .error e
  | .ok condition =>
    match condition.next.expect (.keyword .thenKw) with
    | .error e => .error e
    | .ok word => .ok ⟨condition.value, word.next, Nat.lt_trans word.short condition.short⟩

mutual

/-- Reads a statement. -/
def read (c : Cursor) : Except ParseError (Reading c.rest.length Statement) :=
  match c with
  | ⟨_, ⟨.keyword .letKw, s, _, _⟩ :: ts⟩ =>
    match readAssign ⟨s, ts⟩ with
    | .error e => .error e
    | .ok r => .ok (r.relax (Nat.le_succ _))
  | ⟨last, ⟨.ident name, s, l, k⟩ :: ts⟩ => readAssign ⟨last, ⟨.ident name, s, l, k⟩ :: ts⟩
  | ⟨_, ⟨.keyword .print, s, _, _⟩ :: ts⟩ => readPrint s ⟨s, ts⟩
  | ⟨_, ⟨.keyword .goto, s, _, _⟩ :: ts⟩ => readJump .goto s ⟨s, ts⟩
  | ⟨_, ⟨.keyword .gosub, s, _, _⟩ :: ts⟩ => readJump .gosub s ⟨s, ts⟩
  | ⟨_, ⟨.keyword .returnKw, s, _, _⟩ :: ts⟩ => .ok ⟨.ret s, ⟨s, ts⟩, Nat.lt_succ_self _⟩
  | ⟨_, ⟨.keyword .input, s, _, _⟩ :: ts⟩ => readInput s ⟨s, ts⟩
  | ⟨_, ⟨.keyword .endKw, s, _, _⟩ :: ts⟩ => .ok ⟨.halt s, ⟨s, ts⟩, Nat.lt_succ_self _⟩
  | ⟨_, ⟨.keyword .ifKw, s, _, _⟩ :: ts⟩ =>
    match readCondition ⟨s, ts⟩ with
    | .error e => .error e
    | .ok condition =>
      match readBranch condition.next with
      | .error e => .error e
      | .ok yes =>
        match yes.next.accept? (.keyword .elseKw) with
        | none =>
          .ok ⟨.ifThen condition.value yes.value (s.merge yes.next.last), yes.next,
            Nat.lt_succ_of_lt (Nat.lt_trans yes.short condition.short)⟩
        | some word =>
          match readBranch word.next with
          | .error e => .error e
          | .ok no =>
            .ok ⟨.ifThenElse condition.value yes.value no.value (s.merge no.next.last), no.next,
              Nat.lt_succ_of_lt (Nat.lt_trans no.short
                (Nat.lt_trans word.short (Nat.lt_trans yes.short condition.short)))⟩
  | c => .error (c.expected .statement)
termination_by 2 * c.rest.length
decreasing_by
  · have := condition.short
    simp only [List.length_cons] at *
    omega
  · have := Nat.lt_trans word.short (Nat.lt_trans yes.short condition.short)
    simp only [List.length_cons] at *
    omega

/-- Reads a branch of a conditional. -/
def readBranch (c : Cursor) : Except ParseError (Reading c.rest.length Statement) :=
  match c with
  | ⟨_, ⟨.number x, s, _, _⟩ :: ts⟩ => .ok ⟨.goto (.number x s) s, ⟨s, ts⟩, Nat.lt_succ_self _⟩
  | c => read c
termination_by 2 * c.rest.length + 1
decreasing_by exact Nat.lt_succ_self _

end

end Statement

end LineBasic
