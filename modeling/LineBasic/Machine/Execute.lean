import LineBasic.Machine.State

/-!
# Executing a statement

* `Expr.evaluate`: the value of an expression, which changes nothing;
* `Statement.execute`: what a statement does to a machine, and where control goes from there.
-/

namespace LineBasic

namespace Expr

/-- The value of an expression, operands from left to right. -/
def evaluate (symbols : Symbols) : Expr → Except Fault Value
  | .ident name _ =>
    match symbols.get? name with
    | some v => .ok v
    | none => .error (.undefinedIdentifier name)
  | .number x _ => .ok (.number x)
  | .string s _ => .ok (.string s)
  | .binary op l r _ =>
    match l.evaluate symbols with
    | .error e => .error e
    | .ok a =>
      match r.evaluate symbols with
      | .error e => .error e
      | .ok b => (Value.binary op a b).mapError .operator

/-- The line that a jump target names. -/
def target (symbols : Symbols) (e : Expr) : Except Fault Int :=
  match e.evaluate symbols with
  | .error f => .error f
  | .ok (.number x) => .ok x.toLine
  | .ok v => .error (.targetNotNumber v.typeName)

end Expr

/-- The remark on a value that is printed. -/
def Value.printRemark? : Value → Option Remark
  | .unset => some .printUnset
  | _ => none

/-- The remark on a value that is taken as a condition. -/
def Value.conditionRemark? : Value → Option Remark
  | .boolean _ => none
  | .unset => some .conditionUnset
  | v => some (.conditionNotBoolean v.typeName)

/-- Where control goes after a statement. -/
inductive Flow where
  /-- To the line after the current one. -/
  | next
  /-- To the line that the current frame was moved to. -/
  | jump
  /-- Into the subroutine that was entered. -/
  | call
  /-- To the line after the call that was left. -/
  | ret
deriving DecidableEq

namespace Exec

/-- The value of an expression. -/
def evaluate (e : Expr) : Exec Value := do ofExcept (e.evaluate (← get).symbols)

/-- The line that a jump target names. -/
def target (e : Expr) : Exec Int := do ofExcept (e.target (← get).symbols)

/-- Reads one line of input into each variable. -/
def readInto : List String → Exec Unit
  | [] => return ()
  | name :: names => do
    assign name (← readValue)
    readInto names

/-- Whether a condition counts as true. There is a remark on one that is no truth value. -/
def condition (e : Expr) (span : Span) : Exec Bool := do
  let v ← evaluate e
  warnIf v.conditionRemark? span
  return v.isTruthy

end Exec

namespace Statement

/-- Executes a statement. -/
def execute : Statement → Exec Flow
  | .assign name e _ => do
    Exec.assign name (← Exec.evaluate e)
    return .next
  | .print item span => do
    let v ← match item with
      | some e => Exec.evaluate e
      | none => pure (.string "")
    Exec.warnIf v.printRemark? span
    Exec.write (v.text ++ "\n")
    return .next
  | .ifThen c t span => do
    if ← Exec.condition c span then execute t else return .next
  | .ifThenElse c t e span => do
    if ← Exec.condition c span then execute t else execute e
  | .goto e _ => do
    let line ← Exec.target e
    if line < 0 then throw (.lineNotFound line)
    Exec.goto line
    return .jump
  | .gosub e span => do
    let line ← Exec.target e
    if line < 0 then Exec.warn (.negativeLine line) span
    Exec.call line
    return .call
  | .ret _ => do
    Exec.ret
    return .ret
  | .input names _ => do
    Exec.readInto names
    return .next
  | .halt _ => do
    modify Machine.exit
    return .next

end Statement

end LineBasic
