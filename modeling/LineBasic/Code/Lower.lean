import LineBasic.Code.CodeUnit
import LineBasic.Program

/-!
# Lowering

Lowering turns statements into instructions at the end of a `CodeUnit`. An expression becomes an
operand: a variable, a number, or a temporary that the code before it computes. A conditional
becomes branches around its statements. Jumps to lines keep the line as their operand.

* `Expr.lower`: the operand that holds the value of an expression;
* `Statement.lower`: the code of a statement;
* `Program.lower`: the code of a program, with the place of each line.
-/

namespace LineBasic

/-- The word that a comment uses for what an operator does. -/
def BinaryOp.verb : BinaryOp → String
  | .arith _ => "compute "
  | .rel _ => "compare "

namespace Expr

/-- Lowers an expression. A name must be declared in the unit. -/
def lower : Expr → Lower Operand
  | .ident name span => do
    if (← get).symbols.contains name then return .symbol (.given name)
    else throw (.undefinedIdentifier name span)
  | .number x _ => return .number x
  | .string s _ => do
    let temp ← Lower.newTemp
    Lower.emit
      { opcode := .assign
        operand1 := some (.quoted s)
        result := some temp
        comment := some [.words "string literal into ", .operand (.symbol temp)] }
    return .symbol temp
  | .binary op l r _ => do
    let left ← l.lower
    let right ← r.lower
    let temp ← Lower.newTemp
    Lower.emit
      { opcode := .ofOperator op
        operand1 := some left
        operand2 := some right
        result := some temp
        comment :=
          some [.words op.verb, .operand left, .words (" " ++ op.symbol ++ " "), .operand right] }
    return .symbol temp

end Expr

namespace Statement

/-- Lowers a statement. A conditional takes its labels after its condition, in the order branch,
end and, if it has one, alternative; nothing jumps to the first of them. -/
def lower : Statement → Lower Unit
  | .assign name e _ => do
    let value ← e.lower
    Lower.declare name
    Lower.emit
      { opcode := .assign
        operand1 := some value
        result := some (.given name)
        comment := some [.words "assign ", .operand value, .words (" to " ++ name)] }
  | .print none _ => Lower.emit { opcode := .print, comment := some [.words "print a blank line"] }
  | .print (some e) _ => do
    let value ← e.lower
    Lower.emit
      { opcode := .print
        operand1 := some value
        comment := some [.words "print ", .operand value] }
  | .ifThen c t _ => do
    let condition ← c.lower
    let _ ← Lower.newLabel
    let done ← Lower.newLabel
    Lower.emit
      { opcode := .ifFalse
        operand1 := some condition
        target := some done
        comment := some [.words "skip the THEN branch when false"] }
    t.lower
    Lower.defineLabel done "end of IF"
  | .ifThenElse c t e _ => do
    let condition ← c.lower
    let _ ← Lower.newLabel
    let done ← Lower.newLabel
    let otherwise ← Lower.newLabel
    Lower.emit
      { opcode := .ifFalse
        operand1 := some condition
        target := some otherwise
        comment := some [.words "skip to ELSE when false"] }
    t.lower
    Lower.emit
      { opcode := .goto
        target := some done
        comment := some [.words "jump over ELSE"] }
    Lower.defineLabel otherwise "ELSE branch"
    e.lower
    Lower.defineLabel done "end of IF"
  | .goto e _ => do
    let line ← e.lower
    Lower.emit
      { opcode := .goto
        operand1 := some line
        comment := some [.words "jump to line ", .operand line] }
  | .gosub e _ => do
    let line ← e.lower
    Lower.emit
      { opcode := .gosub
        operand1 := some line
        comment := some [.words "call subroutine at line ", .operand line] }
  | .ret _ => Lower.emit { opcode := .ret, comment := some [.words "return to caller"] }
  | .input names span =>
    if names.isEmpty then throw (.emptyInput span) else Lower.inputs names
  | .halt _ => Lower.emit { opcode := .halt, comment := some [.words "end of program"] }

end Statement

namespace Line

/-- Lowers lines, each of which is entered in the line map. -/
def lowerAll : List Line → Lower Unit
  | [] => return ()
  | l :: ls => do
    modify fun u => u.mapLine l.number
    l.statement.lower
    lowerAll ls

end Line

namespace Program

/-- Lowers a program at the end of a unit. -/
def lowerInto (p : Program) : Lower Unit := Line.lowerAll p.lines

/-- The flat code of a program over a table of variables. -/
def lower (p : Program) (symbols : Symbols) : Except LowerError CodeUnit :=
  match p.lowerInto (.start symbols) with
  | .ok () u => .ok u
  | .error e _ => .error e

end Program

end LineBasic
