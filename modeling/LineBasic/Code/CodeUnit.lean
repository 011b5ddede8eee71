import LineBasic.Code.Instruction
import LineBasic.Code.LineMap
import LineBasic.Diagnostic
import LineBasic.Symbols

/-!
# Code units

A `CodeUnit` is flat code that is being made: the instructions so far, the variables they may
use, and counters for the names that lowering makes up. A `Lower` is a computation that adds to a
unit and may end in an error.

* `Lower.newTemp`, `Lower.newLabel`: fresh names;
* `Lower.emit`: one more instruction.
-/

namespace LineBasic

/-- Why a program has no flat code. -/
inductive LowerError where
  | undefinedIdentifier (name : String) (span : Span)
  | emptyInput (span : Span)
deriving DecidableEq

namespace LowerError

/-- The wording of a lowering error. -/
def message : LowerError → String
  | .undefinedIdentifier name _ => "undefined identifier: " ++ name
  | .emptyInput _ => "INPUT needs at least one variable"

/-- The place of a lowering error. -/
def span : LowerError → Span
  | .undefinedIdentifier _ s => s
  | .emptyInput s => s

/-- The diagnostic of a lowering error. Its label has no note. -/
def diagnostic (e : LowerError) : Diagnostic := ⟨.error, e.message, some ⟨e.span, ""⟩⟩

end LowerError

/-- Code that is being made. The counters are never reset, so that new names are always fresh. -/
structure CodeUnit where
  code : Array Instruction
  symbols : Symbols
  temps : Nat
  labels : Nat
  lineMap : LineMap

/-- A computation that adds to a unit. What it added before an error stays. -/
abbrev Lower := EStateM LowerError CodeUnit

namespace CodeUnit

/-- The unit without code over a table of variables. -/
def start (symbols : Symbols) : CodeUnit := ⟨#[], symbols, 0, 0, .empty⟩

/-- The unit with one more instruction. -/
def emit (u : CodeUnit) (i : Instruction) : CodeUnit := { u with code := u.code.push i }

/-- The unit in which a name is declared. -/
def declare (u : CodeUnit) (name : String) : CodeUnit :=
  { u with symbols := u.symbols.declare name }

/-- The unit in which `line` starts at the next instruction. -/
def mapLine (u : CodeUnit) (line : Nat) : CodeUnit :=
  { u with lineMap := u.lineMap.insert line u.code.size }

end CodeUnit

namespace Lower

/-- A new temporary, which is declared among the variables. -/
def newTemp : Lower Symbol :=
  modifyGet fun u =>
    let temp := Symbol.temp u.temps
    (temp, { u.declare temp.text with temps := u.temps + 1 })

/-- A new label. -/
def newLabel : Lower Symbol :=
  modifyGet fun u => (.label u.labels, { u with labels := u.labels + 1 })

/-- Adds an instruction. -/
def emit (i : Instruction) : Lower Unit := modify fun u => u.emit i

/-- Declares a variable. -/
def declare (name : String) : Lower Unit := modify fun u => u.declare name

/-- Adds the instruction that defines a label. -/
def defineLabel (label : Symbol) (remark : String) : Lower Unit :=
  emit { opcode := .label, operand1 := some (.symbol label), comment := some [.words remark] }

/-- Reads a line of input into each variable. -/
def inputs : List String → Lower Unit
  | [] => return ()
  | name :: names => do
    declare name
    emit
      { opcode := .input
        result := some (.given name)
        comment := some [.words ("read " ++ name)] }
    inputs names

end Lower

end LineBasic
