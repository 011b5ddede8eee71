import LineBasic.Text.Quoted
import LineBasic.Value

/-!
# Instructions

Flat code is a list of instructions with up to two operands, a result and a branch target. Names
in it come from the program or are made during lowering: temporaries `t0`, `t1`, … and labels
`L0`, `L1`, ….

* `Instruction.text`: an instruction as it is listed.
-/

namespace LineBasic

/-- What an instruction does. -/
inductive Opcode where
  | print
  | ifTrue
  | ifFalse
  | goto
  | gosub
  | ret
  | halt
  | input
  | assign
  | label
  | addition
  | subtraction
  | multiplication
  | division
  | gt
  | ge
  | lt
  | le
  | eq
  | ne
deriving DecidableEq

namespace Opcode

/-- How an opcode is written. -/
def mnemonic : Opcode → String
  | .print => "PRINT"
  | .ifTrue => "IFTRUE"
  | .ifFalse => "IFFALSE"
  | .goto => "GOTO"
  | .gosub => "GOSUB"
  | .ret => "RETURN"
  | .halt => "END"
  | .input => "INPUT"
  | .assign => "ASSIGN"
  | .label => "LABEL"
  | .addition => "ADDITION"
  | .subtraction => "SUBTRACTION"
  | .multiplication => "MULTIPLICATION"
  | .division => "DIVISION"
  | .gt => "GT"
  | .ge => "GE"
  | .lt => "LT"
  | .le => "LE"
  | .eq => "EQ"
  | .ne => "NE"

/-- Every opcode. -/
def all : List Opcode :=
  [.print, .ifTrue, .ifFalse, .goto, .gosub, .ret, .halt, .input, .assign, .label, .addition,
   .subtraction, .multiplication, .division, .gt, .ge, .lt, .le, .eq, .ne]

/-- The opcode with a mnemonic. -/
def ofMnemonic? (word : String) : Option Opcode := all.find? fun op => op.mnemonic == word

theorem ofMnemonic?_mnemonic (op : Opcode) : ofMnemonic? op.mnemonic = some op := by
  cases op <;> decide

/-- The opcode of an operator. -/
def ofOperator : BinaryOp → Opcode
  | .arith .add => .addition
  | .arith .sub => .subtraction
  | .arith .mul => .multiplication
  | .arith .div => .division
  | .rel .eq => .eq
  | .rel .ne => .ne
  | .rel .lt => .lt
  | .rel .le => .le
  | .rel .gt => .gt
  | .rel .ge => .ge

end Opcode

/-- A name in flat code. -/
inductive Symbol where
  /-- A name taken over as it is, such as a variable of the program. -/
  | given (name : String)
  /-- The temporary with a number. -/
  | temp (index : Nat)
  /-- The label with a number. -/
  | label (index : Nat)
deriving DecidableEq

/-- How a name is written. -/
def Symbol.text : Symbol → String
  | .given name => name
  | .temp i => "t" ++ toString i
  | .label i => "L" ++ toString i

/-- What an instruction works on. -/
inductive Operand where
  | symbol (name : Symbol)
  | number (value : Number)
  | quoted (value : String)
deriving DecidableEq

/-- How an operand is written. A number is written as it is printed. -/
def Operand.text : Operand → String
  | .symbol name => name.text
  | .number x => Value.numberText x
  | .quoted s => Text.quoted s

/-- A piece of a comment: plain words, or an operand. -/
inductive Piece where
  | words (text : String)
  | operand (value : Operand)
deriving DecidableEq

/-- How a piece of a comment is written. -/
def Piece.text : Piece → String
  | .words s => s
  | .operand o => o.text

/-- A remark on an instruction. -/
abbrev Comment := List Piece

/-- How a comment is written. -/
def Comment.text (c : Comment) : String := String.join (c.map Piece.text)

/-- An instruction. Its `target` is the label it branches to; the instruction that defines a label
has it as its first operand. -/
structure Instruction where
  opcode : Opcode
  operand1 : Option Operand := none
  operand2 : Option Operand := none
  result : Option Symbol := none
  target : Option Symbol := none
  comment : Option Comment := none
deriving DecidableEq

namespace Instruction

/-- How the operands are written, after the opcode. -/
def operandsText (i : Instruction) : String :=
  match i.operand1, i.operand2 with
  | some a, some b => " " ++ a.text ++ ", " ++ b.text
  | some a, none => " " ++ a.text
  | none, some b => " " ++ b.text
  | none, none => ""

/-- How the result is written, after the operands. -/
def resultText (i : Instruction) : String :=
  match i.result with
  | some r => " -> " ++ r.text
  | none => ""

/-- How the branch target is written, at the end. -/
def targetText (i : Instruction) : String :=
  match i.target with
  | some l => " @" ++ l.text
  | none => ""

/-- An instruction as it is listed, without its comment. -/
def text (i : Instruction) : String :=
  if i.opcode = .label then (i.operand1.map Operand.text).getD "" ++ ":"
  else i.opcode.mnemonic ++ i.operandsText ++ i.resultText ++ i.targetText

end Instruction

end LineBasic
