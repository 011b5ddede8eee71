import LineBasic.Number.Whole
import LineBasic.Number.Text
import LineBasic.Number.Reader
import LineBasic.Operator
import LineBasic.Text.Blank

/-!
# Values

What a variable of a program holds, and what its operators do.

* `Value.arithmetic`: numbers only, and no division by a zero;
* `Value.compare`: any two set values can be equal, only two numbers or two texts have an order;
* `Value.text`: how a value is printed;
* `Value.ofInputLine`: what a line of input denotes.
-/

namespace LineBasic

/-- A value of the language. A declared variable is `unset` before its first assignment. -/
inductive Value where
  | number (value : Number)
  | string (value : String)
  | boolean (value : Bool)
  | unset
deriving DecidableEq

/-- Why an operator has no result. -/
inductive ValueError where
  | expectingNumber (op left right : String)
  | divisionByZero
deriving DecidableEq

/-- The wording of an operator's failure. -/
def ValueError.message : ValueError → String
  | .expectingNumber op left right =>
    "operator `" ++ op ++ "` expects numbers, found " ++ left ++ " and " ++ right
  | .divisionByZero => "division by zero"

namespace Value

/-- The name of a value's kind. -/
def typeName : Value → String
  | .number _ => "number"
  | .string _ => "string"
  | .boolean _ => "boolean"
  | .unset => "unset value"

/-- Whether a value is set. -/
def isSet : Value → Bool
  | .unset => false
  | _ => true

/-- The number a value is, if it is one. -/
def number? : Value → Option Number
  | .number x => some x
  | _ => none

/-- The truth value a value is, if it is one. -/
def boolean? : Value → Option Bool
  | .boolean b => some b
  | _ => none

/-- Whether a value counts as true: a number other than zero (a NaN too), a text that is not
empty, and `TRUE`. -/
def isTruthy : Value → Bool
  | .number x => !x.isZero
  | .string s => !s.isEmpty
  | .boolean b => b
  | .unset => false

/-! ### Operators -/

/-- The failure of an operator on operands of these kinds. -/
def mismatch (op : String) (left right : Value) : ValueError :=
  .expectingNumber op left.typeName right.typeName

/-- The result of an arithmetic operator. -/
def arithmetic (op : ArithOp) (left right : Value) : Except ValueError Value :=
  match left, right with
  | .number x, .number y =>
    match op with
    | .add => .ok (.number (x + y))
    | .sub => .ok (.number (x - y))
    | .mul => .ok (.number (x * y))
    | .div => if y.isZero then .error .divisionByZero else .ok (.number (x / y))
  | _, _ => .error (mismatch op.symbol left right)

/-- The order of two texts, by their code points. -/
def textOrder (s t : String) : Ordering :=
  if s < t then .lt else if s = t then .eq else .gt

/-- Whether two set values are equal. Values of different kinds differ, and so does a NaN from
itself. -/
def equals : Value → Value → Bool
  | .number x, .number y => x.same y
  | .string s, .string t => s == t
  | .boolean a, .boolean b => a == b
  | .unset, .unset => true
  | _, _ => false

/-- Whether an ordering relation holds. Numbers without an order are in no relation. -/
def inOrder (op : RelOp) (left right : Value) : Except ValueError Bool :=
  match left, right with
  | .number x, .number y =>
    match x.order? y with
    | some o => .ok (op.accepts o)
    | none => .ok false
  | .string s, .string t => .ok (op.accepts (textOrder s t))
  | _, _ => .error (mismatch op.symbol left right)

/-- The result of a relation between two set values. -/
def relation (op : RelOp) (left right : Value) : Except ValueError Bool :=
  match op with
  | .eq => .ok (equals left right)
  | .ne => .ok (!equals left right)
  | op => inOrder op left right

/-- The result of a relational operator. It is unset if an operand is. -/
def compare (op : RelOp) (left right : Value) : Except ValueError Value :=
  if left.isSet && right.isSet then (relation op left right).map .boolean
  else .ok .unset

/-- The result of an operator. -/
def binary (op : BinaryOp) (left right : Value) : Except ValueError Value :=
  match op with
  | .arith op => arithmetic op left right
  | .rel op => compare op left right

/-! ### Text -/

/-- Whether a number is printed as a whole number: it has no fraction and at most fifteen
digits. -/
def printsWhole (x : Number) : Bool := x.isWhole && x.wholePart.natAbs < 1000000000000000

/-- The text of a number as a value. Unlike a number's own text it has no negative zero. -/
def numberText (x : Number) : String :=
  if printsWhole x then toString x.wholePart else Number.text x

/-- How a value is printed. -/
def text : Value → String
  | .number x => numberText x
  | .string s => s
  | .boolean true => "TRUE"
  | .boolean false => "FALSE"
  | .unset => ""

/-- What a line of input denotes: the number it writes, or else the text of the line. The line
breaks at its end do not belong to it. -/
def ofInputLine (line : String) : Value :=
  let content := Text.trimBreaks line.toList
  match Number.ofChars? (Text.trim content) with
  | some x => .number x
  | none => .string (String.ofList content)

end Value

end LineBasic
