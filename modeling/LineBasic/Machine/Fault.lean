import LineBasic.Diagnostic
import LineBasic.Value

/-!
# Faults and warnings of a run

A `Fault` ends a run. A `Failure` is a fault with the line that was executed and the span of its
statement, as far as the run had come. A `Warning` is recorded and the run goes on.
-/

namespace LineBasic

/-- Why a line of input could not be read. -/
inductive InputFault where
  | endOfInput
  | notText
  /-- The device that the input comes from has failed. -/
  | device (cause : String)
deriving DecidableEq

/-- What ends a run. -/
inductive Fault where
  | returnOutsideSub
  | lineNotFound (line : Int)
  | undefinedIdentifier (name : String)
  | input (cause : InputFault)
  | nothingToRun
  | operator (cause : ValueError)
  | targetNotNumber (found : String)
  | noStatement (line : Int)
  | output (cause : String)
deriving DecidableEq

/-- The wording of an input fault. -/
def InputFault.message : InputFault → String
  | .endOfInput => "unexpected end of input"
  | .notText => "stream did not contain valid UTF-8"
  | .device cause => cause

/-- The wording of a fault. -/
def Fault.message : Fault → String
  | .returnOutsideSub => "RETURN without GOSUB"
  | .lineNotFound n => "line " ++ toString n ++ " not found"
  | .undefinedIdentifier name => "undefined identifier: " ++ name
  | .input cause => "input error: " ++ cause.message
  | .nothingToRun => "nothing to run: the program is empty"
  | .operator cause => cause.message
  | .targetNotNumber found => "line number must be a number, found " ++ found
  | .noStatement n => "no statement at line " ++ toString n
  | .output cause => "output error: " ++ cause

/-- A fault, the line that was executed and the span of its statement. -/
structure Failure where
  fault : Fault
  line : Option Int
  span : Option Span
deriving DecidableEq

namespace Failure

/-- The wording of a failure: that of its fault, and the line if there is one. -/
def message (f : Failure) : String :=
  f.fault.message ++
    match f.line with
    | some n => " (line " ++ toString n ++ ")"
    | none => ""

/-- The diagnostic of a failure. -/
def diagnostic (f : Failure) : Diagnostic :=
  ⟨.error, f.message, f.span.map fun s => ⟨s, f.fault.message⟩⟩

end Failure

/-- What a run remarks on without ending. -/
inductive Remark where
  /-- An unset value was printed. -/
  | printUnset
  /-- A condition was unset. -/
  | conditionUnset
  /-- A condition was set but neither true nor false. -/
  | conditionNotBoolean (found : String)
  /-- A subroutine was called at a line below zero. -/
  | negativeLine (line : Int)
deriving DecidableEq

/-- The wording of a remark. -/
def Remark.message : Remark → String
  | .printUnset => "PRINT of an unset value"
  | .conditionUnset => "IF condition is unset"
  | .conditionNotBoolean found => "IF condition is a " ++ found ++ ", not a boolean"
  | .negativeLine n => "GOSUB to negative line " ++ toString n

/-- A remark, the line that was executed and the span of the statement it is about. -/
structure Warning where
  remark : Remark
  line : Int
  span : Span
deriving DecidableEq

namespace Warning

/-- The wording of a warning, without its line. -/
def message (w : Warning) : String := w.remark.message

/-- The diagnostic of a warning. -/
def diagnostic (w : Warning) : Diagnostic :=
  ⟨.warning, w.message ++ " (line " ++ toString w.line ++ ")", some ⟨w.span, w.message⟩⟩

end Warning

end LineBasic
