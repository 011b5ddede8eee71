import LineBasic.Machine.Fault
import LineBasic.Text.Bytes

/-!
# Input

The lines that a program has not read yet. It may not be possible to read one although it is
there.

* `Input.ofBytes`: the lines of a stream of bytes;
* `Input.read`: the input after a line was read, and the line or why there is none.
-/

namespace LineBasic

/-- Where the input of a program comes from. -/
structure Input where
  /-- The lines still to be read, as bytes, each with its line break. -/
  lines : List (List UInt8)
  /-- Why reading fails when these lines are left, if it does. -/
  cause? : List (List UInt8) → Option String

namespace Input

/-- Lines that can all be read. -/
def ofLines (lines : List (List UInt8)) : Input := ⟨lines, fun _ => none⟩

/-- A stream of bytes that can be read to its end. -/
def ofBytes (bytes : List UInt8) : Input := ofLines (Text.splitLines bytes)

instance : Coe (List UInt8) Input := ⟨ofBytes⟩

/-- Nothing to read. -/
def empty : Input := ofLines []

/-- Reads a line. One that is not text is passed over. -/
def read (i : Input) : Input × Except InputFault String :=
  match i.cause? i.lines with
  | some cause => (i, .error (.device cause))
  | none =>
    match i.lines with
    | [] => (i, .error .endOfInput)
    | line :: rest =>
      match Text.ofBytes? line with
      | none => ({ i with lines := rest }, .error .notText)
      | some text => ({ i with lines := rest }, .ok text)

end Input

end LineBasic
