import LineBasic.Diagnostic
import LineBasic.Number.Whole
import LineBasic.Program
import LineBasic.Reading.Statement
import LineBasic.Token.Scan

/-!
# Reading programs

A program is read line by line: a number, a statement, and the end of the line. Empty lines are
passed over, and the lines may come in any order.

* `Program.ofTokens`: the program that tokens write;
* `Program.ofText`: the program that a text writes.
-/

namespace LineBasic

/-- The number of a line, if a number can be one: whole and not above `maxLineNumber`. -/
def lineNumber? (x : Number) : Option Nat :=
  if x.isWhole && x.wholePart ≤ maxLineNumber then some x.wholePart.toNat else none

namespace Line

/-- Reads the number of a line. -/
def readNumber (c : Cursor) : Except ParseError (Reading c.rest.length Nat) :=
  match c with
  | ⟨_, ⟨.number x, s, _, _⟩ :: ts⟩ =>
    match lineNumber? x with
    | some n => .ok ⟨n, ⟨s, ts⟩, Cursor.length_lt_cons ts⟩
    | none => .error ⟨.invalidLineNumber x, s⟩
  | c => .error (c.expected .lineNumber)

/-- Reads a line, up to its end. -/
def read (c : Cursor) : Except ParseError (Reading c.rest.length Line) :=
  match readNumber c with
  | .error e => .error e
  | .ok number =>
    match Statement.read number.next with
    | .error e => .error e
    | .ok statement =>
      if statement.next.atLineEnd then
        .ok ⟨⟨number.value, statement.value, c.span.merge statement.next.last⟩, statement.next,
          Nat.lt_trans statement.short number.short⟩
      else .error (statement.next.expected .lineEnd)

end Line

namespace Program

/-- Reads lines into a program until no token is left. -/
def readLines (p : Program) (c : Cursor) : Except ParseError Program :=
  if c.skipBreaks.rest.isEmpty then .ok p
  else
    match Line.read c.skipBreaks with
    | .error e => .error e
    | .ok line =>
      if fresh : p.get? line.value.number = none then
        readLines (p.insert line.value fresh) line.next
      else .error ⟨.duplicateLine line.value.number, line.value.span⟩
termination_by c.rest.length
decreasing_by exact Nat.lt_of_lt_of_le line.short (Cursor.skipBreaks_length c)

/-- The program that tokens write. -/
def ofTokens (tokens : List Token) : Except ParseError Program := readLines empty (.start tokens)

end Program

/-- Why a text is no program. -/
inductive SourceError where
  | scan (error : ScanError)
  | parse (error : ParseError)
deriving DecidableEq

namespace SourceError

/-- The wording of a source error. -/
def message : SourceError → String
  | .scan e => e.message
  | .parse e => e.message

/-- The place of a source error. -/
def span : SourceError → Span
  | .scan e => e.span
  | .parse e => e.span

/-- The diagnostic of a text that is no program. -/
def diagnostic (e : SourceError) : Diagnostic := .at .error e.span e.message

end SourceError

/-- The tokens of a text. -/
def tokensOf (source : String) : Except SourceError (List Token) := (scan source).mapError .scan

/-- The program that a text writes. -/
def Program.ofText (source : String) : Except SourceError Program := do
  (ofTokens (← tokensOf source)).mapError .parse

/-- The expression at the front of a text. -/
def Expr.ofText (source : String) : Except SourceError Expr := do
  (ofTokens (← tokensOf source)).mapError .parse

end LineBasic
