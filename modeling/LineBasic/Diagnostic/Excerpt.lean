import LineBasic.Diagnostic
import LineBasic.Text.Blank
import LineBasic.Text.Bytes
import LineBasic.Text.Width

/-!
# Diagnostics with an excerpt of the source

A diagnostic is shown with the line it is about and carets under the place. A place that goes on
to the next line, as a line break does, is shown as a bracket from the one line to the other.

* `Diagnostic.render`: the text of a diagnostic.
-/

namespace LineBasic

/-! ### Lines of a source -/

/-- A line of a source and the offset of its first byte. Its line feed does not belong to it. -/
structure SourceLine where
  start : Nat
  chars : List Char

namespace SourceLine

/-- The lines of a text that starts at an offset. A line feed at the end starts one more line. -/
def splitFrom (start : Nat) (line : List Char) : List Char → List SourceLine
  | [] => [⟨start, line.reverse⟩]
  | c :: cs =>
    if c == '\n' then
      ⟨start, line.reverse⟩ :: splitFrom (start + Text.byteLength line + 1) [] cs
    else splitFrom start (c :: line) cs

/-- The lines of a source. -/
def all (source : String) : List SourceLine := splitFrom 0 [] source.toList

/-- The number, counted from 0, of the line that holds an offset. The last line holds all the
rest. -/
def indexOf (lines : List SourceLine) (offset : Nat) : Nat :=
  (lines.filter fun l => l.start ≤ offset).length - 1

/-- The part of a line that is shown. -/
def shown (l : SourceLine) : List Char :=
  Text.dropEnd (fun c => c == '\n' || c == '\r' || c == '\x00') l.chars

end SourceLine

/-! ### Columns -/

/-- A character of a shown line: its bytes in the line and the columns it takes. -/
structure Cell where
  char : Char
  start : Nat
  stop : Nat
  width : Nat

namespace Cell

/-- The cells of a text from an offset and a column on. A tab reaches to the next multiple of
four columns. -/
def layout (offset column : Nat) : List Char → List Cell
  | [] => []
  | c :: cs =>
    let width := if c == '\t' then 4 - column % 4 else Text.width c
    let stop := offset + c.utf8Size
    ⟨c, offset, stop, width⟩ :: layout stop (column + width) cs

/-- The cells of a line. -/
def all (chars : List Char) : List Cell := layout 0 0 chars

/-- The characters that show a cell. -/
def shown (c : Cell) : List Char := if c.char == '\t' then List.replicate c.width ' ' else [c.char]

/-- The marks under a cell when the bytes from `first` to `last` are pointed at. -/
def caret (first last : Nat) (c : Cell) : List Char :=
  if c.start < last && first < c.stop then List.replicate c.width '^'
  else if c.start < last then List.replicate c.width ' '
  else []

end Cell

/-- A line as it is shown. -/
def SourceLine.shownText (l : SourceLine) : String :=
  String.ofList ((Cell.all l.shown).flatMap Cell.shown)

/-- The marks under a line at the bytes from `first` to `last`. The place after the last
character can be marked too. -/
def SourceLine.carets (l : SourceLine) (first last : Nat) : String :=
  let size := Text.byteLength l.shown
  let cells := Cell.all l.shown ++ [⟨' ', size, size + 1, 1⟩]
  String.ofList (cells.flatMap (Cell.caret first last))

/-- A rule under the characters of a line that start before a byte. -/
def SourceLine.rule (l : SourceLine) (before : Nat) : String :=
  let cells := (Cell.all l.shown).filter fun c => c.start < before
  String.ofList (cells.flatMap fun c => List.replicate c.width '─')

/-! ### Rendering -/

/-- The note at the end of a line of marks. -/
def noteText (message : String) : String := if message.isEmpty then "" else " " ++ message

/-- That many spaces. -/
def spaces (n : Nat) : String := String.ofList (List.replicate n ' ')

/-- The excerpt of a place inside one line. -/
def excerptOne (gutter : String) (number : String) (line : SourceLine) (label : Label) :
    List String :=
  let first := label.span.start - line.start
  let last := max (label.span.stop - line.start) (first + 1)
  [gutter ++ " │",
   number ++ " │ " ++ line.shownText,
   gutter ++ " │ " ++ line.carets first last ++ noteText label.message]

/-- The excerpt of a place that reaches from one line into another. If only blanks stand before
the place, the bracket starts beside the line, otherwise under it. -/
def excerptTwo (gutter : String) (number number' : String) (line line' : SourceLine)
    (label : Label) : List String :=
  let first := label.span.start - line.start
  let lead := Text.byteLength (line.shown.takeWhile Text.isBlank)
  let upper :=
    if first ≤ lead then [number ++ " │ ╭ " ++ line.shownText]
    else
      [number ++ " │   " ++ line.shownText,
       gutter ++ " │ ╭" ++ line.rule (first + 1) ++ "^"]
  [gutter ++ " │  "] ++ upper ++
    [number' ++ " │ │ " ++ line'.shownText,
     gutter ++ " │ ╰" ++ line'.rule (label.span.stop - line'.start) ++ "^" ++
       noteText label.message]

/-- The excerpt that a label points at, in a file with the given name. -/
def Label.excerpt (file source : String) (label : Label) : List String :=
  let lines := SourceLine.all source
  let i := SourceLine.indexOf lines label.span.start
  let j := SourceLine.indexOf lines label.span.stop
  let line := lines[i]?.getD ⟨0, []⟩
  let line' := lines[j]?.getD ⟨0, []⟩
  let pad := (toString (j + 1)).length
  let number (k : Nat) : String := spaces (pad - (toString (k + 1)).length) ++ toString (k + 1)
  let before := label.span.start - line.start
  let column := ((Cell.all line.chars).filter fun c => c.start < before).length + 1
  (spaces pad ++ " ┌─ " ++ file ++ ":" ++ toString (i + 1) ++ ":" ++ toString column) ::
    if i = j then excerptOne (spaces pad) (number i) line label
    else excerptTwo (spaces pad) (number i) (number j) line line' label

/-- The text of a diagnostic on a file with the given name and source. -/
def Diagnostic.render (file source : String) (d : Diagnostic) : String :=
  let excerpt :=
    match d.label with
    | some label => label.excerpt file source
    | none => []
  let lines := [d.severity.word ++ ": " ++ d.message] ++ excerpt ++ [""]
  String.join (lines.map (· ++ "\n"))

end LineBasic
