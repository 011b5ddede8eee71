import LineBasic.Text.Range

/-!
# Blank characters

The white space of Unicode: spaces of all widths, tabs, and the characters that separate lines
and paragraphs.

* `trim`: a text without the blanks at its ends;
* `trimBreaks`: a text without the line breaks at its end.
-/

namespace LineBasic.Text

/-- The ranges of white space. -/
def blankRanges : List Range :=
  [(0x9, 0xD), (0x20, 0x20), (0x85, 0x85), (0xA0, 0xA0), (0x1680, 0x1680), (0x2000, 0x200A),
   (0x2028, 0x2029), (0x202F, 0x202F), (0x205F, 0x205F), (0x3000, 0x3000)]

/-- Whether a character is white space. -/
def isBlank (c : Char) : Bool := inRanges blankRanges c

/-- Whether a character is a part of a line break. -/
def isBreak (c : Char) : Bool := c == '\n' || c == '\r'

/-- A text without the characters of a class at its end. -/
def dropEnd (p : Char → Bool) (cs : List Char) : List Char := (cs.reverse.dropWhile p).reverse

/-- A text without the blanks at its ends. -/
def trim (cs : List Char) : List Char := dropEnd isBlank (cs.dropWhile isBlank)

/-- A text without the line breaks at its end. -/
def trimBreaks (cs : List Char) : List Char := dropEnd isBreak cs

end LineBasic.Text
