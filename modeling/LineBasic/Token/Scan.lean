import LineBasic.Number.Reader
import LineBasic.Text.Bytes
import LineBasic.Token

/-!
# Scanning

Program text is cut from left to right into lexemes, each the longest that fits at its place.
Blanks and remarks are gaps; every other lexeme is a token. Letters have no case outside text
literals: names and keywords are taken in capitals.

* `lexeme?`: the longest lexeme at the front of a text;
* `scan`: the tokens of a text, or the first place where no lexeme fits.
-/

namespace LineBasic

namespace Scan

/-! ### Classes of characters -/

/-- Spaces, tabs and form feeds, which separate tokens. -/
def isGap (c : Char) : Bool := c == ' ' || c == '\t' || c == '\x0c'

/-- Letters and the underscore, which start a word. -/
def isWordStart (c : Char) : Bool := c.isAlpha || c == '_'

/-- What continues a word. -/
def isWordRest (c : Char) : Bool := isWordStart c || c.isDigit

/-- Every character that can stand in a remark: all but the parts of a line break. -/
def inRemark (c : Char) : Bool := c != '\r' && c != '\n'

/-- Every character that can stand in a text literal. -/
def inString (c : Char) : Bool := c != '"' && inRemark c

/-! ### Lexemes -/

/-- What a lexeme stands for: nothing, or a token. -/
inductive Lexeme where
  | gap
  | token (kind : Kind)
deriving DecidableEq

/-- A word in capitals. -/
def capitals (cs : List Char) : String := String.ofList (cs.map Char.toUpper)

/-- The number of characters of a remark's text. It is there only after a space or a tab. -/
def remarkLength : List Char → Nat
  | [] => 0
  | c :: cs => if c == ' ' || c == '\t' then (cs.takeWhile inRemark).length + 1 else 0

/-- The lexeme that starts with a letter or an underscore: a remark, a keyword or a name. -/
def wordLexeme (c : Char) (cs : List Char) : Lexeme × Nat :=
  let more := cs.takeWhile isWordRest
  let word := capitals (c :: more)
  if word == "REM" then (.gap, more.length + remarkLength (cs.dropWhile isWordRest))
  else
    match Keyword.ofWord? word with
    | some k => (.token (.keyword k), more.length)
    | none => (.token (.ident word), more.length)

/-- The lexeme that starts with a digit. A point belongs to it even if no digit follows. -/
def numberLexeme (c : Char) (cs : List Char) : Lexeme × Nat :=
  let whole := cs.takeWhile Char.isDigit
  match cs.dropWhile Char.isDigit with
  | '.' :: more =>
    let fraction := more.takeWhile Char.isDigit
    (.token (.number (Number.ofDecimal (c :: whole) fraction 0)),
      whole.length + 1 + fraction.length)
  | _ => (.token (.number (Number.ofDecimal (c :: whole) [] 0)), whole.length)

/-- The lexeme after a quote: a text literal, if a second quote ends it on its line. -/
def stringLexeme? (cs : List Char) : Option (Lexeme × Nat) :=
  let body := cs.takeWhile inString
  match cs.dropWhile inString with
  | '"' :: _ => some (.token (.string (String.ofList body)), body.length + 1)
  | _ => none

/-- The lexeme that starts with a mark: an operator, punctuation or a line break. -/
def markLexeme? (c : Char) (cs : List Char) : Option (Lexeme × Nat) :=
  let operator (op : BinaryOp) (more : Nat) : Option (Lexeme × Nat) :=
    some (.token (.operator op), more)
  match c, cs with
  | '+', _ => operator (.arith .add) 0
  | '-', _ => operator (.arith .sub) 0
  | '*', _ => operator (.arith .mul) 0
  | '/', _ => operator (.arith .div) 0
  | '=', _ => operator (.rel .eq) 0
  | '<', '>' :: _ => operator (.rel .ne) 1
  | '<', '=' :: _ => operator (.rel .le) 1
  | '<', _ => operator (.rel .lt) 0
  | '>', '<' :: _ => operator (.rel .ne) 1
  | '>', '=' :: _ => operator (.rel .ge) 1
  | '>', _ => operator (.rel .gt) 0
  | '(', _ => some (.token .leftParen, 0)
  | ')', _ => some (.token .rightParen, 0)
  | ',', _ => some (.token .comma, 0)
  | '\n', _ => some (.token .newline, 0)
  | '\r', '\n' :: _ => some (.token .newline, 1)
  | _, _ => none

/-- The longest lexeme at the front of the text `c :: cs`, with the number of characters of `cs`
that belong to it. -/
def lexeme? (c : Char) (cs : List Char) : Option (Lexeme × Nat) :=
  if isGap c then some (.gap, (cs.takeWhile isGap).length)
  else if isWordStart c then some (wordLexeme c cs)
  else if c.isDigit then some (numberLexeme c cs)
  else if c == '"' then stringLexeme? cs
  else markLexeme? c cs

/-! ### Places -/

/-- How far the scan has come: the offset in bytes, the number of the line and the offset of its
first byte. -/
structure Position where
  offset : Nat
  line : Nat
  lineStart : Nat
deriving DecidableEq

namespace Position

/-- The first place of a text. -/
def start : Position := ⟨0, 1, 0⟩

/-- The column of a place, in bytes. -/
def column (p : Position) : Nat := p.offset - p.lineStart + 1

/-- The span of the text that starts at a place. -/
def span (p : Position) (text : List Char) : Span := ⟨p.offset, p.offset + Text.byteLength text⟩

/-- The place after a lexeme. -/
def after (p : Position) (text : List Char) (lexeme : Lexeme) : Position :=
  let stop := p.offset + Text.byteLength text
  if lexeme = .token .newline then ⟨stop, p.line + 1, stop⟩
  else { p with offset := stop }

end Position

end Scan

/-- Text that is no lexeme, and where it stands. -/
structure ScanError where
  slice : String
  span : Span
  line : Nat
  column : Nat
deriving DecidableEq

/-- The wording of a scan's failure. -/
def ScanError.message (e : ScanError) : String :=
  "unexpected character '" ++ e.slice ++ "' at " ++ toString e.line ++ ":" ++ toString e.column

namespace Scan

/-- The characters blamed where no lexeme fits: one, or all of a text literal without end. -/
def blamed (c : Char) (cs : List Char) : List Char :=
  if c == '"' then c :: cs.takeWhile inString else [c]

/-- The failure at a place. -/
def Position.error (p : Position) (c : Char) (cs : List Char) : ScanError :=
  ⟨String.ofList (blamed c cs), p.span (blamed c cs), p.line, p.column⟩

/-- The tokens that a lexeme adds. -/
def Position.tokens (p : Position) (text : List Char) : Lexeme → List Token
  | .gap => []
  | .token kind => [⟨kind, p.span text, p.line, p.column⟩]

/-- The tokens of the text from a place on. -/
def scanFrom (p : Position) : List Char → Except ScanError (List Token)
  | [] => .ok []
  | c :: cs =>
    match lexeme? c cs with
    | none => .error (p.error c cs)
    | some (lexeme, n) =>
      let text := c :: cs.take n
      match scanFrom (p.after text lexeme) (cs.drop n) with
      | .error e => .error e
      | .ok tokens => .ok (p.tokens text lexeme ++ tokens)
termination_by cs => cs.length
decreasing_by
  simp only [List.length_drop, List.length_cons]
  omega

end Scan

/-- The tokens of a text. -/
def scan (source : String) : Except ScanError (List Token) :=
  Scan.scanFrom .start source.toList

end LineBasic
