import LineBasic.Token

/-!
# Reading tokens

A `Cursor` stands before the tokens that are still to be read and remembers the span of the one
before it. What a reader returns is a `Reading`: the value read and the cursor after it, with a
bound on the tokens left, which is why readers that call each other come to an end.

* `ParseError`: what was expected or forbidden, and where.
-/

namespace LineBasic

/-! ### Errors -/

/-- What a reader was looking for. -/
inductive Expectation where
  | expression
  | statement
  | identifier
  | lineNumber
  | lineEnd
  | token (kind : Kind)
deriving DecidableEq

/-- Why tokens are no program. -/
inductive ParseFault where
  | expected (what : Expectation) (found : Option Kind)
  | invalidLineNumber (value : Number)
  | duplicateLine (number : Nat)
deriving DecidableEq

/-- Why tokens are no program, and where. -/
structure ParseError where
  fault : ParseFault
  span : Span
deriving DecidableEq

/-- How an expectation is worded. -/
def Expectation.display : Expectation → String
  | .expression => "expression"
  | .statement => "statement"
  | .identifier => "identifier"
  | .lineNumber => "line number"
  | .lineEnd => "end of line"
  | .token kind => kind.display

/-- The wording of a fault. -/
def ParseFault.message : ParseFault → String
  | .expected what found =>
    "expected " ++ what.display ++ ", found " ++ (found.map Kind.display).getD "end of file"
  | .invalidLineNumber x => "invalid line number " ++ Number.text x
  | .duplicateLine n => "duplicate line number " ++ toString n

/-- The wording of a parse error. -/
def ParseError.message (e : ParseError) : String := e.fault.message

/-! ### Cursors -/

/-- The tokens still to be read, and the span of the token before them. -/
structure Cursor where
  last : Span
  rest : List Token
deriving DecidableEq

namespace Cursor

/-- The cursor before the first token. -/
def start (tokens : List Token) : Cursor := ⟨.origin, tokens⟩

/-- The kind of the next token. -/
def kind? (c : Cursor) : Option Kind := c.rest.head?.map Token.kind

/-- The span of the next token, or the empty span after the last one. -/
def span (c : Cursor) : Span :=
  match c.rest with
  | [] => .point c.last.stop
  | t :: _ => t.span

/-- Whether the line ends here: before a line break or after the last token. -/
def atLineEnd (c : Cursor) : Bool := c.kind? == none || c.kind? == some .newline

/-- The cursor after all line breaks that stand here. -/
def skipBreaks (c : Cursor) : Cursor :=
  match c with
  | ⟨last, []⟩ => ⟨last, []⟩
  | ⟨last, t :: ts⟩ => if t.kind = .newline then skipBreaks ⟨t.span, ts⟩ else ⟨last, t :: ts⟩
termination_by c.rest.length

theorem skipBreaks_length (c : Cursor) : c.skipBreaks.rest.length ≤ c.rest.length := by
  fun_induction skipBreaks c with
  | case1 => simp
  | case2 last t ts h ih => exact Nat.le_succ_of_le ih
  | case3 => simp

/-- The bound of a reading that takes no token. -/
theorem length_lt_succ (c : Cursor) : c.rest.length < c.rest.length + 1 := Nat.lt_succ_self _

/-- The bound of a reading that takes one token. -/
theorem length_lt_cons (rest : List Token) : rest.length < rest.length + 1 := Nat.lt_succ_self _

/-- The error that something else was expected here. -/
def expected (c : Cursor) (what : Expectation) : ParseError := ⟨.expected what c.kind?, c.span⟩

end Cursor

/-! ### Readings -/

/-- A value that was read and the cursor after it, with fewer than `bound` tokens left. -/
structure Reading (bound : Nat) (α : Type) where
  value : α
  next : Cursor
  short : next.rest.length < bound

namespace Reading

/-- A larger bound. -/
def relax {α : Type} {bound bound' : Nat} (r : Reading bound α) (h : bound ≤ bound') :
    Reading bound' α :=
  ⟨r.value, r.next, Nat.lt_of_lt_of_le r.short h⟩

end Reading

namespace Cursor

/-- Reads one token of a given kind. -/
def expect (c : Cursor) (kind : Kind) : Except ParseError (Reading c.rest.length Unit) :=
  match c with
  | ⟨_, t :: ts⟩ =>
    if t.kind = kind then .ok ⟨(), ⟨t.span, ts⟩, Nat.lt_succ_self _⟩
    else .error (Cursor.expected c (.token kind))
  | ⟨_, []⟩ => .error (Cursor.expected c (.token kind))

/-- Reads one token of a given kind if it stands here. -/
def accept? (c : Cursor) (kind : Kind) : Option (Reading c.rest.length Unit) :=
  (c.expect kind).toOption

/-- Reads a name. -/
def ident (c : Cursor) : Except ParseError (Reading c.rest.length String) :=
  match c with
  | ⟨_, ⟨.ident name, s, _, _⟩ :: ts⟩ => .ok ⟨name, ⟨s, ts⟩, Nat.lt_succ_self _⟩
  | c => .error (c.expected .identifier)

end Cursor

end LineBasic
