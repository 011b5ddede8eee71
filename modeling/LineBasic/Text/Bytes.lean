/-!
# Texts as bytes

Offsets into program text count the bytes of its UTF-8 form, and the input and output of a
program are bytes.

* `byteLength`: the number of bytes of a list of characters;
* `splitLines`: bytes cut after each line feed;
* `decode`: bytes as text, with one replacement character for a character cut off at the end.
-/

namespace LineBasic.Text

/-- The number of bytes of a list of characters. -/
def byteLength : List Char → Nat
  | [] => 0
  | c :: cs => c.utf8Size + byteLength cs

@[simp]
theorem byteLength_nil : byteLength [] = 0 := rfl

@[simp]
theorem byteLength_cons (c : Char) (cs : List Char) :
    byteLength (c :: cs) = c.utf8Size + byteLength cs := rfl

@[simp]
theorem byteLength_append (cs ds : List Char) :
    byteLength (cs ++ ds) = byteLength cs + byteLength ds := by
  induction cs with
  | nil => simp
  | cons c cs ih => simp [ih, Nat.add_assoc]

/-- The bytes up to and with the first line feed. -/
def firstLine : List UInt8 → List UInt8
  | [] => []
  | b :: bs => if b == 10 then [b] else b :: firstLine bs

/-- The bytes after the first line feed. -/
def afterLine : List UInt8 → List UInt8
  | [] => []
  | b :: bs => if b == 10 then bs else afterLine bs

theorem afterLine_length (b : UInt8) (bs : List UInt8) :
    (afterLine (b :: bs)).length ≤ bs.length := by
  induction bs generalizing b with
  | nil => simp [afterLine]
  | cons c cs ih =>
    rw [afterLine]
    split
    · simp
    · exact Nat.le_succ_of_le (ih c)

/-- The lines of a stream of bytes, each with its line feed. The last one may lack it. -/
def splitLines : List UInt8 → List (List UInt8)
  | [] => []
  | b :: bs => firstLine (b :: bs) :: splitLines (afterLine (b :: bs))
termination_by bs => bs.length
decreasing_by
  have := afterLine_length b bs
  simp only [List.length_cons]
  omega

/-- The text of a list of bytes, if they are the UTF-8 form of one. -/
def ofBytes? (bytes : List UInt8) : Option String := String.fromUTF8? ⟨bytes.toArray⟩

/-- The text that bytes begin, when at most three of them, the start of a character, follow it.
A character cut off in this way is shown as the replacement character. -/
def decode (bytes : ByteArray) : String :=
  let cut? (k : Nat) : Option String :=
    (String.fromUTF8? (bytes.extract 0 (bytes.size - k))).map fun text =>
      if k = 0 then text else text.push '\uFFFD'
  ((List.range 4).findSome? cut?).getD ""

end LineBasic.Text
