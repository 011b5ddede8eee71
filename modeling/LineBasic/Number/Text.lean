import LineBasic.Number.Form
import LineBasic.Number.Shortest

/-!
# The text of a number

A number is written with the fewest digits that read back as the same number, always
positionally: no exponent, no point in a whole number, and a minus sign also before a negative
zero.
-/

namespace LineBasic.Number

/-- The decimal digits of a natural number. -/
def digits (n : Nat) : List Char := Nat.toDigits 10 n

/-- The decimal `n · 10 ^ k` written out. Places between the digits and the point are filled with
zeros. -/
def positional (n : Nat) (k : Int) : List Char :=
  let places := (-k).toNat
  let all := digits n ++ List.replicate k.toNat '0'
  if places = 0 then all
  else
    let padded := List.replicate (places + 1 - all.length) '0' ++ all
    let whole := padded.length - places
    padded.take whole ++ '.' :: padded.drop whole

/-- A finite number without its sign. The numbers with mantissa `2 ^ 52` have a smaller unit
below, except for the smallest of them. -/
def unsignedText (m : Nat) (q : Int) : List Char :=
  if m = 0 then ['0']
  else
    let (n, k) := Shortest.decimal m q (m == 0x10000000000000 && -1074 < q)
    positional n k

/-- The characters of a number's text. -/
def chars (x : Number) : List Char :=
  match form x with
  | .notANumber => "NaN".toList
  | .infinite negative => if negative then "-inf".toList else "inf".toList
  | .finite negative m q => if negative then '-' :: unsignedText m q else unsignedText m q

/-- The text of a number. -/
def text (x : Number) : String := String.ofList (chars x)

end LineBasic.Number
