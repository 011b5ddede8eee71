import LineBasic.Number.Form

/-!
# Whole parts

The whole part of a number, taken exactly from its mantissa and exponent.

* `Number.isWhole`: finite and without a fractional part;
* `Number.wholePart`: the number cut toward zero, for a finite number;
* `Number.toLine`: the line that a number names as a jump target, kept within 64 bits.
-/

namespace LineBasic.Number

/-- Whether a number is finite and has no fractional part. -/
def isWhole (x : Number) : Bool :=
  match form x with
  | .finite _ m q => 0 ≤ q || m % (1 <<< (-q).toNat) == 0
  | _ => false

/-- A finite number cut toward zero. Infinities and NaN have no whole part and give 0. -/
def wholePart (x : Number) : Int :=
  match form x with
  | .finite negative m q =>
    let size : Nat := m <<< q.toNat >>> (-q).toNat
    if negative then -size else size
  | _ => 0

/-- The least line a jump can name. -/
def minLine : Int := -0x8000000000000000

/-- The greatest line a jump can name. -/
def maxLine : Int := 0x7FFFFFFFFFFFFFFF

/-- The line a number names: its whole part, kept between `minLine` and `maxLine`. A NaN names
line 0. -/
def toLine (x : Number) : Int :=
  match form x with
  | .notANumber => 0
  | .infinite negative => if negative then minLine else maxLine
  | .finite .. => max minLine (min maxLine (wholePart x))

end LineBasic.Number
