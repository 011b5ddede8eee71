/-!
# The form of a number

Numbers are IEEE 754 binary64 values. Arithmetic on them is the machine's own; everything the
language says about their order, their whole part and their text is read off the 64 bits:

* `Number.rank?`: the place of a number on the line of all numbers, with both zeros in one place
  and no place for a NaN;
* `Number.order?`: the order of two numbers, absent exactly when one of them is a NaN;
* `Number.form`: a number as a signed multiple of a power of two.
-/

namespace LineBasic

/-- A number of the language: an IEEE 754 binary64 value. -/
abbrev Number := Float

namespace Number

/-- The value after every finite number. -/
def infinity : Number := Float.ofBits 0x7FF0000000000000

/-- The result of an operation that has none. -/
def nan : Number := Float.ofBits 0x7FF8000000000000

/-! ### Order -/

/-- The bits without the sign, as a natural number. They grow with the absolute value. -/
def magnitude (x : Number) : Nat := x.toBits.toNat % 0x8000000000000000

/-- Whether the sign bit is set. -/
def signed (x : Number) : Bool := decide (0x8000000000000000 ≤ x.toBits.toNat)

/-- The magnitude of an infinity. Every larger magnitude is a NaN. -/
def infiniteMagnitude : Nat := 0x7FF0000000000000

/-- The place of a number on the line of all numbers. Both zeros are at place 0, and a NaN has
no place. -/
def rank? (x : Number) : Option Int :=
  if infiniteMagnitude < magnitude x then none
  else some (if signed x then -(magnitude x : Int) else magnitude x)

/-- The order of two numbers, absent when one of them is a NaN. -/
def order? (x y : Number) : Option Ordering :=
  match rank? x, rank? y with
  | some i, some j => some (compare i j)
  | _, _ => none

/-- Whether two numbers are in the same place. A NaN differs from every number. -/
def same (x y : Number) : Bool := order? x y == some .eq

/-- Whether `x` is at or before `y`. -/
def atMost (x y : Number) : Bool := order? x y == some .lt || order? x y == some .eq

/-- Whether a number is one of the two zeros. -/
def isZero (x : Number) : Bool := rank? x == some 0

theorem order?_eq_none_iff (x y : Number) :
    order? x y = none ↔ rank? x = none ∨ rank? y = none := by
  unfold order?
  cases rank? x <;> cases rank? y <;> simp

/-- Reading the order from the other side reverses it. -/
theorem order?_swap (x y : Number) : order? y x = (order? x y).map Ordering.swap := by
  unfold order?
  cases rank? x <;> cases rank? y <;> simp [← Std.OrientedOrd.eq_swap]

/-! ### Decoding -/

/-- What the bits of a number say: `finite s m q` is `m · 2 ^ q`, negated when `s` holds. -/
inductive Form where
  | notANumber
  | infinite (negative : Bool)
  | finite (negative : Bool) (mantissa : Nat) (exponent : Int)
deriving DecidableEq

/-- The form of a number. The lowest 52 bits are the fraction. The eleven exponent bits above them
give the scale; when they are all clear the mantissa has no leading one. -/
def form (x : Number) : Form :=
  let scale : Nat := magnitude x / 0x10000000000000
  let fraction := magnitude x % 0x10000000000000
  if infiniteMagnitude < magnitude x then .notANumber
  else if scale = 2047 then .infinite (signed x)
  else if scale = 0 then .finite (signed x) fraction (-1074)
  else .finite (signed x) (0x10000000000000 + fraction) ((scale : Int) - 1075)

end Number

end LineBasic
