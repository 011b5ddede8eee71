/-!
# Shortest decimals

A positive binary fraction `m · 2 ^ q` stands for all reals that round to it. `Shortest.decimal`
picks, among the decimals `n · 10 ^ k` in that interval, one with the largest `k`, and of two such
decimals the nearer one; a tie goes to the larger.

All comparisons are made in natural numbers: the interval is measured in quarters of the unit
`2 ^ q`, so that its ends are whole, and a decimal is compared with it by multiplying both by the
powers of two and ten that clear all denominators.
-/

namespace LineBasic.Number.Shortest

/-- The reals that round to one binary fraction, in units of `2 ^ (q - 2)`: all strictly between
`low` and `high`, and the ends too when `closed` holds. -/
structure Interval where
  low : Nat
  middle : Nat
  high : Nat
  closed : Bool

/-- The interval of `m · 2 ^ q`. It reaches half a unit to both sides, and half as far down when
the number below has a smaller unit. A real halfway between two numbers rounds to the one with
the even mantissa. -/
def Interval.around (m : Nat) (smallerUnitBelow : Bool) : Interval where
  low := if smallerUnitBelow then 4 * m - 1 else 4 * m - 2
  middle := 4 * m
  high := 4 * m + 2
  closed := m % 2 == 0

/-- Whether `n` steps of size `step` lie in the interval whose unit is `unit`. -/
def Interval.holds (i : Interval) (unit step n : Nat) : Bool :=
  if i.closed then i.low * unit ≤ n * step && n * step ≤ i.high * unit
  else i.low * unit < n * step && n * step < i.high * unit

/-- The multiple of `step` that is in the interval and nearest to its middle, if there is one
among the two neighbours of the middle. -/
def Interval.nearest? (i : Interval) (unit step : Nat) : Option Nat :=
  let below := i.middle * unit / step
  let gapBelow := i.middle * unit - below * step
  let gapAbove := (below + 1) * step - i.middle * unit
  let takeBelow := i.holds unit step below
  let takeAbove := i.holds unit step (below + 1)
  if takeBelow && (!takeAbove || gapBelow < gapAbove) then some below
  else if takeAbove then some (below + 1)
  else none

/-- The decimal `n · 10 ^ k` with this `k` that stands for the interval with exponent `q`. -/
def decimalAt? (i : Interval) (q k : Int) : Option (Nat × Int) :=
  let unit := Nat.pow 10 (-k).toNat <<< (q - 2).toNat
  let step := Nat.pow 10 k.toNat <<< (2 - q).toNat
  (i.nearest? unit step).map fun n => (n, k)

/-- A power of ten above `m · 2 ^ q`, by at most a few places: 30103 / 100000 is just above the
number of decimal places in a binary one. -/
def roughPlaces (m : Nat) (q : Int) : Int := ((m.log2 : Int) + 1 + q) * 30103 / 100000 + 2

/-- The decimals to try, coarsest first. Seventeen digits tell all numbers apart, and the rough
estimate is at most three places too high. -/
def candidates (m : Nat) (q : Int) : List Int :=
  (List.range 22).map fun (i : Nat) => roughPlaces m q - i

/-- The shortest decimal `n · 10 ^ k` that reads back as `m · 2 ^ q`, as the pair `(n, k)`. -/
def decimal (m : Nat) (q : Int) (smallerUnitBelow : Bool) : Nat × Int :=
  let i := Interval.around m smallerUnitBelow
  ((candidates m q).findSome? (decimalAt? i q)).getD (0, 0)

end LineBasic.Number.Shortest
