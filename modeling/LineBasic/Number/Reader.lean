import LineBasic.Number.Form

/-!
# Reading a number

The decimal notation of numbers: an optional sign, then a name for infinity or for a NaN, or
digits with an optional point and an optional power of ten. Reading rounds to the nearest number,
and to an infinity beyond the largest one.

* `Number.ofDecimal`: the number nearest to a decimal;
* `Number.ofChars?`: the number a text denotes, if it is in the notation.
-/

namespace LineBasic.Number

/-- The value of a run of decimal digits. -/
def digitsValue (digits : List Char) : Nat :=
  digits.foldl (fun value d => 10 * value + (d.toNat - '0'.toNat)) 0

/-- The number nearest to `whole . fraction · 10 ^ power`. A decimal with its first digit beyond
the 310th place is above all finite numbers, and one with its first digit after the 330th place
below the point is nearest to zero. -/
def ofDecimal (whole fraction : List Char) (power : Int) : Number :=
  let all := whole ++ fraction
  let mantissa := digitsValue all
  let exponent := power - fraction.length
  let places := ((all.dropWhile (· == '0')).length : Int) + exponent
  if mantissa = 0 then 0
  else if 310 < places then infinity
  else if places < -330 then 0
  else Float.ofScientific mantissa (exponent < 0) exponent.natAbs

/-- The power of ten that ends a number, or 0 where the text ends before it. -/
def powerOfTen? : List Char → Option Int
  | [] => some 0
  | e :: cs =>
    if e == 'e' || e == 'E' then
      let (negative, ds) :=
        match cs with
        | '-' :: ds => (true, ds)
        | '+' :: ds => (false, ds)
        | ds => (false, ds)
      if ds.isEmpty || !ds.all Char.isDigit then none
      else some (if negative then -(digitsValue ds : Int) else digitsValue ds)
    else none

/-- A number without sign, written in digits. At least one digit stands beside the point. -/
def ofDigits? (cs : List Char) : Option Number :=
  let whole := cs.takeWhile Char.isDigit
  let (fraction, rest) :=
    match cs.dropWhile Char.isDigit with
    | '.' :: more => (more.takeWhile Char.isDigit, more.dropWhile Char.isDigit)
    | more => ([], more)
  if whole.isEmpty && fraction.isEmpty then none
  else (powerOfTen? rest).map (ofDecimal whole fraction)

/-- A number without sign: a name in any case, or digits. -/
def ofUnsigned? (cs : List Char) : Option Number :=
  let word := String.ofList (cs.map Char.toLower)
  if word == "inf" || word == "infinity" then some infinity
  else if word == "nan" then some nan
  else ofDigits? cs

/-- The number a text denotes, if it denotes one. -/
def ofChars? : List Char → Option Number
  | '-' :: cs => (ofUnsigned? cs).map fun x => -x
  | '+' :: cs => ofUnsigned? cs
  | cs => ofUnsigned? cs

end LineBasic.Number
