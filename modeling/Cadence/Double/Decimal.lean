import Cadence.Double.Basic

/-! Doubles and decimal numbers.

Reading takes the double nearest to a decimal. Writing takes the shortest decimal that reads back: for
one digit, two digits and so on the two neighbours of the value on the decimal grid are tried, all in
exact arithmetic, until one of them lies in the interval of the numbers that round to the value. -/

namespace Cadence

/-- The number `digits * 10 ^ exponent`. -/
structure Decimal where
  digits : Nat
  exponent : Int
  deriving DecidableEq

namespace Decimal

/-- The double nearest to a decimal. -/
def toDouble (negative : Bool) (number : Decimal) : Double :=
  let units := number.digits * Double.unitsInOne
  match number.exponent with
  | .ofNat power => .ofRatio negative (units * Nat.pow 10 power) 1
  | .negSucc power => .ofRatio negative units (Nat.pow 10 (power + 1))

/-- Like `toDouble`, for exponents of any size: `10 ^ 310` is above every double and one tenth to the
power of 330 below every positive one. -/
def toDoubleWide (negative : Bool) (number : Decimal) : Double :=
  if number.digits = 0 then { Double.zero with negative }
  else if 310 < number.exponent then { Double.infinity with negative }
  else if number.exponent + (Nat.toDigits 10 number.digits).length < -330 then { Double.zero with negative }
  else number.toDouble negative

/-- Drops the zeros at the end of the digits, at most `count` of them. -/
def trim : (count : Nat) → Decimal → Decimal
  | 0, number => number
  | count + 1, number =>
    if number.digits % 10 = 0 then trim count ⟨number.digits / 10, number.exponent + 1⟩ else number

end Decimal

namespace Double

/-- Which way a value goes that lies half-way between the two shortest decimals. -/
inductive Tie where
  | up
  | toEven
  deriving DecidableEq

/-- The decimals that are tried have steps of at least `10 ^ -finest`. -/
def finest : Nat := 350

/-- The value at a place in units of `2 ^ -1074 * 10 ^ -finest`. -/
def fineUnitsAt (place : Nat) : Nat := unitsAt place * Nat.pow 10 finest

/-- Whether the number `candidate`, given in twice the fine units, rounds to the double at `place`. The
two ends of the interval round to the even one of their neighbours. -/
def roundsTo (place candidate : Nat) : Bool :=
  let least := fineUnitsAt (place - 1) + fineUnitsAt place
  let greatest := fineUnitsAt place + fineUnitsAt (place + 1)
  if place % 2 = 0 then least ≤ candidate && candidate ≤ greatest
  else least < candidate && candidate < greatest

/-- How many digits stand before the last of the `finest` decimal places, for the value at a place. -/
def fineLength (place : Nat) : Nat := (Nat.toDigits 10 (fineUnitsAt place / unitsInOne)).length

/-- The decimal, if any, with a step of `10 ^ exponent` in fine units that rounds to the double at
`place`; of two the nearer. -/
def decimalOf? (tie : Tie) (place exponent : Nat) : Option Decimal :=
  let step := unitsInOne * Nat.pow 10 exponent
  let below := fineUnitsAt place / step
  let lower := roundsTo place (2 * below * step)
  let upper := roundsTo place (2 * (below + 1) * step)
  let twiceOver := 2 * (fineUnitsAt place % step)
  let upwards :=
    if lower && upper then
      step < twiceOver || (step == twiceOver && (tie == .up || below % 2 == 1))
    else upper
  if lower || upper then
    some ⟨if upwards then below + 1 else below, (exponent : Int) - finest⟩
  else none

/-- The shortest decimal that reads back as the double at a place. Seventeen digits always suffice. -/
def shortestAt (tie : Tie) (place : Nat) : Decimal :=
  if place = 0 then ⟨0, 0⟩
  else
    let length := fineLength place
    let found := (List.range 17).findSome? fun count => decimalOf? tie place (length - (count + 1))
    (found.getD ⟨0, 0⟩).trim 17

end Double

namespace Decimal

/-- The digits of a number with the point behind the last of them moved `-exponent` places to the left
or filled up with zeros to the right, as a whole part and a fraction without its point. -/
def parts (number : Decimal) : List Char × List Char :=
  let digits := Nat.toDigits 10 number.digits
  match number.exponent with
  | .ofNat zeros => (digits ++ List.replicate zeros '0', [])
  | .negSucc before =>
    let places := before + 1
    if places < digits.length then digits.splitAt (digits.length - places)
    else (['0'], List.replicate (places - digits.length) '0' ++ digits)

/-- Positional digits, with a point only before a fraction. -/
def positional (number : Decimal) : List Char :=
  match number.parts with
  | (whole, []) => whole
  | (whole, fraction) => whole ++ '.' :: fraction

/-- The exponent of ten of the leading digit. -/
def leadingExponent (number : Decimal) : Int :=
  number.exponent + ((Nat.toDigits 10 number.digits).length : Int) - 1

end Decimal

namespace Double

/-- The plain text of a double: its shortest digits in positional notation, however many zeros that
takes, and no point for a whole number. -/
def plain (x : Double) : String :=
  if x.isNaN then "NaN"
  else
    let digits := if x.isInfinite then "inf".toList else (shortestAt .up x.place).positional
    String.ofList (if x.negative then '-' :: digits else digits)

/-- The text of a finite double with a fixed number of places. What lies half-way between two texts
takes the one with the even last digit. -/
def fixed (places : Nat) (x : Double) : String :=
  if x.isNaN || x.isInfinite then x.plain
  else
    let scaled := unitsAt x.place * Nat.pow 10 places
    let below := scaled / unitsInOne
    let twiceOver := 2 * (scaled % unitsInOne)
    let rounded :=
      if unitsInOne < twiceOver ∨ (unitsInOne = twiceOver ∧ below % 2 = 1) then below + 1 else below
    let digits := Nat.toDigits 10 rounded
    let padded := List.replicate (places + 1 - digits.length) '0' ++ digits
    let (whole, fraction) := padded.splitAt (padded.length - places)
    let text := if places = 0 then whole else whole ++ '.' :: fraction
    String.ofList (if x.negative then '-' :: text else text)

end Double

end Cadence
