/-! Double-precision numbers as exact data.

The non-negative doubles, infinity included, are numbered in ascending order: the `place` of a double
is its number in that list, and its value in units of `2 ^ -1074` is `unitsAt` of the place. A double
is a place and a sign; the places above that of infinity are the NaNs. Every operation computes the
exact result and takes the place nearest to it, so that all of the arithmetic is arithmetic on `Nat`
and `Int`. -/

namespace Cadence

/-- The bit for the sign among the bits of a double. All places are below it. -/
def Double.signBit : Nat := Nat.pow 2 63

/-- A double by its sign and its place in the ascending list of non-negative doubles. -/
structure Double where
  negative : Bool
  place : Nat
  place_lt : place < Double.signBit
  deriving DecidableEq

namespace Double

/-- How many doubles there are from one power of two to the next. -/
def binade : Nat := Nat.pow 2 52

/-- The place of infinity, which comes after 2047 exponents. -/
def infinityPlace : Nat := 2047 * binade

/-- The value at a place in units of `2 ^ -1074`, the least positive double. The places of the first two
exponents are one unit apart; from then on the distance doubles with every exponent. -/
def unitsAt (place : Nat) : Nat :=
  if place < binade then place else (binade + place % binade) * Nat.pow 2 (place / binade - 1)

/-- The number one in units. -/
def unitsInOne : Nat := Nat.pow 2 1074

/-- The last place whose value is at most `units`. -/
def placeBelow (units : Nat) : Nat :=
  let scale := units.log2 - 52
  scale * binade + units / Nat.pow 2 scale

/-- The place nearest to `numerator / denominator` units. Half-way cases go to the even place, and all
that is nearer to `2 ^ 1024` than to the last finite double goes to infinity. -/
def placeNearest (numerator denominator : Nat) : Nat :=
  let below := placeBelow (numerator / denominator)
  let middle := (unitsAt below + unitsAt (below + 1)) * denominator
  let nearest :=
    if 2 * numerator < middle then below
    else if middle < 2 * numerator then below + 1
    else below + below % 2
  min nearest infinityPlace

/-- The double nearest to a ratio of units. -/
def ofRatio (negative : Bool) (numerator denominator : Nat) : Double where
  negative
  place := placeNearest numerator denominator
  place_lt := Nat.lt_of_le_of_lt (Nat.min_le_right _ _) (by decide)

def ofUnits (units : Int) : Double := ofRatio (units < 0) units.natAbs 1

/-- The double nearest to a whole number. -/
def ofInt (number : Int) : Double := ofUnits (number * unitsInOne)

def zero : Double := ⟨false, 0, by decide⟩

def infinity : Double := ⟨false, infinityPlace, by decide⟩

/-- A NaN that was written as such. -/
def nan : Double := ⟨false, infinityPlace + binade / 2, by decide⟩

/-- The answer of an operation that has none, such as the difference of two infinities. It stands
below all numbers in the total order, where `nan` stands above them. -/
def invalid : Double := ⟨true, infinityPlace + binade / 2, by decide⟩

def isNaN (x : Double) : Bool := infinityPlace < x.place

def isInfinite (x : Double) : Bool := x.place == infinityPlace

def isZero (x : Double) : Bool := x.place == 0

/-- The signed value in units. An infinity has the value that would follow the last finite double. -/
def units (x : Double) : Int := if x.negative then -(unitsAt x.place) else unitsAt x.place

def toBits (x : Double) : UInt64 := UInt64.ofNat (if x.negative then signBit + x.place else x.place)

/-! In arithmetic, a NaN among the operands is the answer, the left one first. -/

protected def neg (x : Double) : Double := { x with negative := !x.negative }

protected def add (x y : Double) : Double :=
  if x.isNaN then x
  else if y.isNaN then y
  else if x.isInfinite then if y.isInfinite && x.negative != y.negative then invalid else x
  else if y.isInfinite then y
  else
    let sum := x.units + y.units
    if sum = 0 then ⟨x.negative && y.negative, 0, by decide⟩ else ofUnits sum

protected def sub (x y : Double) : Double := if y.isNaN && !x.isNaN then y else x.add y.neg

protected def mul (x y : Double) : Double :=
  let negative := x.negative != y.negative
  if x.isNaN then x
  else if y.isNaN then y
  else if x.isInfinite || y.isInfinite then
    if x.isZero || y.isZero then invalid else { infinity with negative }
  else ofRatio negative (unitsAt x.place * unitsAt y.place) unitsInOne

protected def div (x y : Double) : Double :=
  let negative := x.negative != y.negative
  if x.isNaN then x
  else if y.isNaN then y
  else if x.isInfinite then if y.isInfinite then invalid else { infinity with negative }
  else if y.isInfinite then { zero with negative }
  else if y.isZero then if x.isZero then invalid else { infinity with negative }
  else ofRatio negative (unitsAt x.place * unitsInOne) (unitsAt y.place)

instance : Neg Double := ⟨Double.neg⟩
instance : Add Double := ⟨Double.add⟩
instance : Sub Double := ⟨Double.sub⟩
instance : Mul Double := ⟨Double.mul⟩
instance : Div Double := ⟨Double.div⟩
instance (number : Nat) : OfNat Double number := ⟨ofInt number⟩
instance : Inhabited Double := ⟨zero⟩

/-- The place counted downwards for negative numbers. The two zeros share level zero. -/
def level (x : Double) : Int := if x.negative then -x.place else x.place

/-- The position in the total order of all doubles: negative NaN, negative numbers, `-0`, `0`, positive
numbers, positive NaN. -/
def rank (x : Double) : Int := if x.negative then -x.place - 1 else x.place

def lt (x y : Double) : Bool := !x.isNaN && !y.isNaN && x.level < y.level

def le (x y : Double) : Bool := !x.isNaN && !y.isNaN && x.level ≤ y.level

/-- Equality of numbers: the two zeros are the same and a NaN differs from itself. -/
def same (x y : Double) : Bool := !x.isNaN && !y.isNaN && x.level == y.level

/-- The smaller number. A NaN gives way to the other operand. -/
protected def min (x y : Double) : Double := if y.isNaN || x.le y then x else y

/-- The larger number. A NaN gives way to the other operand. -/
protected def max (x y : Double) : Double := if y.isNaN || y.le x then x else y

def floorInt (x : Double) : Int := x.units / unitsInOne

/-- The greatest whole number that is not above `x`; infinities and NaNs are kept. -/
def floor (x : Double) : Double := if infinityPlace ≤ x.place then x else ofInt x.floorInt

/-- The least whole number that is not below `x`; infinities and NaNs are kept. -/
def ceil (x : Double) : Double := if infinityPlace ≤ x.place then x else ofInt (-(-x.units / unitsInOne))

/-- A whole number forced into the range of signed 64-bit words. -/
def saturate (number : Int) : Int := max Int64.minValue.toInt (min number Int64.maxValue.toInt)

/-- The whole part as a signed 64-bit number. What lies outside of the range goes to its nearer end,
and NaN to zero. -/
def truncate (x : Double) : Int := if x.isNaN then 0 else saturate (x.units.tdiv unitsInOne)

end Double

end Cadence
