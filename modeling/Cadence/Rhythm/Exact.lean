import Cadence.Rhythm.TimeScale

/-! The rationals as a time scale, on which all arithmetic is exact. -/

namespace Cadence

/-- The exact value of a double. -/
def Double.toRat (x : Double) : Rat := mkRat x.units Double.unitsInOne

namespace TimeScale

instance rationals : TimeScale Rat where
  ofNat number := number
  ofDouble := Double.toRat
  isUndefined _ := false
  lt time other := time < other
  le time other := time ≤ other
  precedes time other := time ≤ other
  floor time := time.floor
  ceil time := time.ceil
  cycle time := time.floor
  beginning := none
  strides start stop length := ((stop - start) / length).ceil.toNat + 3

end TimeScale

end Cadence
