import Cadence.Double.Basic

/-! Scales on which times are measured. Patterns are defined over any scale: programs are played over
doubles, and the laws that rounding would break are stated over the rationals. -/

namespace Cadence

class TimeScale (T : Type) extends Add T, Sub T, Mul T, Div T where
  ofNat : Nat → T
  ofDouble : Double → T
  /-- Whether a time is the answer of an operation that has none. -/
  isUndefined : T → Bool
  lt : T → T → Bool
  le : T → T → Bool
  /-- A total order, by which events are arranged. -/
  precedes : T → T → Bool
  floor : T → T
  ceil : T → T
  /-- The number of the cycle that a time lies in. -/
  cycle : T → Int
  /-- The time before all others, if there is one. -/
  beginning : Option T
  /-- A bound on the number of strides of a given length that lead from one time to another. -/
  strides : T → T → T → Nat

namespace TimeScale

variable {T : Type} [TimeScale T]

/-- The earlier of two times. An undefined one gives way to the other. -/
def earlier (time other : T) : T := if isUndefined other || le time other then time else other

/-- The later of two times. An undefined one gives way to the other. -/
def later (time other : T) : T := if isUndefined other || le other time then time else other

/-- Doubles grow strictly along a stride or not at all, and there are `2 ^ 64` of them. -/
instance doubles : TimeScale Double where
  ofNat number := .ofInt number
  ofDouble := id
  isUndefined := Double.isNaN
  lt := Double.lt
  le := Double.le
  precedes time other := time.rank ≤ other.rank
  floor := Double.floor
  ceil := Double.ceil
  cycle time := time.floor.truncate
  beginning := some (-Double.infinity)
  strides _ _ _ := UInt64.size + 1

end TimeScale

end Cadence
