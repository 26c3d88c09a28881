import Cadence.Midi.Playback

/-! The timer that a pattern is played by: it goes off once for every beat. -/

namespace Cadence

/-- The whole number nearest to a ratio. Half-way cases go to the even one. -/
def nearestWhole (numerator denominator : Nat) : Nat :=
  let below := numerator / denominator
  let twiceOver := 2 * (numerator % denominator)
  if denominator < twiceOver ∨ (twiceOver = denominator ∧ below % 2 = 1) then below + 1 else below

def nanosecondsInSecond : Nat := Nat.pow 10 9

namespace Double

/-- So many seconds in whole nanoseconds, regardless of their sign. -/
def nearestNanosecond (seconds : Double) : Nat :=
  nearestWhole (unitsAt seconds.place * nanosecondsInSecond) unitsInOne

/-- The nanoseconds of a duration of so many seconds. A duration is not negative, and is shorter than
`2 ^ 64` seconds. -/
def nanoseconds? (seconds : Double) : Option Nat :=
  if seconds.isNaN || seconds.isInfinite || seconds.lt 0 then none
  else if seconds.nearestNanosecond < UInt64.size * nanosecondsInSecond then some seconds.nearestNanosecond
  else none

end Double

/-- The nanoseconds from one beat to the next. A timer cannot go off all the time. -/
def Playback.tick? (playback : Playback) : Option Nat :=
  (playback.beatLength / 1000).nanoseconds?.filter (0 < ·)

end Cadence
