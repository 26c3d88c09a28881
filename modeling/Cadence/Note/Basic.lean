import Cadence.Double.Basic

/-! Notes: what the events of a program's pattern carry. -/

namespace Cadence

/-- A note. Without a pitch it takes its time and makes no sound; its length is the fraction of the
event for which it is held. -/
structure Note where
  channel : UInt8
  pitch : Option UInt8
  length : Double
  mute : Bool
  deriving DecidableEq

namespace Note

/-- The note that programs start from. -/
def plain : Note := ⟨0, none, 1, false⟩

/-- The remainder of the whole part of a number, from zero to `count - 1`. -/
def wrap (count : Nat) (number : Double) : UInt8 := UInt8.ofNat (number.truncate % count).toNat

def wrapPitch (pitch : Double) : UInt8 := wrap 128 pitch

def wrapChannel (channel : Double) : UInt8 := wrap 16 channel

def withPitch (pitch channel : UInt8) (note : Note) : Note := { note with pitch := some pitch, channel }

/-- Adds to the pitch, if there is one. -/
def transpose (offset : Double) (note : Note) : Note :=
  { note with pitch := note.pitch.map fun pitch => wrapPitch (.ofInt pitch.toNat + offset) }

def withChannel (channel : UInt8) (note : Note) : Note := { note with channel }

def withLength (length : Double) (note : Note) : Note := { note with length }

def muted (note : Note) : Note := { note with mute := true }

end Note

end Cadence
