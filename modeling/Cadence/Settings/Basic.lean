import Cadence.Double.Basic
import Cadence.Text.CodePoint

/-! Settings: how programs are played and what is logged. -/

namespace Cadence

structure Settings where
  bpm : Double
  velocity : UInt8
  /-- How many beats are played. -/
  beats : UInt64
  level : String
  deriving DecidableEq

namespace Settings

def default : Settings := ⟨120, 100, 16, "info"⟩

def leastBpm : Double := 20

def greatestBpm : Double := 400

/-- A speed that can be played: NaN gives the default, other numbers go to the nearer end of the range
if they are outside of it. -/
def repairBpm (bpm : Double) : Double :=
  if bpm.isNaN then default.bpm
  else if bpm.lt leastBpm then leastBpm
  else if greatestBpm.lt bpm then greatestBpm
  else bpm

/-- Velocity zero would be a note off. -/
def repairVelocity (velocity : UInt8) : UInt8 := max 1 (min velocity 127)

def repairBeats (beats : UInt64) : UInt64 := max 1 beats

def isBlankLevel (level : String) : Bool := level.toList.all isBlank

def repairLevel (level : String) : String := if isBlankLevel level then default.level else level

/-- Settings that can be used, as near to the given ones as possible. -/
def repair (settings : Settings) : Settings :=
  ⟨repairBpm settings.bpm, repairVelocity settings.velocity, repairBeats settings.beats,
    repairLevel settings.level⟩

end Settings

end Cadence
