import Cadence.Settings.Basic
import Cadence.Toml.Grammar

/-! Settings in TOML documents. The table `playback` holds the numbers `bpm`, `velocity` and `beats`, and
the table `logging` the string `level`. What is missing has its default; what is not known is not looked
at. Either table may also be an array of its values in this order. -/

namespace Cadence.Settings

open Toml (Item Members)

/-- The member of a name, or the item at its position if the items have no names. -/
def member (name : String) (position : Nat) : Item → Option (Option Item)
  | .table _ members => some (members.lookup name)
  | .array items => some items[position]?
  | .tables items => some (items[position]?.map (.table .header))
  | .moment => some none
  | _ => none

/-- What an item says if there is one. -/
def orDefault {A : Type} (read : Item → Option A) (default : A) : Option Item → Option A
  | some item => read item
  | none => some default

/-- A whole number is a number too. -/
def readNumber : Item → Option Double
  | .float value => some value
  | .integer value => some (.ofInt value)
  | _ => none

/-- A whole number from zero to `limit - 1`. -/
def readNatural (limit : Nat) : Item → Option Nat
  | .integer value => if 0 ≤ value ∧ value < limit then some value.toNat else none
  | _ => none

def readString : Item → Option String
  | .string value => some value
  | _ => none

def readPlayback (item : Item) : Option (Double × UInt8 × UInt64) := do
  let bpm ← orDefault readNumber default.bpm (← member "bpm" 0 item)
  let velocity ← orDefault (readNatural UInt8.size) default.velocity.toNat (← member "velocity" 1 item)
  let beats ← orDefault (readNatural UInt64.size) default.beats.toNat (← member "beats" 2 item)
  return (bpm, .ofNat velocity, .ofNat beats)

def readLogging (item : Item) : Option String := do
  orDefault readString default.level (← member "level" 0 item)

/-- The settings of a document as they are written there. -/
def ofMembers (members : Members) : Option Settings := do
  let (bpm, velocity, beats) ←
    orDefault readPlayback (default.bpm, default.velocity, default.beats) (members.lookup "playback")
  let level ← orDefault readLogging default.level (members.lookup "logging")
  return ⟨bpm, velocity, beats, level⟩

def ofText? (text : String) : Option Settings := do ofMembers (← Toml.ofText? text)

end Cadence.Settings
