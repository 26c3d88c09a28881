import Cadence.Json.Basic
import Cadence.Note.Basic
import Cadence.Rhythm.Pattern

/-! Events of notes as JSON. -/

namespace Cadence

def Note.json (note : Note) : JsonValue :=
  .object [("channel", .natural note.channel.toNat),
    ("pitch", (note.pitch.map fun pitch => .natural pitch.toNat).getD .null),
    ("length", .double note.length), ("mute", .bool note.mute)]

def Event.json (event : Event Double Note) : JsonValue :=
  .object [("start", .double event.start), ("end", .double event.stop), ("value", event.value.json)]

/-- The text of a list of events. -/
def listing (events : List (Event Double Note)) : String := (JsonValue.array (events.map Event.json)).pretty 0

end Cadence
