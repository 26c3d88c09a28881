import Cadence.Midi.Message
import Cadence.Note.Step

/-! Playing a pattern beat by beat. -/

namespace Cadence

/-- A pattern that is being played: the next beat, the beats per minute, and how hard notes are hit. -/
structure Playback where
  pattern : Pattern Double Note
  beat : Double
  bpm : Double
  velocity : UInt8

namespace Playback

def start (pattern : Pattern Double Note) (bpm : Double) (velocity : UInt8) : Playback :=
  ⟨pattern, 0, bpm, velocity⟩

/-- Plays another pattern from the next beat on. -/
def setPattern (playback : Playback) (pattern : Pattern Double Note) : Playback :=
  { playback with pattern }

/-- The length of a beat in milliseconds. -/
def beatLength (playback : Playback) : Double := 60000 / playback.bpm

/-- The messages of one event of the next beat, which begins at the time `now`. -/
def eventMessages (playback : Playback) (now : Double) (event : Event Double Note) : List TimedMessage :=
  let note := event.value
  match note.pitch with
  | none => []
  | some pitch =>
    if note.mute then []
    else
      let timeOf (moment : Double) := now + (moment - playback.beat) * playback.beatLength
      let release := event.start + (event.stop - event.start) * note.length
      [⟨.noteOn note.channel pitch playback.velocity, timeOf event.start⟩,
        ⟨.noteOff note.channel pitch, timeOf release⟩]

/-- The messages of the next beat in the order of their times. -/
def messages (playback : Playback) (now : Double) : List TimedMessage :=
  TimedMessage.arrange ((playback.pattern playback.beat (playback.beat + 1)).flatMap (playback.eventMessages now))

/-- Sends the messages of the next beat and goes on to the beat after it. -/
def send (playback : Playback) (now : Double) : List TimedMessage × Playback :=
  (playback.messages now, { playback with beat := playback.beat + 1 })

/-- The messages of so many beats, of which the first begins at the time `now`. -/
def perform : (beats : Nat) → (now : Double) → Playback → List TimedMessage
  | 0, _, _ => []
  | beats + 1, now, playback =>
    let (sent, next) := playback.send now
    sent ++ perform beats (now + playback.beatLength) next

end Playback

end Cadence
