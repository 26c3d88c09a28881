import Cadence.Midi.Playback
import Cadence.Program.Basic
import Cadence.Proofs.Double.Whole
import Cadence.Proofs.Source.Outcome

/-! A playback over all that is done with it. Beats are sent, the next beat is looked at, and patterns are replaced,
in any order; a text that is no program leaves the pattern as it is. The beat counts what was sent and nothing else,
and since counting is exact for fewer than `2 ^ 53` beats, every beat is played from one whole number to the next. -/

namespace Cadence

/-- What is sent of a message: its bytes and its time. -/
def TimedMessage.delivery (timed : TimedMessage) : List UInt8 × Double := (timed.message.bytes, timed.time)

namespace Playback

/-- What can be done with a playback. -/
inductive Call where
  | send (now : Double)
  | messages (now : Double)
  | setPattern (pattern : Pattern Double Note)
  /-- Evaluates a text and plays its pattern from then on. -/
  | evaluate (text : String)

/-- What comes of a call. -/
inductive Answer where
  | sent (deliveries : List (List UInt8 × Double))
  | shown (messages : List TimedMessage)
  | replaced
  | failed (error : ProgramError)

/-- Plays the step that a text stands for, if it stands for one. -/
def replace (playback : Playback) : Except ProgramError Step → Answer × Playback
  | .ok step => (.replaced, playback.setPattern step.pattern)
  | .error error => (.failed error, playback)

def call (playback : Playback) : Call → Answer × Playback
  | .send now =>
    let (sent, next) := playback.send now
    (.sent (sent.map TimedMessage.delivery), next)
  | .messages now => (.shown (playback.messages now), playback)
  | .setPattern pattern => (.replaced, playback.setPattern pattern)
  | .evaluate text => playback.replace (Program.stepOfText text)

namespace Call

/-- The pattern that a call sets, if it sets one. -/
def pattern? : Call → Option (Pattern Double Note)
  | .setPattern pattern => some pattern
  | .evaluate text => (Program.stepOfText text).toOption.map Step.pattern
  | .send _ | .messages _ => none

end Call

/-- The pattern that was set last, or the one at the start. -/
def current (start : Pattern Double Note) (calls : List Call) : Pattern Double Note :=
  (calls.filterMap Call.pattern?).getLast?.getD start

/-- What was sent by a call. -/
def Answer.deliveries? : Answer → Option (List (List UInt8 × Double))
  | .sent deliveries => some deliveries
  | .shown _ | .replaced | .failed _ => none

/-- What was sent, call by call. -/
def deliveries (answers : List Answer) : List (List (List UInt8 × Double)) := answers.filterMap Answer.deliveries?

section

variable {pattern : Pattern Double Note} {beat : Nat} {bpm : Double} {velocity : UInt8}

end

section

variable {pattern : Pattern Double Note} {bpm : Double} {velocity : UInt8}

end

end Playback

end Cadence
