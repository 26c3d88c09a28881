import Cadence.Double.Decimal

/-! MIDI messages, their bytes, and the times they are sent at. -/

namespace Cadence

inductive MidiMessage where
  | noteOn (channel note velocity : UInt8)
  /-- A note is released with velocity zero. -/
  | noteOff (channel note : UInt8)
  deriving DecidableEq

/-- The bytes on the wire. The channel shares the first byte with the kind of the message, and data
bytes have seven bits. -/
def MidiMessage.bytes : MidiMessage → List UInt8
  | .noteOn channel note velocity => [0x90 ||| (channel &&& 0x0F), note &&& 0x7F, velocity &&& 0x7F]
  | .noteOff channel note => [0x80 ||| (channel &&& 0x0F), note &&& 0x7F, 0]

/-- A byte in two hexadecimal digits. -/
def hexByte (byte : UInt8) : List Char :=
  [Nat.digitChar (byte.toNat / 16), Nat.digitChar (byte.toNat % 16)].map Char.toUpper

/-- The bytes of a message as text. -/
def MidiMessage.text (message : MidiMessage) : String :=
  "[" ++ ", ".intercalate (message.bytes.map fun byte => String.ofList (hexByte byte)) ++ "]"

/-- A message and its time in milliseconds. -/
structure TimedMessage where
  message : MidiMessage
  time : Double
  deriving DecidableEq

namespace TimedMessage

/-- Messages are compared by their times alone, in the total order of doubles. -/
def compare (message other : TimedMessage) : Ordering := Ord.compare message.time.rank other.time.rank

/-- The messages in the order of their times. Messages at the same time keep their order. -/
def arrange (messages : List TimedMessage) : List TimedMessage :=
  messages.mergeSort fun message other => message.time.rank ≤ other.time.rank

/-- The time with one decimal place in ten columns, and the bytes. -/
def text (timed : TimedMessage) : String :=
  let time := timed.time.fixed 1
  indent (10 - time.length) ++ time ++ " ms  " ++ timed.message.text
where
  indent (columns : Nat) : String := String.ofList (List.replicate columns ' ')

end TimedMessage

end Cadence
