import Cadence.Proofs.Midi.Message
import Cadence.Proofs.Note.Range
import Cadence.Proofs.Program.Closed

/-! Programs in range. Every note that a program plays can be sent as it is: channels and pitches are wrapped
where they are made, lengths have no sign, and nothing else changes them. So the masks of the encoding change no
byte of what is sent. -/

namespace Cadence

variable {T : Type} [TimeScale T]

/-- Whether a transformer plays notes in range where it is given notes in range. -/
def Transformer.InRange (transformer : Transformer T Note) : Prop :=
  transformer.Keeps (Pattern.Carries Note.InRange)

theorem stretches_inRange : Stretches (Transformer.InRange : Transformer T Note → Prop) :=
  fun _ _ => ⟨Pattern.keeps_slow _, Pattern.keeps_slow _⟩

/-- Numerals stand for notes in range in a scope with a channel in range, if they are not negative. -/
theorem Vocabulary.inRange_read (reading : Reading) (number : Double) (scope : Scope Reading)
    (hnumber : Double.le 0 number = true) (hchannel : scope.channel < 16) :
    Value.Within (Transformer.InRange : Transformer T Note → Prop) (reading.read number scope) := by
  cases reading with
  | number | multiple => trivial
  | note => exact Pattern.keeps_map fun _ h => h.withPitch (Note.wrapPitch_lt number) hchannel
  | slow | fast => exact Pattern.keeps_slow _
  | add | sub => exact Pattern.keeps_map fun _ h => h.transpose _
  | channel => exact Pattern.keeps_map fun _ h => h.withChannel (Note.wrapChannel_lt number)
  | length => exact Pattern.keeps_map fun _ h => h.withLength hnumber
  | shift => exact Pattern.keeps_shift _

/-- Programs play notes in range, since their numerals have no sign. -/
def Invariant.inRange : Invariant :=
  .ofClosed (Pattern.closed_carries : Transformer.Closed (Transformer.InRange : Transformer Double Note → Prop))
    stretches_inRange (fun _ => True) (fun _ number => Double.le 0 number = true) (· < 16) Note.wrapChannel_lt
    (fun _ _ _ _ => Pattern.keeps_map fun _ h => h.muted) Vocabulary.inRange_read

namespace Program

/-- All that a program plays is in range: channels are below 16, pitches below 128, and no length is negative.
So what is sent for it in a beat are three bytes each, with the channel and the pitch of an event of this beat
as they are, and the message can be told from its bytes. -/
theorem inRange_of_text {text : String} {step : Step} (hstep : stepOfText text = .ok step) :
    let pattern : Pattern Double Note := step.pattern
    (∀ start stop, ∀ event ∈ pattern start stop, event.value.InRange) ∧
      ∀ playback : Playback, playback.pattern = pattern → playback.velocity ≤ 127 →
        ∀ now, ∀ timed ∈ (playback.send now).1,
          (∃ event ∈ pattern playback.beat (playback.beat + 1), ∃ pitch ∈ event.value.pitch,
            timed.message.bytes = [0x90 + event.value.channel, pitch, playback.velocity] ∨
              timed.message.bytes = [0x80 + event.value.channel, pitch, 0]) ∧
            MidiMessage.ofBytes? timed.message.bytes = some timed.message := by
  intro pattern
  have hchannel : Vocabulary.outermost.channel < 16 := by decide
  have hkeeps : Transformer.InRange (step.apply : Transformer Double Note) := by
    refine Invariant.inRange.holds_of_text hchannel hstep fun document hread => ⟨fun _ _ => trivial, ?_⟩
    rintro ⟨reading, number⟩ hmem
    obtain ⟨decimal, rfl⟩ := (Grammar.readProgram_eq_ok hread).1.1.decimal hmem
    exact Double.le_of_nonnegative decimal.negative_toDouble decimal.isNaN_toDouble
  have hrange : pattern.Carries Note.InRange := hkeeps _ (Pattern.carries_beat Note.inRange_plain)
  refine ⟨hrange, ?_⟩
  intro playback hplayback hvelocity now timed htimed
  obtain ⟨event, hevent, pitch, hpitch, hmessage⟩ := Playback.mem_send htimed
  rw [hplayback] at hevent
  have hnote := hrange _ _ event hevent
  have hdata : pitch < 128 := hnote.pitch pitch hpitch
  rcases hmessage with hon | hoff
  · have hmessage : (MidiMessage.noteOn event.value.channel pitch playback.velocity).InRange :=
      ⟨hnote.channel, hdata, UInt8.lt_of_le_of_lt hvelocity (by decide)⟩
    rw [hon]
    exact ⟨⟨event, hevent, pitch, hpitch, Or.inl (MidiMessage.bytes_noteOn hmessage)⟩,
      MidiMessage.ofBytes_bytes hmessage⟩
  · have hmessage : (MidiMessage.noteOff event.value.channel pitch).InRange := ⟨hnote.channel, hdata⟩
    rw [hoff]
    exact ⟨⟨event, hevent, pitch, hpitch, Or.inr (MidiMessage.bytes_noteOff hmessage)⟩,
      MidiMessage.ofBytes_bytes hmessage⟩

/-- Channels and pitches that are far out of range as they are written. -/
def farNotes : String := "channel 25\nnote 300.5\nadd 99999999999999999999\nlen .5\nstack i (chan 40)"

theorem inRange_of_text_farNotes :
    ∃ step, stepOfText farNotes = .ok step ∧
      (∀ event ∈ (step.pattern : Pattern Double Note) 0 1, event.value.InRange) ∧
        let playback := Playback.start step.pattern 120 127
        ∀ timed ∈ (playback.send 1000).1,
          (∃ event ∈ (step.pattern : Pattern Double Note) 0 (0 + 1), ∃ pitch ∈ event.value.pitch,
            timed.message.bytes = [0x90 + event.value.channel, pitch, 127] ∨
              timed.message.bytes = [0x80 + event.value.channel, pitch, 0]) ∧
            MidiMessage.ofBytes? timed.message.bytes = some timed.message := by
  have haccepted : (stepOfText farNotes).toOption.map (fun _ => ()) = some () := by decide +kernel
  obtain ⟨step, hstep, -⟩ := exists_ok_of_map haccepted
  have hvelocity : (127 : UInt8) ≤ 127 := by decide
  obtain ⟨hevents, hsent⟩ := inRange_of_text hstep
  exact ⟨step, hstep, hevents 0 1, hsent (Playback.start step.pattern 120 127) rfl hvelocity 1000⟩

end Program

end Cadence
