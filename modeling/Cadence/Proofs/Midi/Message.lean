import Cadence.Midi.Playback

/-! Messages on the wire. The masks of the encoding keep every byte in its range; for a message whose fields are
in range already they do nothing, so that the message can be told from its bytes. -/

namespace Cadence

namespace MidiMessage

/-- Whether the fields of a message have a place in its bytes. -/
def InRange : MidiMessage → Prop
  | .noteOn channel note velocity => channel < 16 ∧ note < 128 ∧ velocity < 128
  | .noteOff channel note => channel < 16 ∧ note < 128

/-- The message, if any, that is sent as some bytes: the kind stands in the upper half of the first byte and
the channel in the lower one. -/
def ofBytes? : List UInt8 → Option MidiMessage
  | [status, note, velocity] =>
    if note < 128 ∧ velocity < 128 then
      if status / 16 = 9 then some (.noteOn (status % 16) note velocity)
      else if status / 16 = 8 ∧ velocity = 0 then some (.noteOff (status % 16) note)
      else none
    else none
  | _ => none

/-- A mask of the lowest bits does nothing to a byte that has no others. -/
theorem and_of_lt (bits : Nat) {mask byte : UInt8} (hmask : mask.toNat = Nat.pow 2 bits - 1)
    (h : byte.toNat < Nat.pow 2 bits) : byte &&& mask = byte := by
  rw [← UInt8.toNat_inj, UInt8.toNat_and, hmask]
  exact Nat.and_two_pow_sub_one_of_lt_two_pow h

theorem and_data {data : UInt8} (h : data < 128) : data &&& 0x7F = data :=
  and_of_lt 7 rfl (UInt8.lt_iff_toNat_lt.mp h)

section Status

variable {kind half channel : UInt8} (hkind : kind.toNat = 16 * half.toNat) (h : channel < 16)

include hkind h

theorem toNat_status : (kind + channel).toNat = 16 * half.toNat + channel.toNat := by
  have hchannel : channel.toNat < 16 := UInt8.lt_iff_toNat_lt.mp h
  have hlt := kind.toNat_lt
  rw [UInt8.toNat_add, hkind]
  omega

/-- Kind and channel share a byte without a bit in common. -/
theorem or_channel : kind ||| (channel &&& 0x0F) = kind + channel := by
  have hchannel : channel.toNat < Nat.pow 2 4 := UInt8.lt_iff_toNat_lt.mp h
  rw [and_of_lt 4 rfl hchannel, ← UInt8.toNat_inj, UInt8.toNat_or, toNat_status hkind h, hkind]
  exact (Nat.two_pow_add_eq_or_of_lt hchannel half.toNat).symm

theorem status_div : (kind + channel) / 16 = half := by
  have hchannel : channel.toNat < 16 := UInt8.lt_iff_toNat_lt.mp h
  rw [← UInt8.toNat_inj, UInt8.toNat_div, toNat_status hkind h]
  show _ / 16 = _
  omega

theorem status_mod : (kind + channel) % 16 = channel := by
  have hchannel : channel.toNat < 16 := UInt8.lt_iff_toNat_lt.mp h
  rw [← UInt8.toNat_inj, UInt8.toNat_mod, toNat_status hkind h]
  show _ % 16 = _
  omega

end Status

theorem bytes_noteOn {channel note velocity : UInt8} (h : (noteOn channel note velocity).InRange) :
    (noteOn channel note velocity).bytes = [0x90 + channel, note, velocity] := by
  obtain ⟨hchannel, hnote, hvelocity⟩ := h
  have hkind : (0x90 : UInt8).toNat = 16 * (9 : UInt8).toNat := rfl
  rw [bytes, or_channel hkind hchannel, and_data hnote, and_data hvelocity]

theorem bytes_noteOff {channel note : UInt8} (h : (noteOff channel note).InRange) :
    (noteOff channel note).bytes = [0x80 + channel, note, 0] := by
  obtain ⟨hchannel, hnote⟩ := h
  have hkind : (0x80 : UInt8).toNat = 16 * (8 : UInt8).toNat := rfl
  rw [bytes, or_channel hkind hchannel, and_data hnote]

/-- A message in range is told from its bytes. -/
theorem ofBytes_bytes {message : MidiMessage} (h : message.InRange) :
    ofBytes? message.bytes = some message := by
  cases message with
  | noteOn channel note velocity =>
      have hkind : (0x90 : UInt8).toNat = 16 * (9 : UInt8).toNat := rfl
      rw [bytes_noteOn h, ofBytes?, if_pos h.2, status_div hkind h.1, if_pos rfl, status_mod hkind h.1]
  | noteOff channel note =>
      have hkind : (0x80 : UInt8).toNat = 16 * (8 : UInt8).toNat := rfl
      have hdata : note < 128 ∧ (0 : UInt8) < 128 := ⟨h.2, by decide⟩
      rw [bytes_noteOff h, ofBytes?, if_pos hdata, status_div hkind h.1, if_neg (by decide),
        if_pos ⟨rfl, rfl⟩, status_mod hkind h.1]

end MidiMessage

namespace Playback

/-- What is sent for a beat starts or ends the note of an event of this beat. -/
theorem mem_send {playback : Playback} {now : Double} {timed : TimedMessage}
    (h : timed ∈ (playback.send now).1) :
    ∃ event ∈ playback.pattern playback.beat (playback.beat + 1), ∃ pitch ∈ event.value.pitch,
      timed.message = .noteOn event.value.channel pitch playback.velocity ∨
        timed.message = .noteOff event.value.channel pitch := by
  have hmessages : timed ∈ (playback.pattern playback.beat (playback.beat + 1)).flatMap
      (playback.eventMessages now) := List.mem_mergeSort.mp h
  obtain ⟨event, hevent, htimed⟩ := List.mem_flatMap.mp hmessages
  refine ⟨event, hevent, ?_⟩
  rw [eventMessages] at htimed
  cases hpitch : event.value.pitch with
  | none => simp [hpitch] at htimed
  | some pitch =>
      refine ⟨pitch, rfl, ?_⟩
      simp only [hpitch] at htimed
      split at htimed
      case isTrue => cases htimed
      case isFalse =>
        rcases List.mem_cons.mp htimed with rfl | htimed
        · exact Or.inl rfl
        · obtain rfl := List.mem_singleton.mp htimed
          exact Or.inr rfl

end Playback

end Cadence
