import Cadence.Note.Basic
import Cadence.Proofs.Double.Sign

/-! Notes in range: those whose channel and pitch have a place in a message, and which are held for a time that
is not negative. Whatever numbers pitches and channels are taken from, they are wrapped into their ranges. -/

namespace Cadence

namespace Note

/-- Whether a note can be sent as it is. -/
structure InRange (note : Note) : Prop where
  channel : note.channel < 16
  pitch : ∀ pitch ∈ note.pitch, pitch < 128
  length : Double.le 0 note.length = true

/-- A wrapped number is the remainder of its whole part. -/
theorem toNat_wrap {count : Nat} (hpositive : 0 < count) (hcount : count ≤ 256) (number : Double) :
    ((wrap count number).toNat : Int) = number.truncate % count := by
  have hcast : (0 : Int) < count := Int.natCast_pos.mpr hpositive
  have hnonneg := Int.emod_nonneg number.truncate hcast.ne'
  have hlt := Int.emod_lt_of_pos number.truncate hcast
  have hbyte : (number.truncate % count).toNat < 2 ^ 8 := by omega
  rw [wrap, UInt8.toNat_ofNat', Nat.mod_eq_of_lt hbyte, Int.toNat_of_nonneg hnonneg]

theorem wrap_lt {count : Nat} (hpositive : 0 < count) (hcount : count ≤ 256) (number : Double) :
    (wrap count number).toNat < count := by
  have hremainder := toNat_wrap hpositive hcount number
  have hlt := Int.emod_lt_of_pos number.truncate (Int.natCast_pos.mpr hpositive)
  omega

theorem wrapPitch_lt (pitch : Double) : wrapPitch pitch < 128 :=
  UInt8.lt_iff_toNat_lt.mpr (wrap_lt (by decide) (by decide) pitch)

theorem wrapChannel_lt (channel : Double) : wrapChannel channel < 16 :=
  UInt8.lt_iff_toNat_lt.mpr (wrap_lt (by decide) (by decide) channel)

theorem inRange_plain : plain.InRange where
  channel := by decide
  pitch := by simp [plain]
  length := by decide +kernel

variable {note : Note} (h : note.InRange)

include h

theorem InRange.withPitch {pitch channel : UInt8} (hpitch : pitch < 128) (hchannel : channel < 16) :
    (note.withPitch pitch channel).InRange where
  channel := hchannel
  pitch := by
    rintro _ ⟨⟩
    exact hpitch
  length := h.length

theorem InRange.transpose (offset : Double) : (note.transpose offset).InRange where
  channel := h.channel
  pitch := by
    intro pitch hpitch
    obtain ⟨_, -, rfl⟩ := Option.map_eq_some_iff.mp hpitch
    exact wrapPitch_lt _
  length := h.length

theorem InRange.withChannel {channel : UInt8} (hchannel : channel < 16) : (note.withChannel channel).InRange where
  channel := hchannel
  pitch := h.pitch
  length := h.length

theorem InRange.withLength {length : Double} (hlength : Double.le 0 length = true) :
    (note.withLength length).InRange where
  channel := h.channel
  pitch := h.pitch
  length := hlength

theorem InRange.muted : note.muted.InRange := ⟨h.channel, h.pitch, h.length⟩

end Note

end Cadence
