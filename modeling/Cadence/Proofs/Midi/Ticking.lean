import Cadence.Midi.Timer
import Cadence.Proofs.Double.Quotient

/-! How long a timer waits. Rounding to nanoseconds goes up with the time that is rounded, so that a timer can keep every
beat whose length is between two that it can keep. -/

namespace Cadence

theorem nearestWhole_mono {numerator larger : Nat} (h : numerator ≤ larger) (denominator : Nat) :
    nearestWhole numerator denominator ≤ nearestWhole larger denominator := by
  have hbelow : numerator / denominator ≤ larger / denominator := Nat.div_le_div_right h
  simp only [nearestWhole]
  -- Either the whole number behind the first ratio is not behind the second one, or both lie between the same two.
  rcases Nat.lt_or_eq_of_le hbelow with hlt | heq
  · split_ifs <;> omega
  · have hrest : numerator % denominator ≤ larger % denominator := by
      have hsplit := Nat.div_add_mod numerator denominator
      have hsplit' := Nat.div_add_mod larger denominator
      rw [heq] at hsplit
      omega
    rw [heq]
    split_ifs <;> omega

namespace Double

variable {least greatest seconds : Double}

theorem nearestNanosecond_mono (h : least.place ≤ greatest.place) :
    least.nearestNanosecond ≤ greatest.nearestNanosecond :=
  nearestWhole_mono (Nat.mul_le_mul_right _ (unitsAt_strictMono.monotone h)) _

theorem nanoseconds_of_positive (h : seconds.IsPositive) :
    seconds.nanoseconds? =
      if seconds.nearestNanosecond < UInt64.size * nanosecondsInSecond then some seconds.nearestNanosecond else none := by
  have hlow : seconds.lt 0 = false := not_lt_of_le (le_of_nonnegative h.fields.1 h.flags.1)
  rw [nanoseconds?, h.flags.1, h.flags.2.1, hlow, Bool.or_self, Bool.or_self, if_neg Bool.false_ne_true]

/-- Between two durations there are durations, and they are as long. -/
theorem nanoseconds_between {shortest longest : Nat} (hpos : least.IsPositive) (hpos' : greatest.IsPositive)
    (hleast : least.nanoseconds? = some shortest) (hgreatest : greatest.nanoseconds? = some longest)
    (h : least.le seconds = true) (h' : seconds.le greatest = true) :
    ∃ count, seconds.nanoseconds? = some count ∧ shortest ≤ count ∧ count ≤ longest := by
  have hseconds := hpos.of_le hpos' h h'
  have hlow := nearestNanosecond_mono (hpos.place_le hseconds h)
  have hhigh := nearestNanosecond_mono (hseconds.place_le hpos' h')
  rw [nanoseconds_of_positive hpos] at hleast
  rw [nanoseconds_of_positive hpos'] at hgreatest
  split_ifs at hleast hgreatest with hfits hfits'
  rw [← Option.some.inj hleast, ← Option.some.inj hgreatest]
  refine ⟨seconds.nearestNanosecond, ?_, hlow, hhigh⟩
  rw [nanoseconds_of_positive hseconds, if_pos (hhigh.trans_lt hfits')]

end Double

namespace Playback

variable {playback : Playback}

/-- A timer can keep beats from 150 to 3000 milliseconds long. -/
theorem tick_between (hshort : Double.le 150 playback.beatLength = true)
    (hlong : playback.beatLength.le 3000 = true) :
    ∃ nanoseconds, playback.tick? = some nanoseconds ∧ 150000000 ≤ nanoseconds ∧ nanoseconds ≤ 3000000000 := by
  have hleast : (150 : Double).IsPositive ∧ (150 / 1000 : Double).IsPositive := by decide +kernel
  have hgreatest : (3000 : Double).IsPositive ∧ (3000 / 1000 : Double).IsPositive := by decide +kernel
  have hthousand : (1000 : Double).IsPositive ∧ (1000 : Double).le 1000 = true := by decide +kernel
  have hlength := hleast.1.of_le hgreatest.1 hshort hlong
  obtain ⟨nanoseconds, hcount, hbounds⟩ := Double.nanoseconds_between hleast.2 hgreatest.2
    (show (150 / 1000 : Double).nanoseconds? = some 150000000 by decide +kernel)
    (show (3000 / 1000 : Double).nanoseconds? = some 3000000000 by decide +kernel)
    (Double.div_le_div hleast.1 hlength hthousand.1 hthousand.1 hshort hthousand.2)
    (Double.div_le_div hlength hgreatest.1 hthousand.1 hthousand.1 hlong hthousand.2)
  refine ⟨nanoseconds, ?_, hbounds⟩
  have hpos : 0 < nanoseconds := Nat.lt_of_lt_of_le (by decide) hbounds.1
  rw [tick?, hcount]
  simp [hpos]

end Playback

end Cadence
