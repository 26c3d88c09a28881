import Cadence.Proofs.Rhythm.Windows

/-! Periodic patterns as arithmetic progressions. The search for slots begins with a slot before the window, passes over
what lies before its start and stops at its end; the events that it finds are those of all the whole numbers whose slots
lie in the window, one for each. -/

namespace Cadence

namespace Pattern

variable {A : Type} {period phase start stop : Rat}

/-- The event of a slot. -/
def slotEvent (period duration phase : Rat) (value : A) (slot : Int) : Event Rat A :=
  ⟨slot * period + phase, slot * period + phase + duration, value⟩

/-- The numbers of the slots in a window, from the first slot not before its start up to the first not before its end. -/
def slotNumbers (period phase start stop : Rat) : List Int :=
  Int.range (firstSlot period phase start) (firstSlot period phase stop)

theorem mem_slotNumbers (hperiod : 0 < period) {slot : Int} :
    slot ∈ slotNumbers period phase start stop ↔ start ≤ slot * period + phase ∧ slot * period + phase < stop := by
  rw [slotNumbers, Int.mem_range_iff, ← le_slot_iff hperiod, ← slot_lt_iff hperiod]

theorem pairwise_slotNumbers : (slotNumbers period phase start stop).Pairwise (· < ·) := by
  rw [slotNumbers, Int.range, List.pairwise_map]
  exact List.pairwise_lt_range.imp fun h => by omega

theorem periodic_eq_map (hperiod : 0 < period) (duration : Rat) (value : A) :
    periodic period duration phase value start stop =
      (slotNumbers period phase start stop).map (slotEvent period duration phase value) := by
  rw [periodic_eq hperiod, slotsIn, slotNumbers, Int.range, List.map_map, List.map_map]
  rfl

theorem periodic_of_nonpos (h : period ≤ 0) (duration phase : Rat) (value : A) :
    periodic period duration phase value start stop = [] := by
  have hguard : TimeScale.le period (TimeScale.ofNat 0) = true := by simpa [TimeScale.le] using h
  rw [periodic, hguard]
  rfl

theorem slotEvent_start_lt (hperiod : 0 < period) (duration : Rat) (value : A) {slot later : Int} (h : slot < later) :
    (slotEvent period duration phase value slot).start < (slotEvent period duration phase value later).start := by
  have hslot : (slot : Rat) * period < later * period := mul_lt_mul_of_pos_right (Int.cast_lt.mpr h) hperiod
  exact add_lt_add_left hslot phase

/-- A pattern of a positive period has one event for every whole number whose slot lies in the window, however long the
events are and wherever the window lies, in increasing order and no others; and a pattern whose period is not positive
has no events. -/
theorem periodic_complete (period duration phase : Rat) (value : A) (start stop : Rat) :
    let events := periodic period duration phase value start stop
    (0 < period → ∃ slots : List Int, slots.Pairwise (· < ·) ∧
        (∀ slot, slot ∈ slots ↔ start ≤ slot * period + phase ∧ slot * period + phase < stop) ∧
        events = slots.map (slotEvent period duration phase value) ∧
        events.Pairwise fun event later => event.start < later.start) ∧
      (period ≤ 0 → events = []) := by
  refine ⟨fun hperiod => ?_, fun h => periodic_of_nonpos h duration phase value⟩
  refine ⟨slotNumbers period phase start stop, pairwise_slotNumbers, fun slot => mem_slotNumbers hperiod,
    periodic_eq_map hperiod duration value, ?_⟩
  rw [periodic_eq_map hperiod, List.pairwise_map]
  exact pairwise_slotNumbers.imp (slotEvent_start_lt hperiod duration value)

/-- Slots off the whole numbers and on both sides of zero, with events that overlap; the first is at the start of the
window, and one more would be at its end. -/
theorem periodic_complete_offbeat :
    let events := periodic (3 / 2) 2 (1 / 4) () (-11 / 4) (7 / 4 : Rat)
    (0 : Rat) < 3 / 2 ∧ (∃ slots : List Int, slots.Pairwise (· < ·) ∧
        (∀ slot : Int, slot ∈ slots ↔
          (-11 / 4 : Rat) ≤ slot * (3 / 2) + 1 / 4 ∧ slot * (3 / 2) + 1 / 4 < (7 / 4 : Rat)) ∧
        events = slots.map (slotEvent (3 / 2) 2 (1 / 4) ()) ∧
        events.Pairwise fun event later => event.start < later.start) ∧
      events = [-2, -1, 0].map (slotEvent (3 / 2) 2 (1 / 4) ()) ∧
      (-1 / 2 : Rat) ≤ 0 ∧ periodic (-1 / 2) 2 (1 / 4) () (-11 / 4) (7 / 4 : Rat) = [] := by
  have hperiod : (0 : Rat) < 3 / 2 := by norm_num
  have hbackward : (-1 / 2 : Rat) ≤ 0 := by norm_num
  exact ⟨hperiod, (periodic_complete (3 / 2) 2 (1 / 4) () (-11 / 4) (7 / 4)).1 hperiod, by decide +kernel, hbackward,
    (periodic_complete (-1 / 2) 2 (1 / 4) () (-11 / 4) (7 / 4)).2 hbackward⟩

/-- One event for every cycle that begins in the window, also before zero. -/
example : beat () (-3 / 2) (1 : Rat) = [⟨-1, 0, ()⟩, ⟨0, 1, ()⟩] := by decide +kernel

end Pattern

end Cadence
