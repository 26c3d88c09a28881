import Cadence.Proofs.Rhythm.Seamless
import Mathlib.Tactic.Ring

/-! Gates as filters. A gate opens once in every period and is closed again before the next one, so the windows that it
asks a seamless pattern for stand apart from each other and in order: of the events of the whole window it lets through
those that start while it is open, and an opening from before the window lets through nothing. -/

namespace Cadence

namespace Pattern

variable {A : Type} {phase period since time : Rat}

/-- Whether a gate is open at a time, as far as it opens at a time `since` or later. -/
def IsOpen (phase period since time : Rat) : Prop :=
  ∃ slot : Int, since ≤ slot * period + phase ∧ slot * period + phase ≤ time ∧
    time < slot * period + phase + min period 1

/-- The last slot of a period that is not behind a time. -/
def lastSlot (period phase time : Rat) : Int := ((time - phase) / period).floor

theorem lastSlot_eq (hperiod : 0 < period) {slot : Int} (hlow : slot * period + phase ≤ time)
    (hhigh : time < (slot + 1 : Int) * period + phase) : lastSlot period phase time = slot := by
  refine floor_eq_of_mem ?_ ?_
  · rwa [le_div_iff₀ hperiod, le_sub_iff_add_le]
  · rwa [div_lt_iff₀ hperiod, sub_lt_iff_lt_add]

theorem lastSlot_le (hperiod : 0 < period) (time : Rat) : lastSlot period phase time * period + phase ≤ time := by
  have hfloor := Rat.floor_le ((time - phase) / period)
  rwa [le_div_iff₀ hperiod, le_sub_iff_add_le] at hfloor

/-- No opening lasts until the next one, so only the last one counts. -/
theorem isOpen_iff : IsOpen phase period since time ↔
    0 < period ∧ since ≤ lastSlot period phase time * period + phase ∧
      time < lastSlot period phase time * period + phase + min period 1 := by
  constructor
  · rintro ⟨slot, hsince, hlow, hhigh⟩
    have hperiod : 0 < period := (lt_min_iff.mp (by linarith : 0 < min period 1)).1
    have hnext : time < (slot + 1 : Int) * period + phase := by
      have hmin := min_le_left period 1
      push_cast
      linarith
    rw [lastSlot_eq hperiod hlow hnext]
    exact ⟨hperiod, hsince, hhigh⟩
  · rintro ⟨hperiod, hsince, hhigh⟩
    exact ⟨_, hsince, lastSlot_le hperiod time, hhigh⟩

instance : Decidable (IsOpen phase period since time) := decidable_of_iff _ isOpen_iff.symm

section

variable (hperiod : 0 < period)

include hperiod

/-- From one slot to the next a gate is open until the opening has lasted. -/
theorem isOpen_of_slot {slot : Int} (hsince : since ≤ slot * period + phase) (hlow : slot * period + phase ≤ time)
    (hhigh : time < (slot + 1 : Int) * period + phase) :
    IsOpen phase period since time ↔ time < slot * period + phase + min period 1 := by
  rw [isOpen_iff, lastSlot_eq hperiod hlow hhigh]
  simp [hperiod, hsince]

/-- Before its first slot a gate is not open. -/
theorem not_isOpen_of_lt (h : time < firstSlot period phase since * period + phase) :
    ¬ IsOpen phase period since time := by
  rintro ⟨slot, hsince, hlow, -⟩
  have hslot : firstSlot period phase since ≤ slot := (le_slot_iff hperiod).mp hsince
  have hle : firstSlot period phase since * period ≤ slot * period :=
    mul_le_mul_of_nonneg_right (Int.cast_le.mpr hslot) hperiod.le
  linarith

end

section

variable {start stop : Rat} (hperiod : 0 < period)

include hperiod

theorem firstSlot_slot (slot : Int) : firstSlot period phase (slot * period + phase) = slot := by
  rw [firstSlot, add_sub_cancel_right, mul_div_cancel_right₀ _ hperiod.ne', Rat.ceil_intCast]

theorem slotsIn_firstSlot (start stop : Rat) :
    slotsIn period phase (firstSlot period phase start * period + phase) stop = slotsIn period phase start stop := by
  rw [slotsIn, firstSlot_slot hperiod, slotsIn]

theorem slotsIn_cons {slot : Int} (h : slot * period + phase < stop) :
    slotsIn period phase (slot * period + phase) stop =
      (slot * period + phase) :: slotsIn period phase ((slot + 1 : Int) * period + phase) stop := by
  have hslots (first : Int) : slotsIn period phase (first * period + phase) stop =
      (Int.range first (firstSlot period phase stop)).map fun slot : Int => slot * period + phase := by
    rw [slotsIn, firstSlot_slot hperiod, Int.range, List.map_map]
    rfl
  rw [hslots, hslots, range_eq_cons ((slot_lt_iff hperiod).mp h), List.map_cons]

variable {pattern : Pattern Rat A}

/-- What a gate lets through from one slot on, as long as the next one is not reached. -/
theorem filter_isOpen_of_slot (h : pattern.Seamless) {slot : Int} (hsince : since ≤ slot * period + phase)
    (hlow : slot * period + phase ≤ stop) (hhigh : stop ≤ (slot + 1 : Int) * period + phase) :
    (pattern (slot * period + phase) stop).filter (fun event => decide (IsOpen phase period since event.start)) =
      pattern (slot * period + phase) (min (slot * period + phase + min period 1) stop) := by
  have hlength : 0 < min period 1 := lt_min hperiod one_pos
  have hmiddle : slot * period + phase ≤ min (slot * period + phase + min period 1) stop :=
    le_min (le_add_of_nonneg_right hlength.le) hlow
  rw [← h.filter_before hmiddle (min_le_right _ stop)]
  refine List.filter_congr fun event hevent => ?_
  obtain ⟨hstart, hstop⟩ := h.within hlow event hevent
  rw [decide_eq_decide, isOpen_of_slot hperiod hsince hstart (hstop.trans_le hhigh), lt_min_iff]
  exact (and_iff_left hstop).symm

/-- From a slot on, the windows that a gate asks for hold the events that start while it is open. -/
theorem flatMap_slots_eq_filter (h : pattern.Seamless) {slot : Int} (hsince : since ≤ slot * period + phase) :
    (slotsIn period phase (slot * period + phase) stop).flatMap
        (fun time => pattern time (min (time + min period 1) stop)) =
      (pattern (min (slot * period + phase) stop) stop).filter
        fun event => decide (IsOpen phase period since event.start) := by
  obtain ⟨count, hcount⟩ : ∃ count : Nat, firstSlot period phase stop ≤ slot + count :=
    ⟨(firstSlot period phase stop - slot).toNat, by omega⟩
  induction count generalizing slot with
  | zero =>
      have hstop : stop ≤ slot * period + phase := (le_slot_iff hperiod).mpr (by omega)
      rw [slotsIn_of_le hperiod hstop, min_eq_right hstop, h.empty, List.flatMap_nil, List.filter_nil]
  | succ count ih =>
      rcases le_or_gt stop (slot * period + phase) with hstop | hslot
      · rw [slotsIn_of_le hperiod hstop, min_eq_right hstop, h.empty, List.flatMap_nil, List.filter_nil]
      have hstride : slot * period + phase + period = (slot + 1 : Int) * period + phase := by
        push_cast
        ring
      have hforth : slot * period + phase ≤ (slot + 1 : Int) * period + phase := by linarith
      have hclosed : slot * period + phase + min period 1 ≤ (slot + 1 : Int) * period + phase := by
        rw [← hstride]
        exact add_le_add_right (min_le_left period 1) _
      -- The window is cut at the next slot, or at its end if this comes first.
      rw [slotsIn_cons hperiod hslot, List.flatMap_cons, ih (hsince.trans hforth) (by omega), min_eq_left hslot.le,
        h.splits (le_min hforth hslot.le) (min_le_right _ stop), List.filter_append,
        filter_isOpen_of_slot hperiod h hsince (le_min hforth hslot.le) (min_le_left _ stop), ← min_assoc,
        min_eq_left hclosed]

/-- A gate asks for the window of each opening that starts in its own window. -/
theorem gate_eq_flatMap (start stop : Rat) :
    gate phase period pattern start stop =
      (slotsIn period phase start stop).flatMap fun time => pattern time (min (time + min period 1) stop) := by
  rw [gate, gateWith, periodic_eq hperiod, List.flatMap_map]
  refine List.flatMap_congr fun time htime => ?_
  obtain ⟨-, -, hstart, -⟩ := (mem_slotsIn hperiod).mp htime
  simp [max_eq_left hstart]

/-- A gate is a filter: of the events of a window it lets through those that start while it is open, as far as it has
opened in this window. -/
theorem gate_filters (phase : Rat) (h : pattern.Seamless) (start stop : Rat)
    (hback : stop < start → pattern start stop = []) :
    gate phase period pattern start stop =
      (pattern start stop).filter fun event => decide (IsOpen phase period start event.start) := by
  rw [gate_eq_flatMap hperiod]
  rcases lt_or_ge stop start with hwindow | hwindow
  · rw [hback hwindow, slotsIn_of_le hperiod hwindow.le, List.flatMap_nil, List.filter_nil]
  have hfirst := le_firstSlot hperiod phase start
  have hbefore : (pattern start (min (firstSlot period phase start * period + phase) stop)).filter
      (fun event => decide (IsOpen phase period start event.start)) = [] := by
    rw [List.filter_eq_nil_iff]
    intro event hevent
    have hstart := (h.within (le_min hfirst hwindow) event hevent).2
    simpa using not_isOpen_of_lt hperiod (lt_min_iff.mp hstart).1
  rw [← slotsIn_firstSlot hperiod, flatMap_slots_eq_filter hperiod h hfirst,
    h.splits (le_min hfirst hwindow) (min_le_right _ stop), List.filter_append, hbefore, List.nil_append]

end

/-- Four beats in a cycle, through a gate that opens at `1/2`, at `2` and at `7/2`: asked from `3/4` on, it is open for
the first time at `2`. -/
theorem gate_filters_late :
    (0 : Rat) < 3 / 2 ∧ (fast 4 (beat 7) : Pattern Rat Nat).Seamless ∧
      (gate (1 / 2) (3 / 2) (fast 4 (beat 7)) (3 / 4) 4 : List (Event Rat Nat)).map Event.start =
        [2, 9 / 4, 5 / 2, 11 / 4, 7 / 2, 15 / 4] := by
  have hperiod : (0 : Rat) < 3 / 2 := by norm_num
  have hseamless : (fast 4 (beat 7) : Pattern Rat Nat).Seamless :=
    seamless_fast (by norm_num) _ (seamless_beat 7)
  refine ⟨hperiod, hseamless, ?_⟩
  rw [gate_filters hperiod (1 / 2) hseamless (3 / 4) 4 (fun h => absurd h (by norm_num))]
  decide +kernel

end Pattern

end Cadence
