import Cadence.Rhythm.Exact
import Cadence.Rhythm.Pattern
import Mathlib.Algebra.Order.Archimedean.Basic
import Mathlib.Data.Int.Range
import Mathlib.Data.Rat.Floor
import Mathlib.Tactic.Linarith

/-! The loops over windows of exact time. Both run on a supply that is always large enough: a window is cut at
the whole numbers inside of it and nowhere else, and the slots of a period that a window holds are those from
the first one not before its start to the last one before its end. -/

namespace Cadence

namespace TimeScale

@[simp] theorem earlier_eq_min (time other : Rat) : earlier time other = min time other := by
  simp [earlier, isUndefined, le, min_def]

@[simp] theorem later_eq_max (time other : Rat) : later time other = max time other := by
  simp [later, isUndefined, le, max_def']

@[simp] theorem ofNat_eq_cast (number : Nat) : (ofNat number : Rat) = number := rfl

@[simp] theorem cycle_eq_floor (time : Rat) : cycle time = time.floor := rfl

/-- The strides that a loop is given lead over the window. -/
theorem lt_strides {length : Rat} (hlength : 0 < length) (start stop : Rat) :
    stop + length * 2 < start + length * strides start stop length := by
  have hceil : (stop - start) / length ≤ (((stop - start) / length).ceil.toNat : Rat) :=
    Rat.le_ceil.trans (by exact_mod_cast Int.self_le_toNat _)
  rw [div_le_iff₀' hlength] at hceil
  simp only [strides, Nat.cast_add, Nat.cast_ofNat]
  linarith

end TimeScale

theorem floor_eq_of_mem {time : Rat} {cycle : Int} (hstart : cycle ≤ time) (hstop : time < (cycle + 1 : Int)) :
    time.floor = cycle := by
  show ⌊time⌋ = cycle
  exact Int.floor_eq_iff.mpr ⟨hstart, by exact_mod_cast hstop⟩

theorem range_eq_cons {first last : Int} (h : first < last) :
    Int.range first last = first :: Int.range (first + 1) last := by
  have hcount : (last - first).toNat = (last - (first + 1)).toNat + 1 := by omega
  rw [Int.range, Int.range, hcount, List.range_succ_eq_map, List.map_cons, List.map_map]
  simp [Function.comp_def, add_left_comm, add_comm]

/-- What holds of the windows that end in the cycle in which they start, and of a window if it holds from the
next cycle on, holds of all windows with this end. -/
theorem cycle_induction {stop : Rat} {motive : (start : Rat) → start ≤ stop → Prop}
    (last : ∀ start h, stop ≤ (start.floor + 1 : Int) → motive start h)
    (next : ∀ start h (hnext : (start.floor + 1 : Int) < stop),
      motive (start.floor + 1 : Int) hnext.le → motive start h)
    (start : Rat) (h : start ≤ stop) : motive start h := by
  obtain ⟨cycles, hcycles⟩ : ∃ cycles : Nat, stop ≤ (start.floor + cycles : Int) := by
    obtain ⟨cycles, hcycles⟩ := exists_nat_ge (stop - start.floor)
    refine ⟨cycles, ?_⟩
    push_cast
    linarith
  induction cycles generalizing start with
  | zero => exact last start h (hcycles.trans (by simp))
  | succ cycles ih =>
      rcases le_or_gt stop (start.floor + 1 : Int) with hlast | hnext
      · exact last start h hlast
      · refine next start h hnext (ih _ hnext.le ?_)
        rw [Rat.floor_intCast, add_assoc, add_comm 1]
        exact hcycles

namespace Pattern

variable {A : Type} {start stop : Rat}

/-! ### Cycles -/

theorem cyclesWithin_of_not_lt {T : Type} [TimeScale T] {start stop : T} (h : TimeScale.lt start stop = false)
    (fuel : Nat) : cyclesWithin fuel start stop = [] := by
  cases fuel with
  | zero => rfl
  | succ fuel => exact if_neg (ne_true_of_eq_false h)

theorem cyclesWithin_of_le (h : stop ≤ start) (fuel : Nat) : cyclesWithin fuel start stop = [] :=
  cyclesWithin_of_not_lt (decide_eq_false (not_lt.mpr h)) fuel

theorem cyclesWithin_succ (h : start < stop) (fuel : Nat) :
    cyclesWithin (fuel + 1) start stop = (start, min ((start.floor + 1 : Int) : Rat) stop) ::
      cyclesWithin fuel (min ((start.floor + 1 : Int) : Rat) stop) stop := by
  have hfloor := Rat.lt_floor_add_one start
  have hnext : ¬ min ((start.floor + 1 : Int) : Rat) stop ≤ start := not_le.mpr (lt_min hfloor h)
  push_cast at hnext ⊢
  simp [cyclesWithin, TimeScale.lt, TimeScale.le, TimeScale.floor, h, hnext]

/-- A supply of one stride for every cycle that is begun is enough. -/
theorem cyclesWithin_of_fuel {fuel : Nat} (h : stop ≤ (start.floor + fuel : Int)) (more : Nat) :
    cyclesWithin (fuel + more) start stop = cyclesWithin fuel start stop := by
  induction fuel generalizing start with
  | zero =>
      have hempty : stop ≤ start := h.trans (by simpa using Rat.floor_le start)
      rw [cyclesWithin_of_le hempty, cyclesWithin_of_le hempty]
  | succ fuel ih =>
      rcases le_or_gt stop start with hempty | hnonempty
      · rw [cyclesWithin_of_le hempty, cyclesWithin_of_le hempty]
      · rw [Nat.add_right_comm, cyclesWithin_succ hnonempty, cyclesWithin_succ hnonempty]
        rcases le_total stop (start.floor + 1 : Int) with hlast | hnext
        · rw [min_eq_right hlast, cyclesWithin_of_le le_rfl, cyclesWithin_of_le le_rfl]
        · rw [min_eq_left hnext, ih]
          rw [Rat.floor_intCast, add_assoc, add_comm 1]
          exact h

theorem cyclesWithin_eq_cycles {fuel : Nat} (h : stop ≤ (start.floor + fuel : Int)) :
    cyclesWithin fuel start stop = cycles start stop := by
  have hstrides : stop ≤ (start.floor + TimeScale.strides start stop (1 : Rat) : Int) := by
    have hbound := TimeScale.lt_strides one_pos start stop
    have hfloor := Rat.lt_floor_add_one start
    push_cast at hfloor ⊢
    linarith
  show _ = cyclesWithin (TimeScale.strides start stop (1 : Rat)) start stop
  rcases le_total fuel (TimeScale.strides start stop (1 : Rat)) with hle | hle
  · obtain ⟨more, hmore⟩ := Nat.exists_eq_add_of_le hle
    rw [hmore, cyclesWithin_of_fuel h]
  · obtain ⟨more, rfl⟩ := Nat.exists_eq_add_of_le hle
    rw [cyclesWithin_of_fuel hstrides]

theorem cycles_of_le (h : stop ≤ start) : cycles start stop = [] := cyclesWithin_of_le h _

/-- A window inside of one cycle is one piece. -/
theorem cycles_inside {cycle : Int} (hstart : cycle ≤ start) (h : start < stop)
    (hstop : stop ≤ (cycle + 1 : Int)) : cycles start stop = [(start, stop)] := by
  have hcycle : start.floor = cycle := floor_eq_of_mem hstart (h.trans_le hstop)
  have hfuel : stop ≤ (start.floor + (1 : Nat) : Int) := by
    rw [hcycle]
    exact hstop
  rw [← cyclesWithin_eq_cycles hfuel, cyclesWithin_succ h, hcycle, min_eq_right hstop]
  rfl

/-- A window over the end of a cycle is cut there. -/
theorem cycles_across {cycle : Int} (hstart : cycle ≤ start) (h : start < (cycle + 1 : Int))
    (hstop : (cycle + 1 : Int) ≤ stop) :
    cycles start stop = (start, ((cycle + 1 : Int) : Rat)) :: cycles ((cycle + 1 : Int) : Rat) stop := by
  have hcycle : start.floor = cycle := floor_eq_of_mem hstart h
  obtain ⟨fuel, hfuel⟩ := exists_nat_ge (stop - (cycle + 1 : Int))
  have hrest : stop ≤ (((cycle + 1 : Int) : Rat).floor + fuel : Int) := by
    rw [Rat.floor_intCast]
    push_cast at hfuel ⊢
    linarith
  have hwhole : stop ≤ (start.floor + (fuel + 1 : Nat) : Int) := by
    rw [hcycle]
    push_cast at hfuel ⊢
    linarith
  rw [← cyclesWithin_eq_cycles hwhole, cyclesWithin_succ (h.trans_le hstop), hcycle, min_eq_left hstop,
    cyclesWithin_eq_cycles hrest]

section

variable {T : Type} {transformers : List (Transformer T A)}

/-- The transformer of an alternation that has its turn in a cycle. -/
def turn (transformers : List (Transformer T A)) (cycle : Int) : Transformer T A :=
  transformers.getD (cycle % transformers.length).toNat id

/-- Also in a cycle before zero it is the turn of one of the transformers. -/
theorem getElem?_turn (h : transformers ≠ []) (cycle : Int) :
    transformers[(cycle % transformers.length).toNat]? = some (turn transformers cycle) := by
  have hlength : 0 < (transformers.length : Int) := by exact_mod_cast List.length_pos_iff.mpr h
  have hlow := Int.emod_nonneg cycle (Int.ne_of_gt hlength)
  have hhigh := Int.emod_lt_of_pos cycle hlength
  have hindex : (cycle % transformers.length).toNat < transformers.length := by omega
  rw [turn, List.getD_eq_getElem?_getD, List.getElem?_eq_getElem hindex, Option.getD_some]

theorem alternate_eq_flatMap [TimeScale T] (h : transformers ≠ []) (pattern : Pattern T A) (start stop : T) :
    alternate transformers pattern start stop =
      (cycles start stop).flatMap fun piece =>
        turn transformers (TimeScale.cycle piece.1) pattern piece.1 piece.2 := by
  cases transformers with
  | nil => exact absurd rfl h
  | cons => rfl

end

section Alternate

variable {transformers : List (Transformer Rat A)} (htransformers : transformers ≠ []) {cycle : Int}
  (hstart : cycle ≤ start)

include htransformers hstart

/-- Inside of a cycle an alternation is the transformer that has its turn. -/
theorem alternate_inside (h : start < stop) (hstop : stop ≤ (cycle + 1 : Int)) (pattern : Pattern Rat A) :
    alternate transformers pattern start stop = turn transformers cycle pattern start stop := by
  rw [alternate_eq_flatMap htransformers, cycles_inside hstart h hstop, List.flatMap_singleton,
    TimeScale.cycle_eq_floor, floor_eq_of_mem hstart (h.trans_le hstop)]

theorem alternate_across (h : start < (cycle + 1 : Int)) (hstop : (cycle + 1 : Int) ≤ stop)
    (pattern : Pattern Rat A) :
    alternate transformers pattern start stop =
      turn transformers cycle pattern start (cycle + 1 : Int) ++
        alternate transformers pattern (cycle + 1 : Int) stop := by
  rw [alternate_eq_flatMap htransformers, alternate_eq_flatMap htransformers, cycles_across hstart h hstop,
    List.flatMap_cons, TimeScale.cycle_eq_floor, floor_eq_of_mem hstart h]

end Alternate

/-- The first slot of a period that is not before a time. -/
def firstSlot (period phase time : Rat) : Int := ((time - phase) / period).ceil

/-- The slots of a window, as times. -/
def slotsIn (period phase start stop : Rat) : List Rat :=
  let first := firstSlot period phase start
  (List.range (firstSlot period phase stop - first).toNat).map fun number : Nat =>
    ((first + number : Int) : Rat) * period + phase

variable {period phase : Rat}

theorem slot_lt_iff (hperiod : 0 < period) {slot : Int} {time : Rat} :
    slot * period + phase < time ↔ slot < firstSlot period phase time := by
  rw [firstSlot, Rat.lt_ceil_iff, lt_div_iff₀ hperiod, lt_sub_iff_add_lt]

theorem le_slot_iff (hperiod : 0 < period) {slot : Int} {time : Rat} :
    time ≤ slot * period + phase ↔ firstSlot period phase time ≤ slot := by
  rw [← not_lt, slot_lt_iff hperiod, not_lt]

theorem le_firstSlot (hperiod : 0 < period) (phase time : Rat) :
    time ≤ firstSlot period phase time * period + phase := (le_slot_iff hperiod).mpr le_rfl

/-- The search goes from slot to slot, and ends at the end of the window. -/
theorem slotTimes_succ {fuel : Nat} {slot : Int} {previous : Option Rat}
    (hprevious : ∀ time ∈ previous, time < slot * period + phase) :
    slotTimes period phase start stop (fuel + 1) slot previous =
      if stop ≤ slot * period + phase then []
      else
        (if start ≤ slot * period + phase then [slot * period + phase] else []) ++
          slotTimes period phase start stop fuel (slot + 1 : Int) (some (slot * period + phase)) := by
  have hpast : isPast stop previous (slot * period + phase) = decide (stop ≤ slot * period + phase) := by
    cases previous with
    | none => simp [isPast, TimeScale.le, TimeScale.isUndefined]
    | some time =>
        have hlater := hprevious time rfl
        simp [isPast, TimeScale.le, TimeScale.isUndefined, hlater]
  have hnext : ((slot + 1 : Int) : Rat) = slot + TimeScale.ofNat 1 := by
    push_cast
    rfl
  rw [slotTimes, hpast, hnext]
  by_cases hstart : start ≤ slot * period + phase <;> simp [TimeScale.le, hstart]

/-- From a slot of the window on, the search goes through all slots before the end. -/
theorem slotTimes_of_mem (hperiod : 0 < period) {fuel : Nat} {slot : Int} {previous : Option Rat}
    (hslot : firstSlot period phase start ≤ slot) (hfuel : firstSlot period phase stop ≤ slot + fuel)
    (hprevious : ∀ time ∈ previous, time < slot * period + phase) :
    slotTimes period phase start stop fuel slot previous =
      (List.range (firstSlot period phase stop - slot).toNat).map fun number : Nat =>
        ((slot + number : Int) : Rat) * period + phase := by
  induction fuel generalizing slot previous with
  | zero =>
      have hnone : (firstSlot period phase stop - slot).toNat = 0 := by omega
      rw [hnone]
      rfl
  | succ fuel ih =>
      rw [slotTimes_succ hprevious]
      by_cases hstop : slot < firstSlot period phase stop
      · have hbefore : slot * period + phase < stop := (slot_lt_iff hperiod).mpr hstop
        have hbehind : start ≤ slot * period + phase := (le_slot_iff hperiod).mpr hslot
        have hcount : (firstSlot period phase stop - slot).toNat =
            (firstSlot period phase stop - (slot + 1)).toNat + 1 := by omega
        rw [if_neg (not_le.mpr hbefore), if_pos hbehind, ih (by omega) (by omega), hcount,
          List.range_succ_eq_map, List.map_cons, List.map_map]
        · simp [Function.comp_def, add_left_comm, add_comm]
        · rintro _ ⟨⟩
          push_cast
          linarith
      · have hpast : stop ≤ slot * period + phase := (le_slot_iff hperiod).mpr (not_lt.mp hstop)
        have hnone : (firstSlot period phase stop - slot).toNat = 0 := by omega
        rw [if_pos hpast, hnone]
        rfl

/-- The slots that a window holds are found all, in order and no others. The search ends by itself: a larger supply makes
no difference. -/
theorem slotTimes_eq (hperiod : 0 < period) {supply : Nat} (hsupply : TimeScale.strides start stop period ≤ supply) :
    slotTimes period phase start stop supply ((firstSlot period phase start - 1 : Int) : Rat) none =
      slotsIn period phase start stop := by
  have hstrides : 2 < TimeScale.strides start stop period := Nat.lt_add_left _ (by decide)
  obtain ⟨fuel, rfl⟩ : ∃ fuel, supply = fuel + 1 := ⟨supply - 1, by omega⟩
  have hbefore : ((firstSlot period phase start - 1 : Int) : Rat) * period + phase < start :=
    (slot_lt_iff hperiod).mpr (by omega)
  rw [slotTimes_succ (by simp), if_neg (not_le.mpr hbefore), List.nil_append, Int.sub_add_cancel]
  split
  case isTrue hpast =>
    rw [le_slot_iff hperiod] at hpast
    have hnone : (firstSlot period phase stop - firstSlot period phase start).toNat = 0 := by omega
    rw [slotsIn, hnone]
    rfl
  case isFalse =>
    have hbehind : start ≤ firstSlot period phase start * period + phase := le_firstSlot hperiod phase start
    have henough : firstSlot period phase stop ≤ firstSlot period phase start + fuel := by
      have hlast := TimeScale.lt_strides hperiod start stop
      have hmore : period * TimeScale.strides start stop period ≤ period * (fuel + 1 : Nat) :=
        mul_le_mul_of_nonneg_left (Nat.cast_le.mpr hsupply) hperiod.le
      rw [← le_slot_iff hperiod]
      push_cast at hmore ⊢
      linarith
    refine slotTimes_of_mem hperiod le_rfl henough ?_
    rintro _ ⟨⟩
    push_cast
    linarith

theorem mem_slotsIn (hperiod : 0 < period) {time : Rat} :
    time ∈ slotsIn period phase start stop ↔
      ∃ slot : Int, time = slot * period + phase ∧ start ≤ time ∧ time < stop := by
  simp only [slotsIn, List.mem_map, List.mem_range]
  constructor
  · rintro ⟨number, hnumber, rfl⟩
    refine ⟨_, rfl, ?_, ?_⟩
    · rw [le_slot_iff hperiod]
      omega
    · rw [slot_lt_iff hperiod]
      omega
  · rintro ⟨slot, rfl, hstart, hstop⟩
    rw [le_slot_iff hperiod] at hstart
    rw [slot_lt_iff hperiod] at hstop
    obtain ⟨number, rfl⟩ := Int.le.dest hstart
    exact ⟨number, by omega, rfl⟩

theorem firstSlot_mono (hperiod : 0 < period) (phase : Rat) {time later : Rat} (h : time ≤ later) :
    firstSlot period phase time ≤ firstSlot period phase later :=
  (le_slot_iff hperiod).mp (h.trans (le_firstSlot hperiod phase later))

/-- A window without time holds no slots. -/
theorem slotsIn_of_le (hperiod : 0 < period) (h : stop ≤ start) : slotsIn period phase start stop = [] := by
  have hnone : (firstSlot period phase stop - firstSlot period phase start).toNat = 0 := by
    have hfirst : firstSlot period phase stop ≤ firstSlot period phase start := firstSlot_mono hperiod phase h
    omega
  rw [slotsIn, hnone]
  rfl

theorem slotsIn_append (hperiod : 0 < period) {middle : Rat} (hstart : start ≤ middle)
    (hstop : middle ≤ stop) :
    slotsIn period phase start stop =
      slotsIn period phase start middle ++ slotsIn period phase middle stop := by
  obtain ⟨early, hearly⟩ := Int.le.dest (firstSlot_mono hperiod phase hstart)
  obtain ⟨late, hlate⟩ := Int.le.dest (firstSlot_mono hperiod phase hstop)
  have hwhole : (firstSlot period phase stop - firstSlot period phase start).toNat = early + late := by omega
  have hfirst : (firstSlot period phase middle - firstSlot period phase start).toNat = early := by omega
  have hlast : (firstSlot period phase stop - firstSlot period phase middle).toNat = late := by omega
  simp only [slotsIn, hwhole, hfirst, hlast, List.range_add, List.map_append, List.map_map]
  simp [← hearly, Function.comp_def, add_assoc]

/-- A pattern of a period has one event at every slot of the window. -/
theorem periodic_eq (hperiod : 0 < period) (duration : Rat) (value : A) (start stop : Rat) :
    periodic period duration phase value start stop =
      (slotsIn period phase start stop).map fun time => ⟨time, time + duration, value⟩ := by
  have hfirst : ((firstSlot period phase start - 1 : Int) : Rat) =
      TimeScale.ceil ((start - phase) / period) - TimeScale.ofNat 1 := by
    push_cast
    rfl
  have hguard : (TimeScale.le period (TimeScale.ofNat 0) || TimeScale.isUndefined period) = false := by
    simp [TimeScale.le, TimeScale.isUndefined, hperiod]
  rw [← slotTimes_eq hperiod le_rfl, hfirst]
  simp only [periodic, hguard]
  rfl

end Pattern

end Cadence
