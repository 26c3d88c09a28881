import Cadence.Proofs.Double.Order
import Cadence.Proofs.Rhythm.Windows

/-! The loops over time, at whatever doubles. A step of one is lost to rounding far from zero, so that what a loop counts
may stand still; what comes to an end is the growth of the times themselves, of which there are only so many. -/

namespace Cadence

namespace Pattern

section

open TimeScale

variable {T : Type} [TimeScale T]

/-- Where a window is cut: at the next whole number, or at its end if this comes first. -/
def nextCut (start stop : T) : T := earlier (floor start + ofNat 1) stop

/-- The loop that cuts a window from `start` on ends, with these spans. -/
inductive CutsTo (stop : T) : (start : T) → (spans : List (T × T)) → Prop
  | ended {start : T} (hended : lt start stop = false) : CutsTo stop start []
  | stuck {start : T} (hmore : lt start stop = true) (hstuck : le (nextCut start stop) start = true) :
      CutsTo stop start [(start, stop)]
  | cut {start : T} {spans : List (T × T)} (hmore : lt start stop = true)
      (hforth : le (nextCut start stop) start = false) (hrest : CutsTo stop (nextCut start stop) spans) :
      CutsTo stop start ((start, nextCut start stop) :: spans)

/-- The loop over the slots from one on, behind the time of the slot before, ends with these times. -/
inductive SlotsTo (period phase start stop : T) : (slot : T) → (previous : Option T) → (times : List T) → Prop
  | past {slot : T} {previous : Option T} (hpast : isPast stop previous (slot * period + phase) = true) :
      SlotsTo period phase start stop slot previous []
  | early {slot : T} {previous : Option T} {times : List T}
      (hforth : isPast stop previous (slot * period + phase) = false)
      (hearly : le start (slot * period + phase) = false)
      (hrest : SlotsTo period phase start stop (slot + ofNat 1) (some (slot * period + phase)) times) :
      SlotsTo period phase start stop slot previous times
  | hit {slot : T} {previous : Option T} {times : List T}
      (hforth : isPast stop previous (slot * period + phase) = false)
      (hhit : le start (slot * period + phase) = true)
      (hrest : SlotsTo period phase start stop (slot + ofNat 1) (some (slot * period + phase)) times) :
      SlotsTo period phase start stop slot previous ((slot * period + phase) :: times)

end

variable {start middle stop : Double}

/-- How many doubles lie between a time and another one. -/
def room (time other : Double) : Nat := (other.level - time.level).toNat

theorem room_lt_strides (hstart : start.isNaN = false) (hstop : stop.isNaN = false) (period : Double) :
    room start stop < TimeScale.strides start stop period := by
  have hplace := Double.isNaN_eq_false_iff.mp hstart
  have hplace' := Double.isNaN_eq_false_iff.mp hstop
  have hlevel := Double.natAbs_level start
  have hlevel' := Double.natAbs_level stop
  have hstrides : 2 * Double.infinityPlace < TimeScale.strides start stop period := by
    show 2 * Double.infinityPlace < UInt64.size + 1
    decide
  rw [room]
  omega

theorem room_lt_room (h : start.lt middle = true) (h' : middle.le stop = true) :
    room middle stop < room start stop := by
  have hgrowth := (Double.lt_iff_level.mp h).2.2
  have hbound := (Double.le_iff_level.mp h').2.2
  rw [room, room]
  omega

/-- The next cut is a number in the window. -/
theorem nextCut_le (h : start.lt stop = true) : (nextCut start stop).le stop = true := by
  obtain ⟨-, hstop, -⟩ := Double.lt_iff_level.mp h
  show (if stop.isNaN || Double.le _ stop then _ else stop).le stop = true
  rw [hstop, Bool.false_or]
  split
  case isTrue hle => exact hle
  case isFalse => exact Double.le_iff_level.mpr ⟨hstop, hstop, le_rfl⟩

theorem lt_nextCut (h : start.lt stop = true) (hforth : (nextCut start stop).le start = false) :
    start.lt (nextCut start stop) = true :=
  Double.lt_of_not_le (Double.lt_iff_level.mp h).1 (Double.le_iff_level.mp (nextCut_le h)).1 hforth

theorem cutsTo_cyclesWithin {fuel : Nat} (hfuel : room start stop < fuel) :
    CutsTo stop start (cyclesWithin fuel start stop) := by
  induction fuel generalizing start with
  | zero => omega
  | succ fuel ih =>
      cases hmore : TimeScale.lt start stop with
      | false =>
          rw [cyclesWithin_of_not_lt hmore]
          exact .ended hmore
      | true =>
          rw [cyclesWithin, if_pos hmore]
          show CutsTo stop start (if TimeScale.le (nextCut start stop) start then _ else _)
          cases hforth : TimeScale.le (nextCut start stop) start with
          | true => exact .stuck hmore hforth
          | false =>
              have hless := room_lt_room (lt_nextCut hmore hforth) (nextCut_le hmore)
              exact .cut hmore hforth (ih (by omega))

theorem cutsTo_cycles (start stop : Double) : CutsTo stop start (cycles start stop) := by
  cases hmore : TimeScale.lt start stop with
  | false =>
      rw [cycles, cyclesWithin_of_not_lt hmore]
      exact .ended hmore
  | true =>
      obtain ⟨hstart, hstop, -⟩ := Double.lt_iff_level.mp hmore
      exact cutsTo_cyclesWithin (room_lt_strides hstart hstop _)

/-- Whether spans cover a window one after the other. A window may end at one of the two zeros and its last span at the
other: they are the same number. -/
structure Tiles (start stop : Double) (spans : List (Double × Double)) : Prop where
  first : spans.head?.map Prod.fst = some start
  wide : ∀ span ∈ spans, span.1.lt span.2 = true
  joined : spans.IsChain fun span next => span.2 = next.1
  last : ∃ span, spans.getLast? = some span ∧ span.2.same stop = true

theorem tiles_single (h : start.lt middle = true) (hsame : middle.same stop = true) :
    Tiles start stop [(start, middle)] where
  first := rfl
  wide := by simpa using h
  joined := .singleton _
  last := ⟨_, rfl, hsame⟩

theorem Tiles.cons {spans : List (Double × Double)} (h : start.lt middle = true) (hspans : Tiles middle stop spans) :
    Tiles start stop ((start, middle) :: spans) := by
  obtain ⟨hfirst, hwide, hjoined, last, hlast, hsame⟩ := hspans
  cases spans with
  | nil => cases hfirst
  | cons span spans =>
      have hmiddle : span.1 = middle := Option.some.inj hfirst
      exact ⟨rfl, List.forall_mem_cons.mpr ⟨h, hwide⟩, .cons_cons hmiddle.symm hjoined, last, hlast, hsame⟩

theorem CutsTo.eq_nil {spans : List (Double × Double)} (h : CutsTo stop start spans)
    (hended : start.lt stop = false) : spans = [] := by
  have hnone : ¬ TimeScale.lt start stop = true := by simpa [TimeScale.lt] using hended
  cases h with
  | ended => rfl
  | stuck hmore => exact absurd hmore hnone
  | cut hmore => exact absurd hmore hnone

/-- The run: by induction on the rounds of the loop, its spans cover what it cuts. -/
theorem CutsTo.tiles {spans : List (Double × Double)} (h : CutsTo stop start spans)
    (hmore : start.lt stop = true) : Tiles start stop spans := by
  induction h with
  | ended hended =>
      rw [show TimeScale.lt _ stop = true from hmore] at hended
      cases hended
  | stuck =>
      obtain ⟨-, hstop, -⟩ := Double.lt_iff_level.mp hmore
      exact tiles_single hmore (by simp [Double.same, hstop])
  | @cut start spans hmore hforth hrest ih =>
      have hcut := lt_nextCut hmore hforth
      cases hnext : (nextCut start stop).lt stop with
      | true => exact (ih hnext).cons hcut
      | false =>
          rw [hrest.eq_nil hnext]
          exact tiles_single hcut (Double.same_of_not_lt (nextCut_le hmore) hnext)

variable {period phase slot last time : Double} {previous : Option Double} {times : List Double}

theorem isPast_eq_false_iff : isPast stop (some last) time = false ↔
    stop.le time = false ∧ time.le last = false ∧ time.isNaN = false := by
  simp [isPast, TimeScale.le, TimeScale.isUndefined, and_assoc]

/-- A slot that is not past stands behind the one before. -/
theorem lt_of_not_past (hlast : last.isNaN = false) (h : isPast stop (some last) time = false) :
    last.lt time = true := by
  obtain ⟨-, hforth, htime⟩ := isPast_eq_false_iff.mp h
  exact Double.lt_of_not_le hlast htime hforth

theorem slotsTo_slotTimes {fuel : Nat} (hlast : last.isNaN = false) (hfuel : room last Double.infinity < fuel) :
    SlotsTo period phase start stop slot (some last) (slotTimes period phase start stop fuel slot (some last)) := by
  induction fuel generalizing slot last with
  | zero => omega
  | succ fuel ih =>
      rw [slotTimes]
      cases hpast : isPast stop (some last) (slot * period + phase) with
      | true => exact .past hpast
      | false =>
          have hgrowth := lt_of_not_past hlast hpast
          have htime := (Double.lt_iff_level.mp hgrowth).2.1
          have hless := room_lt_room hgrowth (Double.le_infinity htime)
          have henough : room (slot * period + phase) Double.infinity < fuel := by omega
          simp only [Bool.false_eq_true, if_false]
          cases hhit : TimeScale.le start (slot * period + phase) with
          | false => exact .early hpast hhit (ih htime henough)
          | true => exact .hit hpast hhit (ih htime henough)

/-- Every time that is found is in the window. -/
theorem SlotsTo.within (h : SlotsTo period phase start stop slot previous times) :
    ∀ time ∈ times, start.le time = true ∧ stop.le time = false := by
  induction h with
  | past => simp
  | early _ _ _ ih => exact ih
  | hit hforth hhit _ ih =>
      have hstop : stop.le _ = false := (Bool.or_eq_false_iff.mp (Bool.or_eq_false_iff.mp hforth).1).1
      exact List.forall_mem_cons.mpr ⟨⟨hhit, hstop⟩, ih⟩

theorem pairwise_lt_cons (h : last.lt time = true)
    (htimes : (time :: times).Pairwise fun time later => time.lt later = true) :
    (last :: time :: times).Pairwise fun time later => time.lt later = true := by
  refine htimes.cons fun later hlater => ?_
  rcases List.mem_cons.mp hlater with rfl | hlater
  · exact h
  · exact Double.lt_trans h (List.rel_of_pairwise_cons htimes hlater)

/-- The run: by induction on the rounds of the loop, each time is behind all that came before. -/
theorem SlotsTo.rising (h : SlotsTo period phase start stop slot (some last) times) (hlast : last.isNaN = false) :
    (last :: times).Pairwise fun time later => time.lt later = true := by
  generalize hprevious : some last = previous at h
  induction h generalizing last with
  | past => exact List.pairwise_singleton _ _
  | @early slot _ times hforth _ _ ih =>
      subst hprevious
      have hgrowth := lt_of_not_past hlast hforth
      have hall := pairwise_lt_cons hgrowth (ih (Double.lt_iff_level.mp hgrowth).2.1 rfl)
      exact hall.sublist ((List.sublist_cons_self _ times).cons_cons last)
  | hit hforth _ _ ih =>
      subst hprevious
      have hgrowth := lt_of_not_past hlast hforth
      exact pairwise_lt_cons hgrowth (ih (Double.lt_iff_level.mp hgrowth).2.1 rfl)

variable {A : Type}

/-- At whatever doubles, infinite ones and NaNs among them, both loops come to an end. The spans of a window follow on
each other from its start to its end, and there are none if it has no time; the events of a period begin one behind the
other, none of them before the window and none at its end or behind. -/
theorem time_loops_end (period duration phase start stop : Double) (value : A) :
    let spans := cycles start stop
    let events := periodic period duration phase value start stop
    (CutsTo stop start spans ∧ (start.lt stop = true → Tiles start stop spans) ∧ (start.lt stop = false → spans = [])) ∧
      (∃ times, SlotsTo period phase start stop (((start - phase) / period).ceil - 1) (some (-Double.infinity)) times ∧
        events = if period.le 0 || period.isNaN then [] else times.map fun time => ⟨time, time + duration, value⟩) ∧
      (events.Pairwise fun event later => event.start.lt later.start = true) ∧
      ∀ event ∈ events, start.le event.start = true ∧ stop.le event.start = false := by
  intro spans events
  have hspans : CutsTo stop start spans := cutsTo_cycles start stop
  refine ⟨⟨hspans, hspans.tiles, hspans.eq_nil⟩, ?_⟩
  have hbeginning : (-Double.infinity).isNaN = false := by decide
  let first := ((start - phase) / period).ceil - 1
  have htimes : SlotsTo period phase start stop first (some (-Double.infinity))
      (slotTimes period phase start stop (TimeScale.strides start stop period) first (some (-Double.infinity))) :=
    slotsTo_slotTimes hbeginning (room_lt_strides hbeginning (by decide) period)
  refine ⟨⟨_, htimes, rfl⟩, ?_, ?_⟩
  · show (if period.le 0 || period.isNaN then [] else _ : List (Event Double A)).Pairwise _
    split
    · exact .nil
    · exact List.pairwise_map.mpr (htimes.rising hbeginning).of_cons
  · show ∀ event ∈ (if period.le 0 || period.isNaN then [] else _ : List (Event Double A)), _
    split
    · simp
    · exact List.forall_mem_map.mpr htimes.within

/-- Where counting by one gets stuck, at `2 ^ 53`: the rest of a window is one piece, and the last event is the last
that can be counted to. -/
theorem time_loops_end_farOut :
    let start : Double := .ofInt 9007199254740991
    let far : Double := .ofInt 9007199254740992
    let stop : Double := .ofInt 9007199254740998
    start.lt stop = true ∧ Tiles start stop (cycles start stop) ∧ cycles start stop = [(start, far), (far, stop)] ∧
      cycles stop Double.nan = [] ∧
      (periodic 1 1 0 () start stop : List (Event Double Unit)).map Event.start = [start, far] := by
  intro start far stop
  have hwindow : start.lt stop = true := by decide +kernel
  have hends := time_loops_end 1 1 0 start stop ()
  refine ⟨hwindow, hends.1.2.1 hwindow, by decide +kernel, ?_, by decide +kernel⟩
  exact (time_loops_end 1 1 0 stop Double.nan ()).1.2.2 (by decide +kernel)

end Pattern

end Cadence
