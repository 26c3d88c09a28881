import Cadence.Proofs.Double.Value
import Cadence.Proofs.Rhythm.Windows

/-! Cycles of rounded time. Between `-2 ^ 53` and `2 ^ 53` every whole number is a double, so that a window of doubles
is cut exactly at the whole numbers inside of it: an alternation hears each cycle that has time in common with the
window, one after the other, through the transformer whose turn it is. -/

namespace Cadence

namespace TimeScale

section

variable {x y : Double} (hx : x.isNaN = false) (hy : y.isNaN = false)

include hx hy

theorem earlier_eq : earlier x y = if x.toRat ≤ y.toRat then x else y := by
  have hle : x.le y = true ↔ x.toRat ≤ y.toRat := by simp [Double.le_iff, hx, hy]
  show (if y.isNaN || x.le y then x else y) = _
  simp only [hy, Bool.false_or, hle]

theorem later_eq : later x y = if y.toRat ≤ x.toRat then x else y := by
  have hle : y.le x = true ↔ y.toRat ≤ x.toRat := by simp [Double.le_iff, hx, hy]
  show (if y.isNaN || y.le x then x else y) = _
  simp only [hy, Bool.false_or, hle]

theorem toRat_earlier : (earlier x y).toRat = min x.toRat y.toRat := by
  rw [earlier_eq hx hy]
  split
  case isTrue hle => exact (min_eq_left hle).symm
  case isFalse hgt => exact (min_eq_right (le_of_not_ge hgt)).symm

theorem toRat_later : (later x y).toRat = max x.toRat y.toRat := by
  rw [later_eq hx hy]
  split
  case isTrue hle => exact (max_eq_left hle).symm
  case isFalse hgt => exact (max_eq_right (le_of_not_ge hgt)).symm

end

theorem later_self {x : Double} (hx : x.isNaN = false) : later x x = x := by
  rw [later_eq hx hx, ite_self]

theorem cycle_eq {x : Double} (h : |x.toRat| ≤ Double.wholeLimit) : cycle x = x.toRat.floor := by
  show x.floor.truncate = _
  rw [Double.floor_eq h, Double.truncate_ofInt (Double.natAbs_floor_le h)]

end TimeScale

namespace Pattern

section

variable {start stop : Rat} {cycle : Int}

/-- The cycles that have time in common with a window, in their order. -/
def cyclesMet (start stop : Rat) : List Int := Int.range start.floor stop.ceil

theorem mem_cyclesMet : cycle ∈ cyclesMet start stop ↔ start < (cycle + 1 : Int) ∧ cycle < stop := by
  rw [cyclesMet, Int.mem_range_iff, Rat.lt_ceil_iff, ← Int.lt_add_one_iff, Rat.floor_lt_iff]

theorem exists_common_time (h : start < stop) :
    cycle ∈ cyclesMet start stop ↔ ∃ time : Rat, cycle ≤ time ∧ time < cycle + 1 ∧ start ≤ time ∧ time < stop := by
  rw [mem_cyclesMet]
  push_cast
  constructor
  · rintro ⟨hstart, hstop⟩
    refine ⟨max start cycle, le_max_right _ _, max_lt hstart (lt_add_one _), le_max_left _ _, max_lt h hstop⟩
  · rintro ⟨time, hlow, hhigh, hstart, hstop⟩
    exact ⟨hstart.trans_lt hhigh, hlow.trans_lt hstop⟩

theorem pairwise_cyclesMet (start stop : Rat) : (cyclesMet start stop).Pairwise (· < ·) := by
  rw [cyclesMet, Int.range, List.pairwise_map]
  exact List.pairwise_lt_range.imp fun h => by omega

theorem cyclesMet_of_le (h : stop ≤ cycle) : cyclesMet cycle stop = [] := by
  rw [List.eq_nil_iff_forall_not_mem]
  intro other hother
  obtain ⟨hstart, hstop⟩ := mem_cyclesMet.mp hother
  have hbefore : other < cycle := Int.cast_lt.mp (hstop.trans_le h)
  have hbehind : cycle < other + 1 := Int.cast_lt.mp hstart
  omega

/-- The first cycle of a window is that in which it starts. -/
theorem cyclesMet_cons (h : start < stop) :
    cyclesMet start stop = start.floor :: cyclesMet (start.floor + 1 : Int) stop := by
  rw [cyclesMet, cyclesMet, Rat.floor_intCast]
  exact range_eq_cons (Rat.lt_ceil_iff.mpr ((Rat.floor_le start).trans_lt h))

end

/-! ### Cuts -/

variable {A : Type} {start stop : Double}

/-- What a cycle and a window have in common, as a window. -/
def commonWindow (start stop : Double) (cycle : Int) : Double × Double :=
  (TimeScale.later start (.ofInt cycle), TimeScale.earlier (.ofInt (cycle + 1)) stop)

section

variable (hstart : |start.toRat| ≤ Double.wholeLimit) (hstop : |stop.toRat| ≤ Double.wholeLimit)

include hstart hstop

theorem bounds_of_mem_cyclesMet {cycle : Int} (h : cycle ∈ cyclesMet start.toRat stop.toRat) :
    cycle.natAbs ≤ Double.wholeLimit ∧ (cycle + 1).natAbs ≤ Double.wholeLimit := by
  obtain ⟨hbehind, hbefore⟩ := mem_cyclesMet.mp h
  have hlow : ((-Double.wholeLimit : Int) : Rat) < (cycle + 1 : Int) := by
    push_cast
    exact_mod_cast (abs_le.mp hstart).1.trans_lt hbehind
  have hhigh : (cycle : Rat) < (Double.wholeLimit : Int) := by
    exact_mod_cast hbefore.trans_le (abs_le.mp hstop).2
  rw [Int.cast_lt] at hlow hhigh
  omega

/-- The bounds of what is common are exact. -/
theorem toRat_commonWindow {cycle : Int} (h : cycle ∈ cyclesMet start.toRat stop.toRat) :
    (commonWindow start stop cycle).1.toRat = max start.toRat cycle ∧
      (commonWindow start stop cycle).2.toRat = min ((cycle + 1 : Int) : Rat) stop.toRat := by
  obtain ⟨hfirst, hnext⟩ := bounds_of_mem_cyclesMet hstart hstop h
  rw [commonWindow, TimeScale.toRat_later (Double.isNaN_of_abs_le hstart) (Double.isFinite_ofInt hfirst).1,
    TimeScale.toRat_earlier (Double.isFinite_ofInt hnext).1 (Double.isNaN_of_abs_le hstop),
    Double.toRat_ofInt_of_le hfirst, Double.toRat_ofInt_of_le hnext]
  exact ⟨rfl, rfl⟩

/-- Of a cycle behind the start of a window all is common that is before its end. -/
theorem commonWindow_of_lt {cycle : Int} (h : cycle ∈ cyclesMet start.toRat stop.toRat) (hlt : start.toRat < cycle) :
    commonWindow start stop cycle = (.ofInt cycle, TimeScale.earlier (.ofInt (cycle + 1)) stop) := by
  have hfirst := (bounds_of_mem_cyclesMet hstart hstop h).1
  rw [commonWindow, TimeScale.later_eq (Double.isNaN_of_abs_le hstart) (Double.isFinite_ofInt hfirst).1,
    Double.toRat_ofInt_of_le hfirst, if_neg (not_le.mpr hlt)]

/-- What is common with a later cycle does not depend on the cycles before. -/
theorem commonWindow_next {cycle : Int}
    (h : cycle ∈ cyclesMet ((start.toRat.floor + 1 : Int) : Rat) stop.toRat) :
    commonWindow (.ofInt (start.toRat.floor + 1)) stop cycle = commonWindow start stop cycle := by
  obtain ⟨hbehind, hbefore⟩ := mem_cyclesMet.mp h
  have hle : start.toRat.floor + 1 ≤ cycle := Int.lt_add_one_iff.mp (Int.cast_lt.mp hbehind)
  have hlt : start.toRat < cycle := by
    have hnext : start.toRat < ((start.toRat.floor + 1 : Int) : Rat) := by
      exact_mod_cast Rat.lt_floor_add_one start.toRat
    exact hnext.trans_le (Int.cast_le.mpr hle)
  have hmet : cycle ∈ cyclesMet start.toRat stop.toRat :=
    mem_cyclesMet.mpr ⟨hlt.trans (Int.cast_lt.mpr (Int.lt_succ cycle)), hbefore⟩
  rw [commonWindow_of_lt hstart hstop hmet hlt]
  rcases hle.eq_or_lt with rfl | hlater
  · rw [commonWindow, TimeScale.later_self (Double.isFinite_ofInt (bounds_of_mem_cyclesMet hstart hstop hmet).1).1]
  · have hfirst : (start.toRat.floor + 1).natAbs ≤ Double.wholeLimit := by
      have hfloor := Double.natAbs_floor_le hstart
      have hcycle := (bounds_of_mem_cyclesMet hstart hstop hmet).1
      omega
    have hvalue := Double.toRat_ofInt_of_le hfirst
    refine commonWindow_of_lt (Double.abs_toRat_ofInt_le hfirst) hstop ?_ ?_
    · rw [hvalue]
      exact h
    · rw [hvalue]
      exact Int.cast_lt.mpr hlater

/-- The step: a window is cut at the next whole number, and goes on from there if this is before its end. -/
theorem cyclesWithin_step (h : start.toRat < stop.toRat) (fuel : Nat) :
    cyclesWithin (fuel + 1) start stop = commonWindow start stop start.toRat.floor ::
      if ((start.toRat.floor + 1 : Int) : Rat) < stop.toRat then
        cyclesWithin fuel (.ofInt (start.toRat.floor + 1)) stop
      else [] := by
  have hfloor := Rat.floor_le start.toRat
  have hmet : start.toRat.floor ∈ cyclesMet start.toRat stop.toRat :=
    mem_cyclesMet.mpr ⟨by exact_mod_cast Rat.lt_floor_add_one start.toRat, hfloor.trans_lt h⟩
  obtain ⟨hfirst, hnext⟩ := bounds_of_mem_cyclesMet hstart hstop hmet
  have hstartNumber := Double.isNaN_of_abs_le hstart
  have hstopNumber := Double.isNaN_of_abs_le hstop
  have hwindow : commonWindow start stop start.toRat.floor =
      (start, TimeScale.earlier (.ofInt (start.toRat.floor + 1)) stop) := by
    rw [commonWindow, TimeScale.later_eq hstartNumber (Double.isFinite_ofInt hfirst).1,
      Double.toRat_ofInt_of_le hfirst, if_pos hfloor]
  have hcut : TimeScale.floor start + TimeScale.ofNat 1 = Double.ofInt (start.toRat.floor + 1) := by
    show start.floor + 1 = _
    rw [Double.floor_eq hstart]
    exact Double.ofInt_add_one_of_le hfirst hnext
  have hend := TimeScale.earlier_eq (Double.isFinite_ofInt hnext).1 hstopNumber
  rw [Double.toRat_ofInt_of_le hnext] at hend
  have hvalue : (TimeScale.earlier (.ofInt (start.toRat.floor + 1)) stop).toRat =
      min ((start.toRat.floor + 1 : Int) : Rat) stop.toRat := (toRat_commonWindow hstart hstop hmet).2
  have hlt : TimeScale.lt start stop = true := Double.lt_iff.mpr ⟨hstartNumber, hstopNumber, h⟩
  have hforth : TimeScale.le (TimeScale.earlier (.ofInt (start.toRat.floor + 1)) stop) start = false := by
    rw [Bool.eq_false_iff]
    intro hback
    have hle := (Double.le_iff.mp hback).2.2
    rw [hvalue] at hle
    exact absurd hle (not_le.mpr (lt_min (by exact_mod_cast Rat.lt_floor_add_one start.toRat) h))
  rw [hwindow, cyclesWithin, if_pos hlt, hcut]
  simp only [hforth, Bool.false_eq_true, if_false, List.cons.injEq, true_and]
  split
  case isTrue hmore => rw [hend, if_pos hmore.le]
  case isFalse hlast =>
    refine cyclesWithin_of_not_lt ?_ fuel
    rw [Bool.eq_false_iff]
    intro hmore
    have hlt := (Double.lt_iff.mp hmore).2.2
    rw [hvalue, min_eq_right (not_lt.mp hlast)] at hlt
    exact absurd hlt (lt_irrefl _)

/-- The run: with a stride for each of them, a window is cut into what it has in common with the cycles that it
meets. -/
theorem cyclesWithin_eq {fuel : Nat} (hfuel : stop.toRat.ceil ≤ start.toRat.floor + fuel)
    (h : start.toRat < stop.toRat) :
    cyclesWithin fuel start stop = (cyclesMet start.toRat stop.toRat).map (commonWindow start stop) := by
  induction fuel generalizing start with
  | zero =>
      have hfloor : start.toRat.floor < stop.toRat.ceil := Rat.lt_ceil_iff.mpr ((Rat.floor_le _).trans_lt h)
      omega
  | succ fuel ih =>
      have hmet : start.toRat.floor ∈ cyclesMet start.toRat stop.toRat := by
        rw [cyclesMet_cons h]
        exact List.mem_cons_self
      have hnext := (bounds_of_mem_cyclesMet hstart hstop hmet).2
      have hvalue := Double.toRat_ofInt_of_le hnext
      rw [cyclesWithin_step hstart hstop h, cyclesMet_cons h, List.map_cons]
      split
      case isTrue hmore =>
        rw [← hvalue] at hmore
        have hfuel' : stop.toRat.ceil ≤ (Double.ofInt (start.toRat.floor + 1)).toRat.floor + fuel := by
          rw [hvalue, Rat.floor_intCast]
          omega
        rw [ih (Double.abs_toRat_ofInt_le hnext) hfuel' hmore, hvalue]
        exact congrArg _ (List.map_congr_left fun cycle hcycle => commonWindow_next hstart hstop hcycle)
      case isFalse hlast => rw [cyclesMet_of_le (not_lt.mp hlast), List.map_nil]

theorem cycles_eq (h : start.toRat < stop.toRat) :
    cycles start stop = (cyclesMet start.toRat stop.toRat).map (commonWindow start stop) := by
  have hlimit : 2 * Double.wholeLimit ≤ UInt64.size := by decide
  have hfloor := Double.natAbs_floor_le hstart
  have hceil : stop.toRat.ceil ≤ Double.wholeLimit := by
    rw [← not_lt, Rat.lt_ceil_iff, not_lt]
    exact_mod_cast (abs_le.mp hstop).2
  refine cyclesWithin_eq hstart hstop ?_ h
  show _ ≤ _ + ((UInt64.size + 1 : Nat) : Int)
  omega

end

/-- Whether some whole numbers are those of the cycles that have time in common with a window, in their order, and
doubles say exactly what they have in common with it. -/
structure CyclesOf (start stop : Double) (cycles : List Int) : Prop where
  ordered : cycles.Pairwise (· < ·)
  complete (cycle : Int) : cycle ∈ cycles ↔
    ∃ time : Rat, cycle ≤ time ∧ time < cycle + 1 ∧ start.toRat ≤ time ∧ time < stop.toRat
  first (cycle : Int) (h : cycle ∈ cycles) : (commonWindow start stop cycle).1.toRat = max start.toRat cycle
  last (cycle : Int) (h : cycle ∈ cycles) :
    (commonWindow start stop cycle).2.toRat = min ((cycle + 1 : Int) : Rat) stop.toRat

section

variable {transformers : List (Transformer Double A)} (htransformers : transformers ≠ [])
  (hstart : |start.toRat| ≤ Double.wholeLimit) (hstop : |stop.toRat| ≤ Double.wholeLimit)
  (h : start.toRat < stop.toRat) (pattern : Pattern Double A)

include htransformers hstart hstop h

theorem alternate_eq_cyclesMet :
    alternate transformers pattern start stop = (cyclesMet start.toRat stop.toRat).flatMap fun cycle =>
      turn transformers cycle pattern (commonWindow start stop cycle).1 (commonWindow start stop cycle).2 := by
  rw [alternate_eq_flatMap htransformers, cycles_eq hstart hstop h, List.flatMap_map]
  refine List.flatMap_congr fun cycle hmet => ?_
  obtain ⟨hbehind, hbefore⟩ := mem_cyclesMet.mp hmet
  have hvalue := (toRat_commonWindow hstart hstop hmet).1
  have hlimit : |(commonWindow start stop cycle).1.toRat| ≤ Double.wholeLimit := by
    rw [hvalue, abs_le]
    exact ⟨(abs_le.mp hstart).1.trans (le_max_left _ _), (max_lt h hbefore).le.trans (abs_le.mp hstop).2⟩
  have hcycle : TimeScale.cycle (commonWindow start stop cycle).1 = cycle := by
    rw [TimeScale.cycle_eq hlimit, hvalue]
    exact floor_eq_of_mem (le_max_right _ _) (max_lt hbehind (Int.cast_lt.mpr (Int.lt_succ cycle)))
  rw [hcycle]

/-- A window inside of one cycle is answered by one transformer alone. -/
theorem alternate_alone {cycle : Int} (hlow : cycle ≤ start.toRat) (hhigh : stop.toRat ≤ (cycle + 1 : Int)) :
    alternate transformers pattern start stop =
      turn transformers cycle pattern start (TimeScale.earlier (.ofInt (cycle + 1)) stop) := by
  have hcycle : start.toRat.floor = cycle := floor_eq_of_mem hlow (h.trans_le hhigh)
  have hbound := Double.natAbs_floor_le hstart
  rw [hcycle] at hbound
  have hlater : TimeScale.later start (.ofInt cycle) = start := by
    rw [TimeScale.later_eq (Double.isNaN_of_abs_le hstart) (Double.isFinite_ofInt hbound).1,
      Double.toRat_ofInt_of_le hbound, if_pos hlow]
  rw [alternate_eq_cyclesMet htransformers hstart hstop h, cyclesMet_cons h, hcycle, cyclesMet_of_le hhigh,
    List.flatMap_singleton, commonWindow, hlater]

end

/-- An alternation answers a window with what each of the cycles that have time in common with it hears there, in the
order of the cycles: in cycle `c` this is number `c mod n` of the `n` transformers, before zero too. A window inside
of one cycle is answered by one of them alone. -/
theorem alternate_selects {transformers : List (Transformer Double A)} (htransformers : transformers ≠ [])
    (pattern : Pattern Double A) (hlow : Double.le (.ofInt (-Double.wholeLimit)) start = true)
    (hwindow : start.lt stop = true) (hhigh : stop.le (.ofInt Double.wholeLimit) = true) :
    CyclesOf start stop (cyclesMet start.toRat stop.toRat) ∧
      (∀ cycle : Int, transformers[(cycle % transformers.length).toNat]? = some (turn transformers cycle)) ∧
      alternate transformers pattern start stop = (cyclesMet start.toRat stop.toRat).flatMap (fun cycle =>
        turn transformers cycle pattern (commonWindow start stop cycle).1 (commonWindow start stop cycle).2) ∧
      ∀ cycle : Int, cycle ≤ start.toRat → stop.toRat ≤ (cycle + 1 : Int) →
        alternate transformers pattern start stop =
          turn transformers cycle pattern start (TimeScale.earlier (.ofInt (cycle + 1)) stop) := by
  have hlimit : (Double.wholeLimit : Int).natAbs ≤ Double.wholeLimit := Nat.le_refl _
  have hlimit' : (-Double.wholeLimit : Int).natAbs ≤ Double.wholeLimit := by omega
  have h : start.toRat < stop.toRat := (Double.lt_iff.mp hwindow).2.2
  have hfirst := (Double.le_iff.mp hlow).2.2
  have hlast := (Double.le_iff.mp hhigh).2.2
  rw [Double.toRat_ofInt_of_le hlimit', Int.cast_neg, Int.cast_natCast] at hfirst
  rw [Double.toRat_ofInt_of_le hlimit, Int.cast_natCast] at hlast
  have hstart : |start.toRat| ≤ Double.wholeLimit := abs_le.mpr ⟨hfirst, (h.trans_le hlast).le⟩
  have hstop : |stop.toRat| ≤ Double.wholeLimit := abs_le.mpr ⟨(hfirst.trans_lt h).le, hlast⟩
  have hcycles : CyclesOf start stop (cyclesMet start.toRat stop.toRat) :=
    ⟨pairwise_cyclesMet _ _, fun _ => exists_common_time h, fun _ hmet => (toRat_commonWindow hstart hstop hmet).1,
      fun _ hmet => (toRat_commonWindow hstart hstop hmet).2⟩
  exact ⟨hcycles, getElem?_turn htransformers, alternate_eq_cyclesMet htransformers hstart hstop h pattern,
    fun _ hfrom hto => alternate_alone htransformers hstart hstop h pattern hfrom hto⟩

/-- A pattern whose only event in a window is the window itself. -/
def echo : Pattern Double Nat := fun start stop => [⟨start, stop, 0⟩]

def voices : List (Transformer Double Nat) := [id, map (· + 1), map (· + 2)]

/-- From the middle of cycle -2 to the middle of cycle 0 the second of three voices is heard first. -/
theorem alternate_selects_aroundZero :
    voices ≠ [] ∧ Double.le (.ofInt (-Double.wholeLimit)) (-3 / 2) = true ∧ (-3 / 2 : Double).lt (1 / 2) = true ∧
      Double.le (1 / 2) (.ofInt Double.wholeLimit) = true ∧
      alternate voices echo (-3 / 2) (1 / 2) = [⟨-3 / 2, -1, 1⟩, ⟨-1, 0, 2⟩, ⟨0, 1 / 2, 0⟩] := by
  have hvoices : voices ≠ [] := List.cons_ne_nil _ _
  have hlow : Double.le (.ofInt (-Double.wholeLimit)) (-3 / 2) = true := by decide +kernel
  have hwindow : (-3 / 2 : Double).lt (1 / 2) = true := by decide +kernel
  have hhigh : Double.le (1 / 2) (.ofInt Double.wholeLimit) = true := by decide +kernel
  obtain ⟨-, -, hanswer, -⟩ := alternate_selects hvoices echo hlow hwindow hhigh
  have hcycles : cyclesMet (-3 / 2 : Double).toRat (1 / 2 : Double).toRat = [-2, -1, 0] := by decide +kernel
  rw [hcycles] at hanswer
  refine ⟨hvoices, hlow, hwindow, hhigh, hanswer.trans ?_⟩
  decide +kernel

end Pattern

end Cadence
