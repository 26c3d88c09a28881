import Cadence.Proofs.Double.Order
import Cadence.Proofs.Double.Whole
import Mathlib.Data.Rat.Floor
import Mathlib.Tactic.Linarith

/-! Doubles and the exact values that they stand for. Levels and values are in the same order, so numbers are compared
as their values are; and as long as whole numbers are doubles, going down to one of them and counting on from there
is the same for a double as for its value. -/

namespace Cadence

namespace Double

variable {x y : Double}

/-- Levels grow with the values that stand there. -/
theorem level_le_of_units_le (h : x.units ≤ y.units) : x.level ≤ y.level := by
  have hplaces {place other : Nat} : unitsAt place ≤ unitsAt other → place ≤ other := unitsAt_strictMono.le_iff_le.mp
  have hx (hplace : 0 < x.place) := unitsAt_pos hplace
  have hy (hplace : 0 < y.place) := unitsAt_pos hplace
  simp only [units] at h
  simp only [level]
  split_ifs at h ⊢
  · have hplace : y.place ≤ x.place := hplaces (by omega)
    omega
  · omega
  · omega
  · have hplace : x.place ≤ y.place := hplaces (by omega)
    omega

theorem toRat_le_iff : x.toRat ≤ y.toRat ↔ x.level ≤ y.level := by
  rw [toRat_eq, toRat_eq, div_le_div_iff_of_pos_right unitsInOne_pos_rat, Int.cast_le]
  exact ⟨level_le_of_units_le, units_le_of_level_le⟩

theorem le_iff : x.le y = true ↔ x.isNaN = false ∧ y.isNaN = false ∧ x.toRat ≤ y.toRat := by
  rw [le_iff_level, toRat_le_iff]

theorem lt_iff : x.lt y = true ↔ x.isNaN = false ∧ y.isNaN = false ∧ x.toRat < y.toRat := by
  rw [lt_iff_level, ← not_le, ← not_le, toRat_le_iff]

theorem floorInt_eq (x : Double) : x.floorInt = x.toRat.floor := by
  rw [toRat_eq]
  exact (Rat.floor_intCast_div_natCast x.units unitsInOne).symm

theorem abs_toRat_ofInt_le {number : Int} (h : number.natAbs ≤ wholeLimit) : |(ofInt number).toRat| ≤ wholeLimit := by
  rw [toRat_ofInt_of_le h, ← Int.cast_abs, ← Nat.cast_natAbs]
  exact Nat.cast_le.mpr h

section

variable (h : |x.toRat| ≤ wholeLimit)

include h

/-- What lies between whole numbers that are doubles is finite. -/
theorem place_lt_of_abs_le : x.place < infinityPlace := by
  have hlimit : (wholeLimit : Int).natAbs ≤ wholeLimit := Nat.le_refl _
  obtain ⟨hvalue, hfinite⟩ := place_ofInt hlimit
  refine Nat.lt_of_le_of_lt (unitsAt_strictMono.le_iff_le.mp ?_) hfinite
  rw [toRat_eq, abs_div, abs_of_pos unitsInOne_pos_rat, div_le_iff₀ unitsInOne_pos_rat] at h
  rw [hvalue, ← natAbs_units, Int.natAbs_natCast]
  have hunits : ((x.units.natAbs : Nat) : Rat) ≤ (wholeLimit * unitsInOne : Nat) := by
    rw [Nat.cast_natAbs, Int.cast_abs, Nat.cast_mul]
    exact h
  exact Nat.cast_le.mp hunits

theorem isNaN_of_abs_le : x.isNaN = false := isNaN_eq_false_iff.mpr (Nat.le_of_lt (place_lt_of_abs_le h))

theorem natAbs_floor_le : x.toRat.floor.natAbs ≤ wholeLimit := by
  obtain ⟨hlow, hhigh⟩ := abs_le.mp h
  have hfloor : x.toRat.floor ≤ (wholeLimit : Int) := by exact_mod_cast (Rat.floor_le x.toRat).trans hhigh
  have hfloor' : -(wholeLimit : Int) ≤ x.toRat.floor := Rat.le_floor_iff.mpr (by exact_mod_cast hlow)
  omega

theorem floor_eq : x.floor = ofInt x.toRat.floor := by
  rw [floor, if_neg (Nat.not_le.mpr (place_lt_of_abs_le h)), floorInt_eq]

end

theorem toRat_neg (x : Double) : (-x).toRat = -x.toRat := by
  rw [toRat_eq, toRat_eq, units_neg, Int.cast_neg, neg_div]

section

variable {number other : Int} (hx : x.toRat = number) (hnumber : number.natAbs ≤ wholeLimit)

include hx

theorem units_of_toRat : x.units = number * unitsInOne := by
  rw [toRat_eq, div_eq_iff unitsInOne_pos_rat.ne'] at hx
  exact_mod_cast hx

include hnumber

theorem abs_le_of_toRat : |x.toRat| ≤ wholeLimit := by
  rw [hx, ← Int.cast_abs, ← Nat.cast_natAbs]
  exact Nat.cast_le.mpr hnumber

/-- The whole part of a whole number is itself. -/
theorem truncate_of_toRat : x.truncate = number := by
  have hone : (unitsInOne : Int) ≠ 0 := Int.natCast_ne_zero.mpr (Nat.ne_of_gt unitsInOne_pos)
  have hlimit : wholeLimit = 9007199254740992 := by decide
  have hlow : Int64.minValue.toInt = -9223372036854775808 := by decide
  have hhigh : Int64.maxValue.toInt = 9223372036854775807 := by decide
  rw [truncate, isNaN_of_abs_le (abs_le_of_toRat hx hnumber), if_neg Bool.false_ne_true, units_of_toRat hx,
    Int.mul_tdiv_cancel _ hone, saturate, hlow, hhigh]
  omega

/-- Sums of whole numbers are exact. -/
theorem toRat_add_of_whole (hy : y.toRat = other) (hother : other.natAbs ≤ wholeLimit)
    (hsum : (number + other).natAbs ≤ wholeLimit) : (x + y).toRat = (number + other : Int) := by
  have hfinite {z : Double} (hz : |z.toRat| ≤ wholeLimit) : z.isInfinite = false :=
    beq_eq_false_iff_ne.mpr (Nat.ne_of_lt (place_lt_of_abs_le hz))
  have hxlimit := abs_le_of_toRat hx hnumber
  have hylimit := abs_le_of_toRat hy hother
  have hunits : x.units + y.units = (number + other) * unitsInOne := by
    rw [units_of_toRat hx, units_of_toRat hy, ← Int.add_mul]
  have hanswer : x + y = exactSum x y := by
    show Double.add x y = _
    simp only [Double.add, isNaN_of_abs_le hxlimit, isNaN_of_abs_le hylimit, hfinite hxlimit, hfinite hylimit,
      Bool.false_eq_true, if_false]
    rfl
  rw [hanswer, exactSum, hunits]
  split_ifs with hzero
  · have hone : (unitsInOne : Int) ≠ 0 := Int.natCast_ne_zero.mpr (Nat.ne_of_gt unitsInOne_pos)
    rw [(Int.mul_eq_zero.mp hzero).resolve_right hone, toRat_eq, units_signedZero, Int.cast_zero, zero_div]
  · exact toRat_ofInt_of_le hsum

end

theorem truncate_ofInt {number : Int} (h : number.natAbs ≤ wholeLimit) : (ofInt number).truncate = number :=
  truncate_of_toRat (toRat_ofInt_of_le h) h

end Double

end Cadence
