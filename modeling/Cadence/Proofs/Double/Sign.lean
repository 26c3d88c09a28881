import Cadence.Double.Decimal
import Cadence.Rhythm.Exact
import Mathlib.Algebra.Order.Field.Basic
import Mathlib.Algebra.Order.Ring.Rat

/-! The sign of doubles. Decimals without a sign are read as numbers that are not negative, however large they
are, and never as a NaN. -/

namespace Cadence

namespace Double

theorem unitsAt_pos {place : Nat} (h : 0 < place) : 0 < unitsAt place := by
  unfold unitsAt
  split
  · exact h
  · exact Nat.mul_pos (Nat.add_pos_left (by decide) _) (Nat.pow_pos (by decide))

theorem unitsInOne_pos : 0 < unitsInOne := by decide +kernel

theorem unitsInOne_pos_rat : (0 : Rat) < unitsInOne := Nat.cast_pos.mpr unitsInOne_pos

theorem toRat_eq (number : Double) : number.toRat = number.units / (unitsInOne : Rat) := by
  rw [toRat, Rat.mkRat_eq_div]

theorem toRat_pos {number : Double} (hsign : number.negative = false) (hzero : number.isZero = false) :
    0 < number.toRat := by
  have hplace : 0 < number.place := Nat.pos_of_ne_zero (by simpa [isZero] using hzero)
  have hunits : 0 < number.units := by
    rw [units, hsign]
    exact Int.natCast_pos.mpr (unitsAt_pos hplace)
  rw [toRat_eq]
  exact div_pos (Int.cast_pos.mpr hunits) unitsInOne_pos_rat

theorem le_of_nonnegative {number : Double} (hsign : number.negative = false) (hnumber : number.isNaN = false) :
    Double.le 0 number = true := by
  have hzero : (0 : Double).isNaN = false ∧ (0 : Double).level = 0 := by decide +kernel
  have hlevel : number.level = number.place := by simp [level, hsign]
  simp only [Double.le, hzero, hnumber, hlevel]
  simp

/-- What is rounded is no NaN. -/
theorem isNaN_ofRatio (negative : Bool) (numerator denominator : Nat) :
    (ofRatio negative numerator denominator).isNaN = false :=
  decide_eq_false (Nat.not_lt.mpr (Nat.min_le_right _ _))

end Double

namespace Decimal

theorem exists_ofRatio (decimal : Decimal) :
    ∃ numerator denominator, decimal.toDouble false = .ofRatio false numerator denominator := by
  rw [toDouble]
  split
  · exact ⟨_, _, rfl⟩
  · exact ⟨_, _, rfl⟩

theorem negative_toDouble (decimal : Decimal) : (decimal.toDouble false).negative = false := by
  obtain ⟨numerator, denominator, hdecimal⟩ := decimal.exists_ofRatio
  rw [hdecimal]
  rfl

theorem isNaN_toDouble (decimal : Decimal) : (decimal.toDouble false).isNaN = false := by
  obtain ⟨numerator, denominator, hdecimal⟩ := decimal.exists_ofRatio
  rw [hdecimal]
  exact Double.isNaN_ofRatio false numerator denominator

end Decimal

end Cadence
