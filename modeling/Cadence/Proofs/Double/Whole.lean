import Cadence.Proofs.Double.Places

/-! Whole numbers among the doubles. Up to `2 ^ 53` on both sides of zero they are doubles themselves, and counting
among them is exact: a value that lies on the grid of the doubles has a place there, and is not rounded. -/

namespace Cadence

namespace Double

/-- What fits into 53 bits has a place at every scale, and so has the first number that does not. -/
theorem exists_place {count : Nat} (h : count ≤ 2 * binade) (scale : Nat) :
    ∃ place, place < (scale + 3) * binade ∧ unitsAt place = count * Nat.pow 2 scale := by
  have hbinade : 0 < binade := by decide
  induction scale generalizing count with
  | zero =>
      by_cases hsmall : count < binade
      · exact ⟨count, by omega, by rw [unitsAt, if_pos hsmall]; exact (Nat.mul_one count).symm⟩
      · have hvalue := unitsAt_of_count 0 (Nat.le_of_not_lt hsmall) h
        rw [Nat.zero_mul, Nat.zero_add] at hvalue
        exact ⟨count, by omega, hvalue⟩
  | succ scale ih =>
      by_cases hsmall : count < binade
      · -- A leading zero can be given up for the scale.
        obtain ⟨place, hplace, hvalue⟩ := ih (show 2 * count ≤ 2 * binade by omega)
        refine ⟨place, Nat.lt_of_lt_of_le hplace (Nat.mul_le_mul_right _ (by omega)), ?_⟩
        rw [hvalue, Nat.mul_comm 2, Nat.mul_assoc, Nat.mul_comm 2]
        rfl
      · refine ⟨(scale + 1) * binade + count, ?_, unitsAt_of_count _ (Nat.le_of_not_lt hsmall) h⟩
        rw [Nat.add_mul (scale + 1) 3]
        omega

/-- Up to here, on both sides of zero, all whole numbers are doubles. -/
def wholeLimit : Nat := Nat.pow 2 53

/-- In units one is a power of two, far below infinity. -/
theorem exists_unitsInOne_eq : ∃ scale, unitsInOne = Nat.pow 2 scale ∧ scale + 3 < 2047 := by
  refine ⟨1074, ?_, by decide⟩
  unfold unitsInOne
  exact Eq.refl _

section

variable {number : Int} (h : number.natAbs ≤ wholeLimit)

include h

/-- A whole number up to the limit has a place, and this is its value there. -/
theorem place_ofInt :
    unitsAt (ofInt number).place = number.natAbs * unitsInOne ∧ (ofInt number).place < infinityPlace := by
  obtain ⟨scale, hone, hlow⟩ := exists_unitsInOne_eq
  have hfits : number.natAbs ≤ 2 * binade := h
  obtain ⟨place, hplace, hvalue⟩ := exists_place hfits scale
  have hfinite : place < infinityPlace := Nat.lt_trans hplace (Nat.mul_lt_mul_of_pos_right hlow (by decide))
  have hnearest : (ofInt number).place = place := by
    show placeNearest (number * unitsInOne).natAbs 1 = place
    rw [Int.natAbs_mul, Int.natAbs_natCast, hone, ← hvalue]
    exact placeNearest_unitsAt (Nat.le_of_lt hfinite)
  rw [hnearest, hone]
  exact ⟨hvalue, hfinite⟩

theorem units_ofInt : (ofInt number).units = number * unitsInOne := by
  have hsize : unitsAt (ofInt number).place = (number * unitsInOne).natAbs := by
    rw [(place_ofInt h).1, Int.natAbs_mul, Int.natAbs_natCast]
  have hsign : (ofInt number).negative = decide (number * unitsInOne < 0) := rfl
  rw [units, hsize, hsign]
  simp only [decide_eq_true_eq]
  split <;> omega

theorem isFinite_ofInt : (ofInt number).isNaN = false ∧ (ofInt number).isInfinite = false := by
  have hfinite := (place_ofInt h).2
  exact ⟨decide_eq_false (Nat.not_lt.mpr (Nat.le_of_lt hfinite)), beq_eq_false_iff_ne.mpr (Nat.ne_of_lt hfinite)⟩

theorem toRat_ofInt_of_le : (ofInt number).toRat = number := by
  rw [toRat_eq, units_ofInt h, Int.cast_mul, Int.cast_natCast]
  exact mul_div_cancel_right₀ _ unitsInOne_pos_rat.ne'

/-- Counting is exact. -/
theorem ofInt_add_one_of_le (h' : (number + 1).natAbs ≤ wholeLimit) : ofInt number + 1 = ofInt (number + 1) := by
  by_cases hzero : number + 1 = 0
  · obtain rfl : number = -1 := by omega
    decide +kernel
  have hone : (1 : Int).natAbs ≤ wholeLimit := by decide
  have hsum : (ofInt number).units + (ofInt 1).units = (number + 1) * unitsInOne := by
    rw [units_ofInt h, units_ofInt hone, ← Int.add_mul]
  have hnonzero : (number + 1) * (unitsInOne : Int) ≠ 0 :=
    Int.mul_ne_zero hzero (Int.natCast_ne_zero.mpr (Nat.ne_of_gt unitsInOne_pos))
  show Double.add (ofInt number) (ofInt 1) = _
  rw [Double.add, (isFinite_ofInt h).1, (isFinite_ofInt hone).1, (isFinite_ofInt h).2, (isFinite_ofInt hone).2, hsum]
  simp only [hnonzero]
  rfl

end

theorem toRat_ofInt {number : Nat} (h : number < Nat.pow 2 53) : (ofInt number).toRat = number := by
  have hbound : (number : Int).natAbs ≤ wholeLimit := Nat.le_of_lt h
  exact (toRat_ofInt_of_le hbound).trans (Int.cast_natCast number)

end Double

end Cadence
