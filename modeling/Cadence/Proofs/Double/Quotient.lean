import Cadence.Proofs.Double.Order

/-! Quotients of positive numbers. What is rounded is the exact ratio of two values, and the ratio alone decides where
it is rounded to; so a quotient grows with the dividend and shrinks as the divisor grows. -/

namespace Cadence

namespace Double

/-- It is the ratio that is rounded, however it is written. -/
theorem placeNearest_mul (numerator denominator : Nat) {factor : Nat} (h : 0 < factor) :
    placeNearest (numerator * factor) (denominator * factor) = placeNearest numerator denominator := by
  have hbelow : numerator * factor / (denominator * factor) = numerator / denominator :=
    Nat.mul_div_mul_right numerator denominator h
  unfold placeNearest
  simp only [hbelow, ← Nat.mul_assoc, Nat.mul_lt_mul_right h]

/-- A larger ratio is not rounded to an earlier place. -/
theorem placeNearest_le_of_ratio {numerator denominator numerator' denominator' : Nat} (hpos : 0 < denominator)
    (hpos' : 0 < denominator') (h : numerator * denominator' ≤ numerator' * denominator) :
    placeNearest numerator denominator ≤ placeNearest numerator' denominator' := by
  calc placeNearest numerator denominator
      = placeNearest (numerator * denominator') (denominator * denominator') :=
        (placeNearest_mul numerator denominator hpos').symm
    _ ≤ placeNearest (numerator' * denominator) (denominator * denominator') := placeNearest_mono h
    _ = placeNearest (numerator' * denominator) (denominator' * denominator) := by rw [Nat.mul_comm denominator]
    _ = placeNearest numerator' denominator' := placeNearest_mul numerator' denominator' hpos

/-- Whether a double is a number above zero that is not infinite. -/
def IsPositive (x : Double) : Prop := 0 < x.level ∧ x.level < infinityPlace

instance (x : Double) : Decidable x.IsPositive := inferInstanceAs (Decidable (_ ∧ _))

variable {x y z w : Double}

theorem IsPositive.of_le {least greatest : Double} (hleast : least.IsPositive) (hgreatest : greatest.IsPositive)
    (h : least.le x = true) (h' : x.le greatest = true) : x.IsPositive :=
  ⟨hleast.1.trans_le (le_iff_level.mp h).2.2, (le_iff_level.mp h').2.2.trans_lt hgreatest.2⟩

/-- What a positive number is made of. -/
theorem IsPositive.fields (h : x.IsPositive) :
    x.negative = false ∧ x.level = x.place ∧ 0 < x.place ∧ x.place < infinityPlace := by
  obtain ⟨hpos, hfinite⟩ := h
  rw [level_eq] at hpos hfinite ⊢
  cases hsign : x.negative with
  | true =>
      rw [hsign, if_pos rfl] at hpos
      omega
  | false =>
      rw [hsign, if_neg Bool.false_ne_true] at hpos hfinite
      exact ⟨rfl, rfl, by omega, by omega⟩

theorem IsPositive.flags (h : x.IsPositive) : x.isNaN = false ∧ x.isInfinite = false ∧ x.isZero = false := by
  obtain ⟨-, -, hpos, hfinite⟩ := h.fields
  exact ⟨isNaN_eq_false_iff.mpr hfinite.le, beq_eq_false_iff_ne.mpr hfinite.ne, beq_eq_false_iff_ne.mpr hpos.ne'⟩

theorem IsPositive.place_le (hx : x.IsPositive) (hy : y.IsPositive) (h : x.le y = true) : x.place ≤ y.place := by
  have hlevel := (le_iff_level.mp h).2.2
  rw [hx.fields.2.1, hy.fields.2.1] at hlevel
  exact Int.ofNat_le.mp hlevel

theorem div_of_positive (hx : x.IsPositive) (hy : y.IsPositive) :
    x / y = ofRatio false (unitsAt x.place * unitsInOne) (unitsAt y.place) := by
  show Double.div x y = _
  simp only [Double.div, hx.fields.1, hy.fields.1, hx.flags, hy.flags, Bool.false_eq_true, if_false]
  rfl

/-- Quotients grow with the dividend and shrink as the divisor grows. -/
theorem div_le_div (hx : x.IsPositive) (hy : y.IsPositive) (hz : z.IsPositive) (hw : w.IsPositive)
    (h : x.le y = true) (h' : w.le z = true) : (x / z).le (y / w) = true := by
  have hmono := unitsAt_strictMono.monotone
  have hratio : unitsAt x.place * unitsInOne * unitsAt w.place ≤ unitsAt y.place * unitsInOne * unitsAt z.place :=
    Nat.mul_le_mul (Nat.mul_le_mul_right _ (hmono (hx.place_le hy h))) (hmono (hw.place_le hz h'))
  have hrounded := placeNearest_le_of_ratio (unitsAt_pos hz.fields.2.2.1) (unitsAt_pos hw.fields.2.2.1) hratio
  rw [div_of_positive hx hz, div_of_positive hy hw]
  exact le_iff_level.mpr ⟨isNaN_ofRatio _ _ _, isNaN_ofRatio _ _ _, Int.ofNat_le.mpr hrounded⟩

end Double

end Cadence
