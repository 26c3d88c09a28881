import Cadence.Proofs.Double.Sign
import Mathlib.Order.Monotone.Basic

/-! Places and the values that stand there. Values grow from place to place, and the place that is looked up for a
value is the last one that is not above it; so rounding never goes back as a value grows, and it leaves the values
that have a place where they are. -/

namespace Cadence

namespace Double

@[simp] theorem unitsAt_zero : unitsAt 0 = 0 := rfl

theorem unitsAt_of_scale (scale : Nat) {fraction : Nat} (h : fraction < binade) :
    unitsAt ((scale + 1) * binade + fraction) = (binade + fraction) * Nat.pow 2 scale := by
  have hbinade : 0 < binade := by decide
  have hdiv : ((scale + 1) * binade + fraction) / binade = scale + 1 := by
    rw [Nat.add_comm, Nat.add_mul_div_right _ _ hbinade, Nat.div_eq_of_lt h, Nat.zero_add]
  have hmod : ((scale + 1) * binade + fraction) % binade = fraction := by
    rw [Nat.add_comm, Nat.add_mul_mod_self_right, Nat.mod_eq_of_lt h]
  have hnormal : ¬(scale + 1) * binade + fraction < binade := by
    rw [Nat.succ_mul]
    omega
  rw [unitsAt, if_neg hnormal, hdiv, hmod, Nat.add_sub_cancel]

/-- The last of the places of one exponent is followed by the first one of the next. -/
theorem unitsAt_of_count (scale : Nat) {count : Nat} (hlower : binade ≤ count) (hupper : count ≤ 2 * binade) :
    unitsAt (scale * binade + count) = count * Nat.pow 2 scale := by
  have hbinade : 0 < binade := by decide
  rcases Nat.lt_or_eq_of_le hupper with hlt | rfl
  · have hplace : scale * binade + count = (scale + 1) * binade + (count - binade) := by
      rw [Nat.succ_mul]
      omega
    rw [hplace, unitsAt_of_scale scale (by omega), Nat.add_sub_cancel' hlower]
  · have hplace : scale * binade + 2 * binade = (scale + 1 + 1) * binade + 0 := by
      rw [Nat.add_mul, Nat.add_mul]
      omega
    rw [hplace, unitsAt_of_scale (scale + 1) hbinade]
    show (binade + 0) * (Nat.pow 2 scale * 2) = _
    rw [Nat.add_zero, Nat.mul_comm _ 2, ← Nat.mul_assoc, Nat.mul_comm binade 2]

theorem exists_count {place : Nat} (h : binade ≤ place) :
    ∃ scale count, binade ≤ count ∧ count < 2 * binade ∧ place = scale * binade + count := by
  have hbinade : 0 < binade := by decide
  have hdiv : 0 < place / binade := Nat.div_pos h hbinade
  have hmod : place % binade < binade := Nat.mod_lt _ hbinade
  refine ⟨place / binade - 1, binade + place % binade, by omega, by omega, ?_⟩
  rw [← Nat.add_assoc, ← Nat.succ_mul, Nat.succ_eq_add_one, Nat.sub_add_cancel hdiv, Nat.div_add_mod']

/-- Values grow from place to place. -/
theorem unitsAt_lt_succ (place : Nat) : unitsAt place < unitsAt (place + 1) := by
  by_cases hsmall : place < binade
  · rw [unitsAt, if_pos hsmall]
    by_cases hnext : place + 1 < binade
    · rw [unitsAt, if_pos hnext]
      exact Nat.lt_succ_self place
    · have hfirst : place + 1 = 0 * binade + (place + 1) := by omega
      rw [hfirst, unitsAt_of_count 0 (by omega) (by omega)]
      show place < (place + 1) * 1
      omega
  · obtain ⟨scale, count, hlower, hupper, rfl⟩ := exists_count (Nat.le_of_not_lt hsmall)
    rw [Nat.add_assoc, unitsAt_of_count scale hlower (Nat.le_of_lt hupper),
      unitsAt_of_count scale (Nat.le_succ_of_le hlower) hupper]
    exact Nat.mul_lt_mul_of_pos_right (Nat.lt_succ_self count) (Nat.pow_pos (by decide))

theorem unitsAt_strictMono : StrictMono unitsAt := strictMono_nat_of_lt_succ unitsAt_lt_succ

theorem placeBelow_of_lt {units : Nat} (h : units < binade) : placeBelow units = units := by
  have hscale : units.log2 - 52 = 0 := by
    by_cases hzero : units = 0
    · rw [hzero, Nat.log2_zero]
    · exact Nat.sub_eq_zero_of_le (Nat.le_of_lt ((Nat.log2_lt hzero).mpr h))
  rw [placeBelow, hscale]
  show 0 * binade + units / 1 = units
  rw [Nat.zero_mul, Nat.zero_add, Nat.div_one]

theorem placeBelow_eq (units : Nat) :
    placeBelow units = (units.log2 - 52) * binade + units / Nat.pow 2 (units.log2 - 52) := rfl

/-- Of the steps of its exponent a value has as many as fit into 53 bits, and no fewer. -/
theorem count_bounds {units : Nat} (h : binade ≤ units) :
    binade ≤ units / Nat.pow 2 (units.log2 - 52) ∧ units / Nat.pow 2 (units.log2 - 52) < 2 * binade := by
  have hzero : units ≠ 0 := by
    rintro rfl
    exact absurd h (by decide)
  have hlog : 52 ≤ units.log2 := (Nat.le_log2 hzero).mpr h
  have hpow : 0 < Nat.pow 2 (units.log2 - 52) := Nat.pow_pos (by decide)
  constructor
  · rw [Nat.le_div_iff_mul_le hpow]
    calc binade * Nat.pow 2 (units.log2 - 52) = 2 ^ (52 + (units.log2 - 52)) := (Nat.pow_add 2 52 _).symm
      _ = 2 ^ units.log2 := by rw [Nat.add_sub_cancel' hlog]
      _ ≤ units := Nat.log2_self_le hzero
  · rw [Nat.div_lt_iff_lt_mul hpow]
    calc units < 2 ^ (units.log2 + 1) := Nat.lt_log2_self
      _ = 2 ^ (53 + (units.log2 - 52)) := by congr 1; omega
      _ = 2 * binade * Nat.pow 2 (units.log2 - 52) := Nat.pow_add 2 53 _

/-- The place that is looked up for a value is the last one that is not above it. -/
theorem unitsAt_placeBelow_le (units : Nat) :
    unitsAt (placeBelow units) ≤ units ∧ units < unitsAt (placeBelow units + 1) := by
  by_cases hsmall : units < binade
  · have hnext := unitsAt_lt_succ units
    have hvalue : unitsAt units = units := by rw [unitsAt, if_pos hsmall]
    rw [hvalue] at hnext
    rw [placeBelow_of_lt hsmall, hvalue]
    exact ⟨Nat.le_refl units, hnext⟩
  · obtain ⟨hlower, hupper⟩ := count_bounds (Nat.le_of_not_lt hsmall)
    have hpow : 0 < Nat.pow 2 (units.log2 - 52) := Nat.pow_pos (by decide)
    rw [placeBelow_eq, Nat.add_assoc, unitsAt_of_count _ hlower hupper.le,
      unitsAt_of_count _ (Nat.le_succ_of_le hlower) hupper]
    exact ⟨Nat.div_mul_le_self _ _, Nat.lt_mul_of_div_lt (Nat.lt_succ_self _) hpow⟩

theorem placeBelow_lt_iff {units place : Nat} : placeBelow units < place ↔ units < unitsAt place := by
  obtain ⟨hbelow, habove⟩ := unitsAt_placeBelow_le units
  constructor
  · exact fun h => Nat.lt_of_lt_of_le habove (unitsAt_strictMono.monotone h)
  · exact fun h => unitsAt_strictMono.lt_iff_lt.mp (Nat.lt_of_le_of_lt hbelow h)

theorem placeBelow_mono : Monotone placeBelow := by
  intro units more h
  have habove := (unitsAt_placeBelow_le more).2
  exact Nat.le_of_lt_succ (placeBelow_lt_iff.mpr (Nat.lt_of_le_of_lt h habove))

/-- Every place is found again by its value. -/
theorem placeBelow_unitsAt (place : Nat) : placeBelow (unitsAt place) = place := by
  have hbelow := (unitsAt_placeBelow_le (unitsAt place)).1
  have habove := placeBelow_lt_iff.mpr (unitsAt_lt_succ place)
  exact Nat.le_antisymm (Nat.le_of_lt_succ habove) (Nat.le_of_not_lt fun h => by
    rw [placeBelow_lt_iff] at h
    exact Nat.lt_irrefl _ h)

/-- A larger value is not rounded to an earlier place. -/
theorem placeNearest_mono {numerator larger denominator : Nat} (h : numerator ≤ larger) :
    placeNearest numerator denominator ≤ placeNearest larger denominator := by
  have hplaces : placeBelow (numerator / denominator) ≤ placeBelow (larger / denominator) :=
    placeBelow_mono (Nat.div_le_div_right h)
  unfold placeNearest
  refine min_le_min_right infinityPlace ?_
  -- Either the place behind the first value is not behind the second one, or both have the same neighbours.
  rcases Nat.lt_or_eq_of_le hplaces with hlt | heq
  · generalize placeBelow (numerator / denominator) = below at hlt ⊢
    generalize placeBelow (larger / denominator) = below' at hlt ⊢
    split_ifs <;> omega
  · rw [heq]
    generalize (unitsAt _ + unitsAt _) * denominator = middle
    split_ifs <;> omega

/-- A value that has a place is not rounded. -/
theorem placeNearest_unitsAt {place : Nat} (h : place ≤ infinityPlace) : placeNearest (unitsAt place) 1 = place := by
  have hnext := unitsAt_lt_succ place
  have hbelow : 2 * unitsAt place < (unitsAt place + unitsAt (place + 1)) * 1 := by omega
  rw [placeNearest, Nat.div_one, placeBelow_unitsAt, if_pos hbelow]
  exact Nat.min_eq_left h

theorem placeNearest_zero (denominator : Nat) : placeNearest 0 denominator = 0 := by
  have hbelow : placeBelow (0 / denominator) = 0 := by
    rw [Nat.zero_div]
    exact placeBelow_unitsAt 0
  rw [placeNearest, hbelow]
  generalize (unitsAt 0 + unitsAt (0 + 1)) * denominator = middle
  rw [if_neg (Nat.not_lt_zero middle)]
  split_ifs <;> exact Nat.zero_min _

end Double

end Cadence
