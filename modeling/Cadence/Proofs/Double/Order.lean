import Cadence.Proofs.Double.Places

/-! Doubles in their total order, in which `-0` stands before `0`. Sums grow with their operands, and products with a
factor that is not negative, also at infinities and at the zeros, as long as they are numbers. -/

namespace Cadence

namespace Double

variable {x y z : Double}

theorem rank_le_iff : x.rank ≤ y.rank ↔
    (x.negative = true ∧ y.negative = false) ∨ (x.negative = true ∧ y.negative = true ∧ y.place ≤ x.place) ∨
      (x.negative = false ∧ y.negative = false ∧ x.place ≤ y.place) := by
  simp only [rank]
  cases x.negative <;> cases y.negative <;> grind

/-- What stands below a negative double is negative. -/
theorem negative_of_rank_le (h : x.rank ≤ y.rank) (hy : y.negative = true) : x.negative = true := by
  rcases rank_le_iff.mp h with ⟨hx, -⟩ | ⟨hx, -⟩ | ⟨-, hy', -⟩
  · exact hx
  · exact hx
  · rw [hy] at hy'
    cases hy'

theorem rank_of_negative (h : x.negative = true) : x.rank ≤ -1 := by
  rw [rank, if_pos h]
  omega

theorem rank_of_positive (h : x.negative = false) : 0 ≤ x.rank := by
  rw [rank, if_neg (by simp [h])]
  omega

theorem units_le_of_rank_le (h : x.rank ≤ y.rank) : x.units ≤ y.units := by
  have hmono := unitsAt_strictMono.monotone
  simp only [units]
  rcases rank_le_iff.mp h with ⟨hx, hy⟩ | ⟨hx, hy, hplace⟩ | ⟨hx, hy, hplace⟩
  · rw [if_pos hx, if_neg (by simp [hy])]
    omega
  · simp [hx, hy, hmono hplace]
  · simp [hx, hy, hmono hplace]

theorem rank_ofUnits_mono {units larger : Int} (h : units ≤ larger) : (ofUnits units).rank ≤ (ofUnits larger).rank := by
  rw [rank_le_iff]
  rcases lt_or_ge units 0 with hneg | hpos
  · rcases lt_or_ge larger 0 with hneg' | hpos'
    · exact Or.inr (Or.inl ⟨decide_eq_true hneg, decide_eq_true hneg', placeNearest_mono (by omega)⟩)
    · exact Or.inl ⟨decide_eq_true hneg, decide_eq_false (not_lt.mpr hpos')⟩
  · exact Or.inr (Or.inr ⟨decide_eq_false (not_lt.mpr hpos), decide_eq_false (not_lt.mpr (hpos.trans h)),
      placeNearest_mono (by omega)⟩)

theorem eq_of_fields (hsign : x.negative = y.negative) (hplace : x.place = y.place) : x = y := by
  cases x
  cases y
  cases hsign
  cases hplace
  rfl

theorem rank_inj (h : x.rank = y.rank) : x = y := by
  obtain ⟨negative, place, hplace⟩ := x
  obtain ⟨negative', place', hplace'⟩ := y
  simp only [rank] at h
  cases negative <;> cases negative' <;> simp at h ⊢ <;> omega

/-! ### Sums -/

theorem isNaN_eq_false_iff : x.isNaN = false ↔ x.place ≤ infinityPlace := by
  rw [isNaN, decide_eq_false_iff_not, not_lt]

/-- An operation that answers with a NaN among its operands has operands that are numbers, if its answer is one. -/
theorem numbers_of_guarded {answer : Double}
    (h : (if x.isNaN then x else if y.isNaN then y else answer).isNaN = false) :
    x.isNaN = false ∧ y.isNaN = false := by
  by_cases hx : x.isNaN = true
  · rw [if_pos hx, hx] at h
    cases h
  · rw [if_neg hx] at h
    by_cases hy : y.isNaN = true
    · rw [if_pos hy, hy] at h
      cases h
    · exact ⟨Bool.eq_false_of_not_eq_true hx, Bool.eq_false_of_not_eq_true hy⟩

theorem numbers_of_add (h : (x + y).isNaN = false) : x.isNaN = false ∧ y.isNaN = false := numbers_of_guarded h

/-- A zero with a sign. -/
def signedZero (negative : Bool) : Double := { zero with negative }

theorem rank_signedZero (negative : Bool) : (signedZero negative).rank = if negative then -1 else 0 := by
  cases negative <;> rfl

theorem units_signedZero (negative : Bool) : (signedZero negative).units = 0 := by
  cases negative <;> rfl

/-- The sum of doubles that are not infinite. -/
def exactSum (x y : Double) : Double :=
  if x.units + y.units = 0 then signedZero (x.negative && y.negative) else ofUnits (x.units + y.units)

/-- How a sum is made that is a number. -/
theorem add_cases (h : (x + y).isNaN = false) :
    (x.isInfinite = true ∧ x + y = x) ∨ (x.isInfinite = false ∧ y.isInfinite = true ∧ x + y = y) ∨
      (x.isInfinite = false ∧ y.isInfinite = false ∧ x + y = exactSum x y) := by
  obtain ⟨hx, hy⟩ := numbers_of_add h
  have hsum : x + y = Double.add x y := rfl
  rw [hsum, Double.add, hx, hy] at h ⊢
  cases hxi : x.isInfinite with
  | true =>
      refine Or.inl ⟨rfl, ?_⟩
      rw [hxi] at h
      cases hopposed : y.isInfinite && x.negative != y.negative with
      | true =>
          rw [hopposed] at h
          cases h
      | false => rfl
  | false =>
      cases y.isInfinite with
      | true => exact Or.inr (Or.inl ⟨rfl, rfl, rfl⟩)
      | false => exact Or.inr (Or.inr ⟨rfl, rfl, rfl⟩)

theorem rank_exactSum_mono (h : y.rank ≤ z.rank) : (exactSum x y).rank ≤ (exactSum x z).rank := by
  have hunits : x.units + y.units ≤ x.units + z.units := Int.add_le_add_left (units_le_of_rank_le h) _
  have hpositive {units : Int} (hunits : 0 < units) : 0 ≤ (ofUnits units).rank :=
    rank_of_positive (decide_eq_false (not_lt.mpr hunits.le))
  have hnegative {units : Int} (hunits : units < 0) : (ofUnits units).rank ≤ -1 :=
    rank_of_negative (decide_eq_true hunits)
  unfold exactSum
  split_ifs with hy hz hz
  · rw [rank_signedZero, rank_signedZero]
    cases hneg : z.negative with
    | true => rw [negative_of_rank_le h hneg]
    | false =>
        rw [Bool.and_false, if_neg Bool.false_ne_true]
        split_ifs <;> omega
  · have hsum : 0 ≤ (ofUnits (x.units + z.units)).rank := hpositive (by omega)
    rw [rank_signedZero]
    split_ifs <;> omega
  · have hsum : (ofUnits (x.units + y.units)).rank ≤ -1 := hnegative (by omega)
    rw [rank_signedZero]
    split_ifs <;> omega
  · exact rank_ofUnits_mono hunits

/-- Infinities stand at the ends of all numbers. -/
theorem rank_le_of_infinite (hx : x.isInfinite = true) (hy : y.isNaN = false) :
    (x.negative = true → x.rank ≤ y.rank) ∧ (x.negative = false → y.rank ≤ x.rank) := by
  have hx : x.place = infinityPlace := eq_of_beq hx
  have hy := isNaN_eq_false_iff.mp hy
  simp only [rank, hx]
  constructor
  · intro hneg
    rw [if_pos hneg]
    split_ifs <;> omega
  · intro hpos
    rw [hpos, if_neg Bool.false_ne_true]
    split_ifs <;> omega

/-- Sums grow with the right operand. -/
theorem rank_add_le_add_left (h : y.rank ≤ z.rank) (hy : (x + y).isNaN = false) (hz : (x + z).isNaN = false) :
    (x + y).rank ≤ (x + z).rank := by
  obtain ⟨-, hnumber'⟩ := numbers_of_add hy
  obtain ⟨-, hnumberz⟩ := numbers_of_add hz
  by_cases hsame : y = z
  · rw [hsame]
  have hlt : y.rank < z.rank := lt_of_le_of_ne h (mt rank_inj hsame)
  rcases add_cases hy with ⟨hx, hsum⟩ | ⟨hx, hyi, hsum⟩ | ⟨hx, hyi, hsum⟩
  · rcases add_cases hz with ⟨-, hsum'⟩ | ⟨hx', -⟩ | ⟨hx', -⟩
    · rw [hsum, hsum']
    · rw [hx] at hx'
      cases hx'
    · rw [hx] at hx'
      cases hx'
  · rw [hsum]
    refine (rank_le_of_infinite hyi hz).1 ?_
    by_contra hpos
    exact absurd ((rank_le_of_infinite hyi hnumberz).2 (Bool.eq_false_of_not_eq_true hpos)) (not_le.mpr hlt)
  · rcases add_cases hz with ⟨hx', -⟩ | ⟨-, hzi, hsum'⟩ | ⟨-, -, hsum'⟩
    · rw [hx] at hx'
      cases hx'
    · rw [hsum']
      refine (rank_le_of_infinite hzi hy).2 ?_
      by_contra hneg
      exact absurd ((rank_le_of_infinite hzi hnumber').1 (Bool.eq_true_of_not_eq_false hneg)) (not_le.mpr hlt)
    · rw [hsum, hsum']
      exact rank_exactSum_mono h

/-- Operands that are numbers may change places. -/
theorem add_comm_of_number (h : (x + y).isNaN = false) : x + y = y + x := by
  obtain ⟨hx, hy⟩ := numbers_of_add h
  show Double.add x y = Double.add y x
  simp only [Double.add, hx, hy, Bool.false_eq_true, if_false, Int.add_comm y.units, Bool.and_comm y.negative]
  cases hxi : x.isInfinite with
  | false => simp
  | true =>
      cases hyi : y.isInfinite with
      | false => simp
      | true =>
          have hplace : x.place = y.place := (eq_of_beq hxi).trans (eq_of_beq hyi).symm
          obtain ⟨negative, place, hlt⟩ := x
          obtain ⟨negative', place', hlt'⟩ := y
          obtain rfl : place = place' := hplace
          cases negative <;> cases negative' <;> rfl

theorem rank_add_le_add_right (h : y.rank ≤ z.rank) (hy : (y + x).isNaN = false) (hz : (z + x).isNaN = false) :
    (y + x).rank ≤ (z + x).rank := by
  have hy' := add_comm_of_number hy
  have hz' := add_comm_of_number hz
  rw [hy'] at hy ⊢
  rw [hz'] at hz ⊢
  exact rank_add_le_add_left h hy hz

theorem natAbs_units (x : Double) : x.units.natAbs = unitsAt x.place := by
  rw [units]
  split <;> simp

theorem place_of_units (h : x.units = 0) : x.place = 0 := by
  by_contra hplace
  have hvalue := unitsAt_pos (Nat.pos_of_ne_zero hplace)
  rw [← natAbs_units, h] at hvalue
  exact absurd hvalue (Nat.lt_irrefl 0)

theorem negative_of_units (h : x.units ≠ 0) : decide (x.units < 0) = x.negative := by
  have hvalue := natAbs_units x
  rw [units] at h ⊢
  cases hneg : x.negative with
  | true =>
      rw [hneg, if_pos rfl] at h
      exact decide_eq_true (by rw [if_pos rfl]; omega)
  | false => exact decide_eq_false (by rw [if_neg Bool.false_ne_true]; omega)

/-- The value of a double is not rounded. -/
theorem ofUnits_units (hx : x.isNaN = false) (hunits : x.units ≠ 0) : ofUnits x.units = x := by
  refine eq_of_fields (negative_of_units hunits) ?_
  show placeNearest x.units.natAbs 1 = x.place
  rw [natAbs_units, placeNearest_unitsAt (isNaN_eq_false_iff.mp hx)]

theorem add_signedZero (hx : x.isNaN = false) : x + signedZero true = x := by
  have hzero : (signedZero true).isNaN = false ∧ (signedZero true).isInfinite = false ∧ (signedZero true).units = 0 :=
    ⟨by decide, by decide, units_signedZero true⟩
  show Double.add x (signedZero true) = x
  simp only [Double.add, hx, hzero, Bool.false_eq_true, if_false, Int.add_zero, Bool.false_and]
  cases hxi : x.isInfinite with
  | true => rfl
  | false =>
      rw [if_neg Bool.false_ne_true]
      split_ifs with hunits
      · exact eq_of_fields (Bool.and_true _) (place_of_units hunits).symm
      · exact ofUnits_units hx hunits

/-- What is added to a double leaves it where it is or moves it up, if it is not below zero. -/
theorem rank_le_add (hy : -1 ≤ y.rank) (h : (x + y).isNaN = false) : x.rank ≤ (x + y).rank := by
  have hsame := add_signedZero (numbers_of_add h).1
  have hmono : (x + signedZero true).rank ≤ (x + y).rank :=
    rank_add_le_add_left (by rwa [rank_signedZero]) (by rw [hsame]; exact (numbers_of_add h).1) h
  rwa [hsame] at hmono

theorem sub_eq_add_neg (h : (x - y).isNaN = false) : x - y = x + -y ∧ x.isNaN = false ∧ y.isNaN = false := by
  have hsub : x - y = Double.sub x y := rfl
  rw [hsub, Double.sub] at h ⊢
  split at h
  case isTrue hnan =>
    rw [(Bool.and_eq_true_iff.mp hnan).1] at h
    cases h
  case isFalse hnan =>
    rw [if_neg hnan]
    exact ⟨rfl, numbers_of_add (y := -y) h⟩

theorem rank_sub_le_sub_right (h : y.rank ≤ z.rank) (hy : (y - x).isNaN = false) (hz : (z - x).isNaN = false) :
    (y - x).rank ≤ (z - x).rank := by
  have hsum := (sub_eq_add_neg hy).1
  have hsum' := (sub_eq_add_neg hz).1
  rw [hsum] at hy ⊢
  rw [hsum'] at hz ⊢
  exact rank_add_le_add_right h hy hz

theorem level_eq (x : Double) : x.level = if x.negative then -(x.place : Int) else x.place := rfl

theorem le_iff_level : x.le y = true ↔ x.isNaN = false ∧ y.isNaN = false ∧ x.level ≤ y.level := by
  simp only [Double.le, Bool.and_eq_true, Bool.not_eq_true', decide_eq_true_eq, and_assoc]

theorem lt_iff_level : x.lt y = true ↔ x.isNaN = false ∧ y.isNaN = false ∧ x.level < y.level := by
  simp only [Double.lt, Bool.and_eq_true, Bool.not_eq_true', decide_eq_true_eq, and_assoc]

theorem lt_trans (h : x.lt y = true) (h' : y.lt z = true) : x.lt z = true := by
  obtain ⟨hx, -, hlevel⟩ := lt_iff_level.mp h
  obtain ⟨-, hz, hlevel'⟩ := lt_iff_level.mp h'
  exact lt_iff_level.mpr ⟨hx, hz, hlevel.trans hlevel'⟩

/-- Of two numbers the one that is not reached is the greater. -/
theorem lt_of_not_le (hx : x.isNaN = false) (hy : y.isNaN = false) (h : y.le x = false) : x.lt y = true := by
  rw [Bool.eq_false_iff, ne_eq, le_iff_level] at h
  exact lt_iff_level.mpr ⟨hx, hy, not_le.mp fun hlevel => h ⟨hy, hx, hlevel⟩⟩

theorem le_of_not_lt (hx : x.isNaN = false) (hy : y.isNaN = false) (h : y.lt x = false) : x.le y = true := by
  rw [Bool.eq_false_iff, ne_eq, lt_iff_level] at h
  exact le_iff_level.mpr ⟨hx, hy, not_lt.mp fun hlevel => h ⟨hy, hx, hlevel⟩⟩

theorem not_lt_of_le (h : x.le y = true) : y.lt x = false := by
  have hlevel := (le_iff_level.mp h).2.2
  rw [Bool.eq_false_iff, ne_eq, lt_iff_level]
  exact fun hlt => absurd hlt.2.2 (not_lt.mpr hlevel)

theorem same_of_not_lt (h : x.le y = true) (h' : x.lt y = false) : x.same y = true := by
  obtain ⟨hx, hy, hlevel⟩ := le_iff_level.mp h
  rw [Bool.eq_false_iff, ne_eq, lt_iff_level] at h'
  have hsame : x.level = y.level := le_antisymm hlevel (not_lt.mp fun hlt => h' ⟨hx, hy, hlt⟩)
  simp [same, hx, hy, hsame]

theorem natAbs_level (x : Double) : x.level.natAbs = x.place := by
  rw [level_eq]
  split_ifs <;> omega

theorem le_infinity (h : x.isNaN = false) : x.le infinity = true := by
  have hplace := isNaN_eq_false_iff.mp h
  have hlevel := natAbs_level x
  have htop : infinity.level = infinityPlace := rfl
  exact le_iff_level.mpr ⟨h, by decide, by omega⟩

/-- Whether a double is not below zero: `-0` is not. -/
theorem nonneg_iff : -1 ≤ x.rank ↔ (x.negative = true → x.place = 0) := by
  rw [rank]
  cases x.negative with
  | true =>
      rw [if_pos rfl]
      exact ⟨fun h _ => by omega, fun h => by rw [h rfl]; decide⟩
  | false => simp [Int.le_trans (show (-1 : Int) ≤ 0 by decide) (Int.natCast_nonneg _)]

theorem rank_of_nonneg (h : Double.le 0 x = true) : -1 ≤ x.rank := by
  have hlevel : (0 : Double).level ≤ x.level := (le_iff_level.mp h).2.2
  have hzero : (0 : Double).level = 0 := by decide +kernel
  rw [hzero, level] at hlevel
  rw [nonneg_iff]
  intro hsign
  rw [if_pos hsign] at hlevel
  omega

theorem units_le_of_level_le (h : x.level ≤ y.level) : x.units ≤ y.units := by
  have hmono := unitsAt_strictMono.monotone
  simp only [level] at h
  simp only [units]
  split_ifs at h ⊢
  · have hvalues : unitsAt y.place ≤ unitsAt x.place := hmono (show y.place ≤ x.place by omega)
    omega
  · omega
  · have hx : x.place = 0 := by omega
    have hy : y.place = 0 := by omega
    rw [hx, hy, unitsAt_zero]
    exact le_rfl
  · exact_mod_cast hmono (show x.place ≤ y.place by omega)

theorem units_neg (x : Double) : (-x).units = -x.units := by
  show (if (!x.negative) = true then -(unitsAt x.place : Int) else unitsAt x.place) = -x.units
  rw [units]
  cases x.negative <;> simp

theorem isNaN_add_neg (h : x.isInfinite = true) : (x + -x).isNaN = true := by
  have hinfinite : (-x).isInfinite = true := h
  have hnumber : x.isNaN = false := isNaN_eq_false_iff.mpr (eq_of_beq h).le
  have hnumber' : (-x).isNaN = false := hnumber
  have hsign : (-x).negative = !x.negative := rfl
  show (Double.add x (-x)).isNaN = true
  simp only [Double.add, hnumber, hnumber', h, hinfinite, hsign, Bool.false_eq_true, if_false, if_true]
  cases x.negative <;> rfl

/-- What is taken from a double that is not below it leaves nothing below zero. -/
theorem rank_sub_nonneg (h : Double.le x y = true) (hsub : (y - x).isNaN = false) : -1 ≤ (y - x).rank := by
  have hlevel : x.level ≤ y.level := (le_iff_level.mp h).2.2
  obtain ⟨hsum, hy, hx⟩ := sub_eq_add_neg hsub
  rw [hsum] at hsub ⊢
  have hneg := units_neg x
  rw [level_eq, level_eq] at hlevel
  have hxplace := isNaN_eq_false_iff.mp hx
  rcases add_cases hsub with ⟨hyi, hanswer⟩ | ⟨hyi, hxi, hanswer⟩ | ⟨-, -, hanswer⟩
  · -- Below the lower infinity stands nothing but itself, and from itself it cannot be taken.
    rw [hanswer, nonneg_iff]
    intro hnegative
    have hyplace : y.place = infinityPlace := eq_of_beq hyi
    have hpositive : 0 < infinityPlace := by decide
    rw [if_pos hnegative] at hlevel
    have hsame : x = y := by
      split_ifs at hlevel with hxneg
      · exact eq_of_fields (hxneg.trans hnegative.symm) (by omega)
      · omega
    rw [hsame, isNaN_add_neg hyi] at hsub
    cases hsub
  · rw [hanswer, nonneg_iff]
    intro hnegative
    have hpositive : x.negative = false := by
      have hflip : (-x).negative = !x.negative := rfl
      rwa [hflip, Bool.not_eq_true'] at hnegative
    have hplace : x.place = infinityPlace := eq_of_beq hxi
    have hbelow := isNaN_eq_false_iff.mp hy
    rw [isInfinite, beq_eq_false_iff_ne] at hyi
    rw [hpositive, if_neg Bool.false_ne_true, hplace] at hlevel
    split_ifs at hlevel <;> omega
  · rw [hanswer, exactSum]
    split_ifs with hzero
    · rw [rank_signedZero]
      split_ifs <;> omega
    · have hunits := units_le_of_level_le hlevel
      have hsum : 0 ≤ (ofUnits (y.units + (-x).units)).rank := rank_of_positive (decide_eq_false (by omega))
      omega

/-! ### Products -/

theorem numbers_of_mul (h : (x * y).isNaN = false) : x.isNaN = false ∧ y.isNaN = false := numbers_of_guarded h

/-- How a product is made that is a number. -/
theorem mul_fields (h : (x * y).isNaN = false) :
    (x * y).negative = (x.negative != y.negative) ∧
      (((x.isInfinite = true ∨ y.isInfinite = true) ∧ x.isZero = false ∧ y.isZero = false ∧
          (x * y).place = infinityPlace) ∨
        (x.isInfinite = false ∧ y.isInfinite = false ∧
          (x * y).place = placeNearest (unitsAt x.place * unitsAt y.place) unitsInOne)) := by
  obtain ⟨hx, hy⟩ := numbers_of_mul h
  have hproduct : x * y = Double.mul x y := rfl
  simp only [hproduct, Double.mul, hx, hy, Bool.false_eq_true, if_false] at h ⊢
  split_ifs at h ⊢ with hinf hzero
  · cases h
  · rw [Bool.or_eq_true] at hinf
    rw [Bool.not_eq_true, Bool.or_eq_false_iff] at hzero
    exact ⟨rfl, Or.inl ⟨hinf, hzero.1, hzero.2, rfl⟩⟩
  · rw [Bool.not_eq_true, Bool.or_eq_false_iff] at hinf
    exact ⟨rfl, Or.inr ⟨hinf.1, hinf.2, rfl⟩⟩

section

variable (hy : (y * x).isNaN = false) (hz : (z * x).isNaN = false)

include hy hz

theorem place_mul_mono (h : y.place ≤ z.place) : (y * x).place ≤ (z * x).place := by
  obtain ⟨-, ⟨-, -, -, hproduct⟩ | ⟨hzi, hxi, hproduct⟩⟩ := mul_fields hz
  · rw [hproduct]
    exact isNaN_eq_false_iff.mp hy
  · have hnumber := isNaN_eq_false_iff.mp (numbers_of_mul hz).1
    have hfinite : y.isInfinite = false := by
      rw [isInfinite, beq_eq_false_iff_ne] at hzi ⊢
      omega
    obtain ⟨-, ⟨hinfinite | hinfinite, -⟩ | ⟨-, -, hproduct'⟩⟩ := mul_fields hy
    · rw [hfinite] at hinfinite
      cases hinfinite
    · rw [hxi] at hinfinite
      cases hinfinite
    · rw [hproduct, hproduct']
      exact placeNearest_mono (Nat.mul_le_mul_right _ (unitsAt_strictMono.monotone h))

/-- Products with a factor that is not negative grow with the other one. -/
theorem rank_mul_le_mul_right (hx : x.negative = false) (h : y.rank ≤ z.rank) : (y * x).rank ≤ (z * x).rank := by
  have hsign := (mul_fields hy).1
  have hsign' := (mul_fields hz).1
  rw [hx, Bool.bne_false] at hsign hsign'
  rw [rank_le_iff, hsign, hsign']
  rcases rank_le_iff.mp h with hapart | ⟨hneg, hneg', hplace⟩ | ⟨hpos, hpos', hplace⟩
  · exact Or.inl hapart
  · exact Or.inr (Or.inl ⟨hneg, hneg', place_mul_mono hz hy hplace⟩)
  · exact Or.inr (Or.inr ⟨hpos, hpos', place_mul_mono hy hz hplace⟩)

end

theorem rank_mul_nonneg (hx : -1 ≤ x.rank) (hy : -1 ≤ y.rank) (h : (x * y).isNaN = false) : -1 ≤ (x * y).rank := by
  rw [nonneg_iff] at hx hy ⊢
  obtain ⟨hsign, hplace⟩ := mul_fields h
  rw [hsign]
  intro hnegative
  have hzero : x.place = 0 ∨ y.place = 0 := by
    cases hneg : x.negative with
    | true => exact Or.inl (hx hneg)
    | false =>
        rw [hneg, Bool.false_bne] at hnegative
        exact Or.inr (hy hnegative)
  rcases hplace with ⟨-, hxz, hyz, -⟩ | ⟨-, -, hplace⟩
  · rw [isZero, beq_eq_false_iff_ne] at hxz hyz
    exact absurd hzero (by simp [hxz, hyz])
  · have hproduct : unitsAt x.place * unitsAt y.place = 0 := by
      rcases hzero with hzero | hzero <;> rw [hzero, unitsAt_zero] <;> simp
    rw [hplace, hproduct, placeNearest_zero]

theorem negative_div (h : (x / y).isNaN = false) : (x / y).negative = (x.negative != y.negative) := by
  obtain ⟨hx, hy⟩ := numbers_of_guarded h
  have hquotient : x / y = Double.div x y := rfl
  simp only [hquotient, Double.div, hx, hy, Bool.false_eq_true, if_false] at h ⊢
  -- An answer that is a number has the sign of the quotient, finite or not.
  split_ifs at h ⊢
  all_goals first
    | rfl
    | cases h

end Double

end Cadence
