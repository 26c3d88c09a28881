import Cadence.Proofs.Double.Whole
import Cadence.Proofs.Program.Vocabulary
import Cadence.Proofs.Rhythm.Held
import Mathlib.Tactic.IntervalCases

/-! The alternations of programs that go by blocks of cycles. A name with a power at its end stands for an alternation
whose turns last for this power of two, or of one half; the factors are small enough that no limit of `fast` or `slow`
comes in. -/

namespace Cadence

open Vocabulary

theorem Step.applyEach_eq_map {T : Type} [TimeScale T] (steps : List Step) :
    (Step.applyEach steps : List (Transformer T Note)) = steps.map Step.apply := by
  induction steps with
  | nil => rfl
  | cons step steps ih => rw [Step.applyEach, ih, List.map_cons]

namespace Step

variable {scale : Double} {steps : List Step}

theorem fastFactor_eq (h : scale.toRat ≤ 128) : (fastFactor scale : Rat) = scale.toRat := by
  rw [fastFactor, TimeScale.earlier_eq_min]
  exact min_eq_left h

theorem slowFactor_eq (h : 1 / 128 ≤ scale.toRat) : (slowFactor scale : Rat) = scale.toRat := by
  rw [slowFactor, TimeScale.later_eq_max]
  exact max_eq_left h

section

variable (hlow : 1 / 128 ≤ scale.toRat) (hhigh : scale.toRat ≤ 128)

include hlow hhigh

/-- Between the limits a held alternation means what its factor says. -/
theorem apply_held : (held scale steps).apply = Pattern.held scale.toRat (steps.map Step.apply) := by
  simp [held, Pattern.held, apply, applyEach_eq_map, fastFactor_eq hhigh, slowFactor_eq hlow, Function.comp_def]

theorem apply_zoomed : (zoomed scale steps).apply = Pattern.zoomed scale.toRat (steps.map Step.apply) := by
  simp [zoomed, Pattern.zoomed, apply, applyEach_eq_map, fastFactor_eq hhigh, slowFactor_eq hlow]

end

end Step

namespace Vocabulary

theorem toRat_scaleUp {power : Nat} (h : power < 7) : (scaleUp power).toRat = Nat.pow 2 power := by
  refine Double.toRat_ofInt ?_
  interval_cases power <;> decide

theorem toRat_scaleDown {power : Nat} (h : power < 7) : (scaleDown power).toRat = 1 / Nat.pow 2 power := by
  interval_cases power <;> decide +kernel

/-- Whether a name stands for a function of any number of steps that combines their transformers in some way. -/
def Combines (name : String) (combination : List (Transformer Rat Note) → Transformer Rat Note) : Prop :=
  ∀ scope, ∃ operation, nameMeaning name scope = .ok (.function ⟨operation, none⟩) ∧
    ∀ (steps : List Step) caller, ∃ step,
      dialect.call operation (steps.map Value.step) caller = .ok (.step step, caller) ∧
        step.apply = combination (steps.map Step.apply)

theorem nameMeaning_families {power : Nat} (h : power < 7) (scope : Scope Reading) :
    nameMeaning ("alt" ++ toString power) scope = .ok (.function ⟨.held (scaleUp power), none⟩) ∧
      nameMeaning ("out" ++ toString power) scope = .ok (.function ⟨.zoomed (scaleUp power), none⟩) ∧
      nameMeaning ("in" ++ toString power) scope = .ok (.function ⟨.zoomed (scaleDown power), none⟩) := by
  interval_cases power <;> exact ⟨rfl, rfl, rfl⟩

theorem combines_of_built {name : String} {operation : Operation}
    {combination : List (Transformer Rat Note) → Transformer Rat Note} (hcombines : operation ≠ .channel)
    (hname : ∀ scope, nameMeaning name scope = .ok (.function ⟨operation, none⟩))
    (hbuilt : ∀ steps : List Step, (operation.built steps).apply = combination (steps.map Step.apply)) :
    Combines name combination := fun scope =>
  ⟨operation, hname scope, fun steps _ =>
    ⟨operation.built steps, (call_eq_ok hcombines).mpr ⟨steps, rfl, rfl, rfl⟩, hbuilt steps⟩⟩

/-- The powers of two that names can have stay within the limits of `fast` and `slow`. -/
theorem scale_bounds {power : Nat} (h : power < 7) :
    (1 / 128 ≤ (Nat.pow 2 power : Rat) ∧ (Nat.pow 2 power : Rat) ≤ 128) ∧
      1 / 128 ≤ (1 / Nat.pow 2 power : Rat) ∧ (1 / Nat.pow 2 power : Rat) ≤ 128 := by
  interval_cases power <;> norm_num

/-- What the names with a power of two at their ends stand for, and who has the turn in each block: an alternation
named `alt` answers as the transformer whose turn it is; one named `out` or `in` answers as this transformer does on
compressed time, stretched again. -/
theorem names_blockwise (power : Nat) (hpower : power < 7) :
    Combines ("alt" ++ toString power) (Pattern.held (Nat.pow 2 power)) ∧
      Combines ("out" ++ toString power) (Pattern.zoomed (Nat.pow 2 power)) ∧
      Combines ("in" ++ toString power) (Pattern.zoomed (1 / Nat.pow 2 power)) ∧
      ∀ (A : Type) (transformers : List (Transformer Rat A)), transformers ≠ [] →
        Pattern.Blockwise (Nat.pow 2 power) transformers id (Pattern.held (Nat.pow 2 power) transformers) ∧
          ∀ factor : Rat, factor = Nat.pow 2 power ∨ factor = 1 / Nat.pow 2 power →
            Pattern.Blockwise factor transformers
              (fun chosen pattern => Pattern.slow factor (chosen (Pattern.fast factor pattern)))
              (Pattern.zoomed factor transformers) := by
  obtain ⟨⟨hlow, hhigh⟩, hdownLow, hdownHigh⟩ := scale_bounds hpower
  rw [← toRat_scaleUp hpower] at hlow hhigh
  rw [← toRat_scaleDown hpower] at hdownLow hdownHigh
  have hup : 0 < (Nat.pow 2 power : Rat) := by exact_mod_cast Nat.pow_pos (by decide : 0 < 2)
  refine ⟨?_, ?_, ?_, fun A transformers htransformers => ⟨Pattern.blockwise_held hup htransformers, ?_⟩⟩
  · rw [← toRat_scaleUp hpower]
    exact combines_of_built (by simp) (fun scope => (nameMeaning_families hpower scope).1)
      fun _ => Step.apply_held hlow hhigh
  · rw [← toRat_scaleUp hpower]
    exact combines_of_built (by simp) (fun scope => (nameMeaning_families hpower scope).2.1)
      fun _ => Step.apply_zoomed hlow hhigh
  · rw [← toRat_scaleDown hpower]
    exact combines_of_built (by simp) (fun scope => (nameMeaning_families hpower scope).2.2)
      fun _ => Step.apply_zoomed hdownLow hdownHigh
  · rintro factor (rfl | rfl)
    · exact Pattern.blockwise_zoomed hup htransformers
    · exact Pattern.blockwise_zoomed (one_div_pos.mpr hup) htransformers

/-- Three choices, in the block before the first. -/
theorem names_blockwise_backward :
    2 < 7 ∧ Combines "alt2" (Pattern.held 4) ∧
      let choices : List (Transformer Rat Note) := [id, Pattern.slow 3, Pattern.map Note.muted]
      let pattern : Pattern Rat Note := Pattern.beat .plain
      choices ≠ [] ∧
        Pattern.held 4 choices pattern (-5 / 2) (-1 / 2) = Pattern.map Note.muted pattern (-5 / 2) (-1 / 2) ∧
        Pattern.zoomed (1 / 4) choices pattern (-3 / 16) (-1 / 8) =
          Pattern.slow (1 / 4) (Pattern.map Note.muted (Pattern.fast (1 / 4) pattern)) (-3 / 16) (-1 / 8) := by
  have hpower : 2 < 7 := by decide
  obtain ⟨hheld, -, -, hblocks⟩ := names_blockwise 2 hpower
  let choices : List (Transformer Rat Note) := [id, Pattern.slow 3, Pattern.map Note.muted]
  have hchoices : choices ≠ [] := List.cons_ne_nil _ _
  have hup : ((Nat.pow 2 2 : Nat) : Rat) = 4 := by norm_num
  obtain ⟨hanswers, hdistant⟩ := hblocks Note choices hchoices
  rw [hup] at hheld hanswers hdistant
  obtain ⟨chosen, hchosen, hanswer⟩ := hanswers (Pattern.beat .plain) (-1) (-5 / 2) (-1 / 2) (by norm_num) (by norm_num)
    (by norm_num)
  obtain ⟨other, hother, hzoomed⟩ := hdistant (1 / 4) (Or.inr rfl) (Pattern.beat .plain) (-1) (-3 / 16) (-1 / 8)
    (by norm_num) (by norm_num) (by norm_num)
  cases hchosen
  cases hother
  exact ⟨hpower, hheld, hchoices, hanswer, hzoomed⟩

end Vocabulary

end Cadence
