import Cadence.Proofs.Program.Closed
import Cadence.Proofs.Rhythm.Seamless

/-! Programs without seams. The step of a program makes a seamless pattern of the pulse, on exact time, if no
numeral that is read as a factor of `fast` is zero: nothing else that a program can say stretches time by
nothing, since numerals have no sign, and the factors that are built into names are powers of two. -/

namespace Cadence

namespace Step

/-- Stretching has a least factor. -/
theorem slowFactor_pos (factor : Double) : 0 < (slowFactor factor : Rat) := by
  rw [slowFactor, TimeScale.later_eq_max]
  exact lt_max_of_lt_right (div_pos (by simp) (by simp))

theorem fastFactor_pos {factor : Double} (hfactor : 0 < factor.toRat) : 0 < (fastFactor factor : Rat) := by
  rw [fastFactor, TimeScale.earlier_eq_min]
  exact lt_min hfactor (by decide)

theorem seamless_slow (factor : Double) : Transformer.Seamless (slow factor).apply :=
  Pattern.seamless_slow (slowFactor_pos factor)

theorem seamless_fast {factor : Double} (hfactor : 0 < factor.toRat) :
    Transformer.Seamless (fast factor).apply :=
  Pattern.seamless_fast (fastFactor_pos hfactor)

end Step

theorem stretches_seamless : Stretches (Transformer.Seamless : Transformer Rat Note → Prop) :=
  fun factor hfactor => ⟨Step.seamless_fast hfactor, Step.seamless_slow factor⟩

/-- A numeral makes a step without seams, unless it is read as a factor that is not positive. -/
theorem Vocabulary.seamless_read (reading : Reading) (number : Double) (scope : Scope Reading)
    (h : reading = .fast → 0 < number.toRat) :
    Value.Within (Transformer.Seamless : Transformer Rat Note → Prop) (reading.read number scope) := by
  cases reading with
  | number | multiple => trivial
  | note => exact Pattern.seamless_map _
  | slow => exact Step.seamless_slow number
  | fast => exact Step.seamless_fast (h rfl)
  | add | sub | channel | length => exact Pattern.seamless_map _
  | shift => exact Pattern.seamless_shift _

/-- Programs make no seams, if no numeral is a factor of `fast` that is not positive. -/
def Invariant.seamless : Invariant :=
  .ofClosed Pattern.closed_seamless stretches_seamless (fun _ => True)
    (fun reading number => reading = .fast → 0 < number.toRat) (fun _ => True) (fun _ => trivial)
    (fun _ _ _ _ => Pattern.seamless_map Note.muted)
    (fun reading number scope h _ => Vocabulary.seamless_read reading number scope h)

namespace Program

open Vocabulary

/-- A window of what a program plays, on exact time, is what it plays before any cut and then what it plays
from there on; and what it plays in a window starts inside, in the order of time. So a program that is
played beat by beat plays every event once. -/
theorem seamless_of_text {text : String} {document : Document Unit} {step : Step}
    (hread : Grammar.readProgram text = .ok document) (hstep : stepOfText text = .ok step)
    (hfast : ∀ number, (Reading.fast, number) ∈ document.tree.readings .note → number.isZero = false) :
    let pattern : Pattern Rat Note := step.pattern
    (∀ start middle stop, start ≤ middle → middle ≤ stop →
      pattern start stop = pattern start middle ++ pattern middle stop) ∧
    ∀ start stop, start ≤ stop →
      (∀ event ∈ pattern start stop, start ≤ event.start ∧ event.start < stop) ∧
      (pattern start stop).Pairwise fun event later => event.start ≤ later.start := by
  have hseamless : Transformer.Seamless step.apply := by
    refine Invariant.seamless.holds_of_text trivial hstep fun document' hread' => ⟨fun _ _ => trivial, ?_⟩
    obtain rfl : document = document' := Except.ok.inj (hread.symm.trans hread')
    rintro ⟨_, number⟩ hmem rfl
    obtain ⟨decimal, hnumber⟩ := (Grammar.readProgram_eq_ok hread).1.1.decimal hmem
    exact Double.toRat_pos (hnumber ▸ decimal.negative_toDouble) (hfast number hmem)
  have hpattern : (step.pattern : Pattern Rat Note).Seamless :=
    hseamless _ (Pattern.seamless_beat Note.plain)
  exact ⟨fun _ _ _ => hpattern.splits, fun _ _ hwindow => ⟨hpattern.within hwindow, hpattern.sorted hwindow⟩⟩

/-- Time that is moved, compressed and cut into cycles of several lengths. -/
def movedTimes : String := "stack (alt4 60 62) (fast 2 (do 3)) (in1 (alt i m) (shift .7))"

theorem seamless_of_text_movedTimes :
    ∃ step, stepOfText movedTimes = .ok step ∧
      let pattern : Pattern Rat Note := step.pattern
      pattern (-1) 2 = pattern (-1) (1 / 3) ++ pattern (1 / 3) 2 ∧
        (∀ event ∈ pattern (-1) 2, -1 ≤ event.start ∧ event.start < 2) ∧
        (pattern (-1) 2).Pairwise fun event later => event.start ≤ later.start := by
  have hforward : (Grammar.readProgram movedTimes).toOption.map (fun document =>
      (document.tree.readings .note).all fun entry => entry.1 != .fast || !entry.2.isZero) = some true := by
    decide +kernel
  have haccepted : (stepOfText movedTimes).toOption.map (fun _ => ()) = some () := by decide +kernel
  obtain ⟨document, hread, hall⟩ := exists_ok_of_map hforward
  obtain ⟨step, hstep, -⟩ := exists_ok_of_map haccepted
  have hfast : ∀ number, (Reading.fast, number) ∈ document.tree.readings .note → number.isZero = false := by
    intro number hmem
    simpa using List.all_eq_true.mp hall _ hmem
  obtain ⟨hsplits, hevents⟩ := seamless_of_text hread hstep hfast
  exact ⟨step, hstep, hsplits (-1) (1 / 3) 2 (by norm_num) (by norm_num), hevents (-1) 2 (by norm_num)⟩

end Program

end Cadence
