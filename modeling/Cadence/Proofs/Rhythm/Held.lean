import Cadence.Proofs.Rhythm.Windows

/-! Alternations whose turns last for several cycles, or for a part of one. Time falls into blocks of the length of a
turn. Slowing an alternation down makes its cycles the blocks; what one choice makes of a pattern is then heard at its
own speed if this choice is sped up, and from a distance if the pattern is. -/

namespace Cadence

namespace Pattern

section

variable {T A : Type} [TimeScale T]

/-- Alternation in which each choice has its turn for `factor` cycles and is heard at its own speed. -/
def held (factor : T) (transformers : List (Transformer T A)) : Transformer T A :=
  compose [alternate (transformers.map fun transformer => compose [transformer, fast factor]), slow factor]

/-- Alternation in which each choice has its turn for `factor` cycles and acts on time that is compressed. -/
def zoomed (factor : T) (transformers : List (Transformer T A)) : Transformer T A :=
  compose [fast factor, alternate transformers, slow factor]

end

variable {A : Type} {factor : Rat}

theorem slow_slow (factor other : Rat) (pattern : Pattern Rat A) :
    slow factor (slow other pattern) = slow (other * factor) pattern := by
  funext start stop
  simp only [slow, List.map_map, div_div, mul_comm factor]
  refine List.map_congr_left fun event _ => ?_
  simp [Event.mapTime, mul_assoc]

theorem slow_one (pattern : Pattern Rat A) : slow 1 pattern = pattern := by
  funext start stop
  have hsame : Event.mapTime (fun time : Rat => time) = (id : Event Rat A → Event Rat A) := rfl
  simp [slow, hsame]

theorem slow_fast (hfactor : factor ≠ 0) (pattern : Pattern Rat A) : slow factor (fast factor pattern) = pattern := by
  have hwhole : TimeScale.ofNat 1 / factor * factor = 1 := by
    rw [TimeScale.ofNat_eq_cast, Nat.cast_one]
    exact div_mul_cancel₀ 1 hfactor
  rw [fast, slow_slow, hwhole, slow_one]

/-- A turn is the turn of one of the transformers. -/
theorem exists_turn {transformers : List (Transformer Rat A)} (htransformers : transformers ≠ []) (cycle : Int) :
    ∃ chosen, transformers[(cycle % transformers.length).toNat]? = some chosen ∧
      ∀ change : Transformer Rat A → Transformer Rat A, turn (transformers.map change) cycle = change chosen := by
  refine ⟨turn transformers cycle, getElem?_turn htransformers cycle, fun change => ?_⟩
  rw [turn, List.length_map, List.getD_eq_getElem?_getD, List.getElem?_map, getElem?_turn htransformers]
  rfl

/-- Whether a transformer answers the windows of each block of `factor` cycles as that one of some transformers does
whose turn it is, when it is changed in some way. Block `c` is the turn of number `c mod n` of `n` transformers. -/
def Blockwise (factor : Rat) (transformers : List (Transformer Rat A))
    (change : Transformer Rat A → Transformer Rat A) (whole : Transformer Rat A) : Prop :=
  ∀ (pattern : Pattern Rat A) (block : Int) (start stop : Rat),
    block * factor ≤ start → start < stop → stop ≤ (block + 1) * factor →
      ∃ chosen, transformers[(block % transformers.length).toNat]? = some chosen ∧
        whole pattern start stop = change chosen pattern start stop

section

variable (hfactor : 0 < factor) {transformers : List (Transformer Rat A)} (htransformers : transformers ≠ [])

include hfactor htransformers

/-- An alternation that is slowed down gives each choice a block. -/
theorem blockwise_alternate (change : Transformer Rat A → Transformer Rat A) :
    Blockwise factor transformers (fun chosen pattern => slow factor (change chosen pattern))
      (fun pattern => slow factor (alternate (transformers.map change) pattern)) := by
  intro pattern block start stop hstart hwindow hstop
  obtain ⟨chosen, hchosen, hturn⟩ := exists_turn htransformers block
  have hfirst : block ≤ start / factor := (le_div_iff₀ hfactor).mpr hstart
  have hlast : stop / factor ≤ (block + 1 : Int) := by
    rw [div_le_iff₀ hfactor]
    push_cast
    exact hstop
  have hinside : alternate (transformers.map change) pattern (start / factor) (stop / factor) =
      change chosen pattern (start / factor) (stop / factor) := by
    rw [alternate_inside (by simpa using htransformers) hfirst (div_lt_div_of_pos_right hwindow hfactor) hlast,
      hturn change]
  exact ⟨chosen, hchosen, congrArg (List.map (Event.mapTime (· * factor))) hinside⟩

theorem blockwise_held : Blockwise factor transformers id (held factor transformers) := by
  intro pattern block start stop hstart hwindow hstop
  obtain ⟨chosen, hchosen, hanswer⟩ := blockwise_alternate hfactor htransformers
    (fun transformer => compose [transformer, fast factor]) pattern block start stop hstart hwindow hstop
  refine ⟨chosen, hchosen, hanswer.trans ?_⟩
  have hcancel : slow factor (compose [chosen, fast factor] pattern) = chosen pattern :=
    slow_fast (ne_of_gt hfactor) (chosen pattern)
  exact congrFun (congrFun hcancel start) stop

theorem blockwise_zoomed :
    Blockwise factor transformers (fun chosen pattern => slow factor (chosen (fast factor pattern)))
      (zoomed factor transformers) := by
  intro pattern block start stop hstart hwindow hstop
  obtain ⟨chosen, hchosen, hanswer⟩ := blockwise_alternate hfactor htransformers id (fast factor pattern) block start
    stop hstart hwindow hstop
  rw [List.map_id] at hanswer
  exact ⟨chosen, hchosen, hanswer⟩

end

end Pattern

end Cadence
