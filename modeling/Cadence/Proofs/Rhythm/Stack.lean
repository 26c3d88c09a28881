import Cadence.Proofs.Double.Order
import Cadence.Proofs.Rhythm.Merge
import Cadence.Rhythm.Pattern

/-! Stacks as merges. A stack has the events of all its parts in the total order of doubles; those that start together
come part by part, each part in its own order. There is only one such list, whatever the order of the parts' own
events is, so a stack within a stack is heard as if its parts stood in its place, and silence is not heard at all. -/

namespace Cadence

namespace Pattern

variable {A : Type}

/-- Whether some events are those of several parts together, arranged by their starts, with those that start together
in the order of the parts and, within a part, in its own. -/
structure Merged (parts : List (List (Event Double A))) (events : List (Event Double A)) : Prop where
  complete : events.Perm parts.flatten
  ordered : events.Pairwise fun event later => event.start.rank ≤ later.start.rank
  stable (time : Double) : events.filter (fun event => decide (event.start = time)) =
    parts.flatMap fun part => part.filter fun event => decide (event.start = time)

variable {parts : List (List (Event Double A))} {events : List (Event Double A)}

theorem rank_eq_iff (event : Event Double A) (time : Double) : event.start.rank = time.rank ↔ event.start = time :=
  ⟨Double.rank_inj, congrArg Double.rank⟩

/-- Several parts are merged in one way only. -/
theorem Merged.unique {other : List (Event Double A)} (h : Merged parts events) (h' : Merged parts other) :
    events = other := by
  refine eq_of_filter_rank h.ordered h'.ordered fun event => ?_
  simp only [rank_eq_iff]
  exact (h.stable event.start).trans (h'.stable event.start).symm

/-- Parts that are merged before are merged with the others as if they had not been. -/
theorem Merged.nested {before inner behind : List (List (Event Double A))} {whole : List (Event Double A)}
    (h : Merged (before ++ [whole] ++ behind) events) (hwhole : Merged inner whole) :
    Merged (before ++ inner ++ behind) events where
  complete := by
    have hcomplete := h.complete
    simp only [List.flatten_append, List.flatten_singleton] at hcomplete ⊢
    exact hcomplete.trans ((hwhole.complete.append_left _).append_right _)
  ordered := h.ordered
  stable time := by
    have hstable := h.stable time
    simp only [List.flatMap_append, List.flatMap_singleton, hwhole.stable time] at hstable ⊢
    exact hstable

theorem merged_stack (patterns : List (Pattern Double A)) (start stop : Double) :
    Merged (patterns.map (· start stop)) (stack patterns start stop) where
  complete := by
    rw [← List.flatMap_def]
    exact List.mergeSort_perm _ _
  ordered := pairwise_rank_mergeSort (fun event : Event Double A => event.start.rank) _
  stable time := by
    have hstable := filter_rank_mergeSort (fun event : Event Double A => event.start.rank)
      (patterns.flatMap fun pattern => pattern start stop) time.rank
    simp only [rank_eq_iff] at hstable
    rw [List.flatMap_map, ← List.filter_flatMap, ← hstable]
    rfl

/-- The parts of a stack can stand in its place. -/
theorem stack_flatten (before inner behind : List (Pattern Double A)) :
    stack (before ++ [stack inner] ++ behind) = stack (before ++ inner ++ behind) := by
  funext start stop
  have hnested := merged_stack (before ++ [stack inner] ++ behind) start stop
  have hflat := merged_stack (before ++ inner ++ behind) start stop
  simp only [List.map_append, List.map_cons, List.map_nil] at hnested hflat
  exact (hnested.nested (merged_stack inner start stop)).unique hflat

theorem stack_nil : stack [] = (silence : Pattern Double A) := by
  funext start stop
  exact List.mergeSort_nil

/-- Stacking is an associative stable merge: a window of a stack has the events of all the parts in the order that
`Merged` determines; a stack within a stack can be opened, and silence left out, wherever they stand. -/
theorem stack_merges :
    (∀ (patterns : List (Pattern Double A)) (start stop : Double) (events : List (Event Double A)),
      Merged (patterns.map (· start stop)) events ↔ events = stack patterns start stop) ∧
    (∀ before inner behind : List (Pattern Double A),
      stack (before ++ [stack inner] ++ behind) = stack (before ++ inner ++ behind)) ∧
    ∀ before behind : List (Pattern Double A), stack (before ++ [silence] ++ behind) = stack (before ++ behind) := by
  refine ⟨fun patterns start stop events => ⟨fun h => h.unique (merged_stack patterns start stop), ?_⟩,
    stack_flatten, fun before behind => ?_⟩
  · rintro rfl
    exact merged_stack patterns start stop
  · rw [← stack_nil, stack_flatten, List.append_nil]

end Pattern

end Cadence
