import Cadence.Proofs.Rhythm.Seamless

/-! Times and values apart. A transformer of times moves, repeats and drops events whatever they carry, so values
can be changed before it as well as behind it. A change of values that is written as an alternation of one
choice cuts windows at whole numbers; on patterns without seams the cuts are not heard. -/

namespace Cadence

namespace Transformer

section

variable {T A : Type}

/-- Whether values can be changed before a transformer as well as behind it. -/
def Natural (transformer : Transformer T A) : Prop :=
  ∀ (change : A → A) (pattern : Pattern T A),
    transformer (Pattern.map change pattern) = Pattern.map change (transformer pattern)

theorem natural_moved (back move : T → T) :
    Natural fun (pattern : Pattern T A) start stop =>
      (pattern (back start) (back stop)).map (Event.mapTime move) := by
  intro change pattern
  funext start stop
  simp only [Pattern.map, List.map_map]
  rfl

variable {transformers : List (Transformer T A)}

theorem natural_id : Natural (id : Transformer T A) := fun _ _ => rfl

theorem natural_compose (h : ∀ transformer ∈ transformers, transformer.Natural) :
    Natural (Pattern.compose transformers) := by
  refine good_compose natural_id ?_ h
  intro first next hfirst hnext change pattern
  calc next (first (Pattern.map change pattern))
      = next (Pattern.map change (first pattern)) := by rw [hfirst]
    _ = Pattern.map change (next (first pattern)) := hnext change (first pattern)

variable [TimeScale T]

/-- Events are arranged by their starts, whatever they carry. -/
theorem natural_stackAll (h : ∀ transformer ∈ transformers, transformer.Natural) :
    Natural (Pattern.stackAll transformers) := by
  intro change pattern
  funext start stop
  have hevents : (transformers.map (· (Pattern.map change pattern))).flatMap (· start stop) =
      ((transformers.map (· pattern)).flatMap (· start stop)).map (Event.map change) := by
    rw [List.flatMap_map, List.flatMap_map, List.map_flatMap]
    exact List.flatMap_congr fun transformer hmem => by rw [h transformer hmem]; rfl
  let earlier (event other : Event T A) : Bool := TimeScale.precedes event.start other.start
  calc Pattern.stackAll transformers (Pattern.map change pattern) start stop
      = (((transformers.map (· pattern)).flatMap (· start stop)).map (Event.map change)).mergeSort earlier := by
        rw [← hevents]
        rfl
    _ = Pattern.map change (Pattern.stackAll transformers pattern) start stop :=
        (List.map_mergeSort (r := earlier) (s := earlier) (f := Event.map change) fun _ _ _ _ => rfl).symm

theorem natural_alternate (h : ∀ transformer ∈ transformers, transformer.Natural) :
    Natural (Pattern.alternate transformers) := by
  intro change pattern
  funext start stop
  cases transformers with
  | nil => rfl
  | cons transformer others =>
      simp only [Pattern.alternate, Pattern.map, List.map_flatMap]
      exact List.flatMap_congr fun piece _ => by
        exact congrFun (congrFun (good_getD natural_id h _ change pattern) piece.1) piece.2

theorem closed_natural : Closed (Natural : Transformer T A → Prop) :=
  ⟨natural_compose, natural_stackAll, natural_alternate⟩

/-- What is heard through a mask is asked for in windows that only the mask chooses. -/
theorem natural_gateWith {M : Type} (mask : Pattern T M) : Natural (Pattern.gateWith mask : Transformer T A) := by
  intro change pattern
  funext start stop
  simp only [Pattern.gateWith, Pattern.map, List.map_flatMap]

/-- Transformers of time are natural in the values: for every window it is the same whether values are changed before
times are or behind them. -/
theorem natural_ofTime {transformer : Transformer T A} (h : OfTime transformer) (change : A → A)
    (pattern : Pattern T A) (start stop : T) :
    transformer (Pattern.map change pattern) start stop = Pattern.map change (transformer pattern) start stop := by
  have hnatural : Natural transformer :=
    h.good closed_natural (fun _ => natural_moved _ _) (fun _ => natural_moved _ _) natural_gateWith
  rw [hnatural change pattern]

/-- A pattern with its echo, through a gate and stacked with an alternation that is sped up. -/
def swing : Transformer Double Nat :=
  Pattern.compose [Pattern.both (Pattern.shift (1 / 4)),
    Pattern.stackAll [Pattern.gate (1 / 2) 2,
      Pattern.compose [Pattern.alternate [id, Pattern.slow (1 / 2)], Pattern.fast 2]]]

theorem natural_ofTime_swing :
    OfTime swing ∧ swing (Pattern.map (· + 60) (Pattern.beat 7)) (-1) 4 =
      Pattern.map (· + 60) (swing (Pattern.beat 7)) (-1) 4 := by
  have hchoice : OfTime (Pattern.alternate [id, Pattern.slow (1 / 2)] : Transformer Double Nat) :=
    .alternate (List.forall_mem_cons.mpr ⟨.identity, List.forall_mem_singleton.mpr (.slow _)⟩)
  have hfaster : OfTime (Pattern.compose [Pattern.alternate [id, Pattern.slow (1 / 2)], Pattern.fast 2] :
      Transformer Double Nat) :=
    .compose (List.forall_mem_cons.mpr ⟨hchoice, List.forall_mem_singleton.mpr (.fast 2)⟩)
  have hswing : OfTime swing :=
    .compose (List.forall_mem_cons.mpr ⟨.both (.shift _), List.forall_mem_singleton.mpr
      (.stackAll (List.forall_mem_cons.mpr ⟨.gate _ _, List.forall_mem_singleton.mpr hfaster⟩))⟩)
  exact ⟨hswing, natural_ofTime hswing (· + 60) (Pattern.beat 7) (-1) 4⟩

end

end Transformer

variable {A : Type}

namespace Pattern

/-- Whether a pattern has no events in the windows that hold no time. -/
def Directed (pattern : Pattern Rat A) : Prop := ∀ start stop, stop ≤ start → pattern start stop = []

theorem directed_beat (value : A) : (beat value : Pattern Rat A).Directed := by
  intro start stop h
  show periodic 1 1 0 value start stop = []
  rw [periodic_eq one_pos, slotsIn_of_le one_pos h, List.map_nil]

theorem Directed.moved {pattern : Pattern Rat A} (h : pattern.Directed) {back : Rat → Rat}
    (hback : Monotone back) (move : Event Rat A → Event Rat A) :
    Directed fun start stop => (pattern (back start) (back stop)).map move := by
  intro start stop hwindow
  show (pattern (back start) (back stop)).map move = []
  rw [h _ _ (hback hwindow), List.map_nil]

theorem directed_stack {patterns : List (Pattern Rat A)} (h : ∀ pattern ∈ patterns, pattern.Directed) :
    (stack patterns).Directed := by
  intro start stop hwindow
  have hnone : patterns.flatMap (· start stop) = [] :=
    List.flatMap_eq_nil_iff.mpr fun pattern hmem => h pattern hmem start stop hwindow
  rw [stack, hnone, List.mergeSort_nil]

/-- Alternations are directed whatever their choices are. -/
theorem directed_alternate (transformers : List (Transformer Rat A)) (pattern : Pattern Rat A) :
    (alternate transformers pattern).Directed := by
  intro start stop hwindow
  cases transformers with
  | nil => rfl
  | cons => rw [alternate_eq_flatMap (List.cons_ne_nil _ _), cycles_of_le hwindow, List.flatMap_nil]

theorem closed_directed : Transformer.Closed (Transformer.Keeps Directed : Transformer Rat A → Prop) :=
  Transformer.closed_keeps directed_stack fun _ pattern _ => directed_alternate _ pattern

/-- A window of a pattern without seams can be cut at the whole numbers. -/
theorem Seamless.flatMap_cycles {pattern : Pattern Rat A} (h : pattern.Seamless) {start stop : Rat}
    (hwindow : start ≤ stop) :
    (cycles start stop).flatMap (fun piece => pattern piece.1 piece.2) = pattern start stop := by
  induction start, hwindow using cycle_induction with
  | last start hstart hlast =>
      rcases hstart.eq_or_lt with rfl | hlt
      · rw [cycles_of_le le_rfl, h.empty, List.flatMap_nil]
      · rw [cycles_inside (Rat.floor_le start) hlt hlast, List.flatMap_singleton]
  | next start hstart hnext ih =>
      have hend := Rat.lt_floor_add_one start
      rw [cycles_across (Rat.floor_le start) hend hnext.le, List.flatMap_cons, ih, h.splits hend.le hnext.le]

theorem turn_singleton {T : Type} (transformer : Transformer T A) (cycle : Int) :
    turn [transformer] cycle = transformer := by
  simp [turn]

/-- An alternation that has no choice but to change values does so, and nothing else. -/
theorem alternate_map {pattern : Pattern Rat A} (hseamless : pattern.Seamless) (hdirected : pattern.Directed)
    (change : A → A) : alternate [map change] pattern = map change pattern := by
  funext start stop
  rcases le_total start stop with hwindow | hwindow
  · simp only [alternate_eq_flatMap (List.cons_ne_nil _ _), turn_singleton, map]
    rw [← List.map_flatMap, hseamless.flatMap_cycles hwindow]
  · rw [directed_alternate _ _ _ _ hwindow, map, hdirected _ _ hwindow, List.map_nil]

end Pattern

namespace Transformer

/-- Whether a transformer changes values, as far as patterns are concerned that programs can make, and nothing
else. -/
def ChangesValues (transformer : Transformer Rat A) : Prop :=
  ∃ change, ∀ pattern : Pattern Rat A, pattern.Seamless → pattern.Directed →
    transformer pattern = Pattern.map change pattern

theorem changesValues_map (change : A → A) : ChangesValues (Pattern.map change : Transformer Rat A) :=
  ⟨change, fun _ _ _ => rfl⟩

theorem changesValues_alternate (change : A → A) :
    ChangesValues (Pattern.alternate [Pattern.map change] : Transformer Rat A) :=
  ⟨change, fun _ hseamless hdirected => Pattern.alternate_map hseamless hdirected change⟩

/-- A transformer of times: it looks at no value, and leaves patterns without seams. -/
def Temporal (transformer : Transformer Rat A) : Prop :=
  transformer.Natural ∧ transformer.Seamless ∧ transformer.Keeps Pattern.Directed

theorem closed_temporal : Closed (Temporal : Transformer Rat A → Prop) :=
  closed_natural.and (Pattern.closed_seamless.and Pattern.closed_directed)

theorem temporal_shift (offset : Rat) : Temporal (Pattern.shift offset : Transformer Rat A) := by
  have hback : Monotone fun time : Rat => time - offset := fun _ _ hle => sub_le_sub_right hle offset
  exact ⟨natural_moved _ _, Pattern.seamless_shift offset, fun _ h => h.moved hback _⟩

theorem temporal_slow {factor : Rat} (hfactor : 0 < factor) :
    Temporal (Pattern.slow factor : Transformer Rat A) := by
  have hback : Monotone fun time : Rat => time / factor := fun _ _ hle =>
    div_le_div_of_nonneg_right hle hfactor.le
  exact ⟨natural_moved _ _, Pattern.seamless_slow hfactor, fun _ h => h.moved hback _⟩

/-- Times and values can be changed in either order. -/
theorem Temporal.comm {time value : Transformer Rat A} (htime : time.Temporal) (hvalue : value.ChangesValues)
    {pattern : Pattern Rat A} (hseamless : pattern.Seamless) (hdirected : pattern.Directed) :
    time (value pattern) = value (time pattern) := by
  obtain ⟨hnatural, hkeepsSeamless, hkeepsDirected⟩ := htime
  obtain ⟨change, hchange⟩ := hvalue
  calc time (value pattern)
      = time (Pattern.map change pattern) := by rw [hchange pattern hseamless hdirected]
    _ = Pattern.map change (time pattern) := hnatural change pattern
    _ = value (time pattern) :=
        (hchange _ (hkeepsSeamless pattern hseamless) (hkeepsDirected pattern hdirected)).symm

end Transformer

end Cadence
