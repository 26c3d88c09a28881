import Cadence.Rhythm.Pattern

/-! Classes of transformers that combinations do not lead out of. The transformers that keep a property of
patterns are such a class, if stacks and alternations keep it too; the first of these properties is that all
events carry values of some kind. -/

namespace Cadence

namespace Transformer

variable {T A : Type}

/-- A class with the identity that contains two of its transformers done one after the other contains all
compositions. -/
theorem good_compose {good : Transformer T A → Prop} (hidentity : good id)
    (hsequence : ∀ {first next : Transformer T A}, good first → good next → good (next ∘ first))
    {transformers : List (Transformer T A)} (h : ∀ transformer ∈ transformers, good transformer) :
    good (Pattern.compose transformers) := by
  induction transformers with
  | nil => exact hidentity
  | cons transformer transformers ih =>
      obtain ⟨hfirst, hothers⟩ := List.forall_mem_cons.mp h
      exact hsequence hfirst (ih hothers)

/-- A choice among transformers of a class with the identity is of this class. -/
theorem good_getD {good : Transformer T A → Prop} (hidentity : good id)
    {transformers : List (Transformer T A)} (h : ∀ transformer ∈ transformers, good transformer) (index : Nat) :
    good (transformers.getD index id) := by
  rw [List.getD_eq_getElem?_getD]
  cases hfound : transformers[index]? with
  | none => exact hidentity
  | some transformer => exact h transformer (List.mem_of_getElem? hfound)

/-- Whether a transformer makes patterns with a property of patterns with this property. -/
def Keeps (property : Pattern T A → Prop) (transformer : Transformer T A) : Prop :=
  ∀ pattern, property pattern → property (transformer pattern)

theorem keeps_id (property : Pattern T A → Prop) : Keeps property id := fun _ hpattern => hpattern

variable [TimeScale T]

/-- A class of transformers that contains their combinations. -/
structure Closed (good : Transformer T A → Prop) : Prop where
  compose {transformers : List (Transformer T A)} (h : ∀ transformer ∈ transformers, good transformer) :
    good (Pattern.compose transformers)
  stackAll {transformers : List (Transformer T A)} (h : ∀ transformer ∈ transformers, good transformer) :
    good (Pattern.stackAll transformers)
  alternate {transformers : List (Transformer T A)} (h : ∀ transformer ∈ transformers, good transformer) :
    good (Pattern.alternate transformers)

/-- The empty composition changes nothing. -/
theorem Closed.identity {good : Transformer T A → Prop} (closed : Closed good) : good id :=
  closed.compose (List.forall_mem_nil _)

theorem Closed.and {good other : Transformer T A → Prop} (h : Closed good) (h' : Closed other) :
    Closed fun transformer => good transformer ∧ other transformer where
  compose hboth := ⟨h.compose fun _ hmem => (hboth _ hmem).1, h'.compose fun _ hmem => (hboth _ hmem).2⟩
  stackAll hboth := ⟨h.stackAll fun _ hmem => (hboth _ hmem).1, h'.stackAll fun _ hmem => (hboth _ hmem).2⟩
  alternate hboth := ⟨h.alternate fun _ hmem => (hboth _ hmem).1, h'.alternate fun _ hmem => (hboth _ hmem).2⟩

theorem closed_keeps {property : Pattern T A → Prop}
    (hstack : ∀ {patterns : List (Pattern T A)}, (∀ pattern ∈ patterns, property pattern) →
      property (Pattern.stack patterns))
    (halternate : ∀ {transformers : List (Transformer T A)},
      (∀ transformer ∈ transformers, transformer.Keeps property) →
        (Pattern.alternate transformers).Keeps property) :
    Closed (Keeps property) where
  compose := good_compose (keeps_id property) fun hfirst hnext pattern hpattern =>
    hnext _ (hfirst pattern hpattern)
  stackAll h := by
    intro pattern hpattern
    apply hstack
    rw [List.forall_mem_map]
    exact fun transformer hmem => h transformer hmem pattern hpattern
  alternate := halternate

/-- The transformers that can be built from moves, stretches and gates of time, nested in any way. -/
inductive OfTime : Transformer T A → Prop
  | identity : OfTime id
  | shift (offset : T) : OfTime (Pattern.shift offset)
  | slow (factor : T) : OfTime (Pattern.slow factor)
  | fast (factor : T) : OfTime (Pattern.fast factor)
  | gateWith {M : Type} (mask : Pattern T M) : OfTime (Pattern.gateWith mask)
  | gate (phase period : T) : OfTime (Pattern.gate phase period)
  | both {transformer : Transformer T A} (h : OfTime transformer) : OfTime (Pattern.both transformer)
  | stackAll {transformers : List (Transformer T A)} (h : ∀ transformer ∈ transformers, OfTime transformer) :
      OfTime (Pattern.stackAll transformers)
  | alternate {transformers : List (Transformer T A)} (h : ∀ transformer ∈ transformers, OfTime transformer) :
      OfTime (Pattern.alternate transformers)
  | compose {transformers : List (Transformer T A)} (h : ∀ transformer ∈ transformers, OfTime transformer) :
      OfTime (Pattern.compose transformers)

/-- A closed class with all moves, stretches and gates contains what is built from them. -/
theorem OfTime.good {good : Transformer T A → Prop} (closed : Closed good)
    (shift : ∀ offset, good (Pattern.shift offset)) (slow : ∀ factor, good (Pattern.slow factor))
    (gateWith : ∀ {M : Type} (mask : Pattern T M), good (Pattern.gateWith mask))
    {transformer : Transformer T A} (h : OfTime transformer) : good transformer := by
  induction h with
  | identity => exact closed.identity
  | shift offset => exact shift offset
  | slow factor => exact slow factor
  | fast factor => exact slow _
  | gateWith mask => exact gateWith mask
  | gate phase period => exact gateWith _
  | @both transformer _ ih =>
      have hparts : ∀ part ∈ [id, transformer], good part :=
        List.forall_mem_cons.mpr ⟨closed.identity, List.forall_mem_singleton.mpr ih⟩
      exact closed.stackAll hparts
  | stackAll _ ih => exact closed.stackAll ih
  | alternate _ ih => exact closed.alternate ih
  | compose _ ih => exact closed.compose ih

end Transformer

namespace Pattern

variable {T A : Type} {good : A → Prop}

/-- Whether all events of a pattern carry values of some kind. -/
def Carries (good : A → Prop) (pattern : Pattern T A) : Prop :=
  ∀ start stop, ∀ event ∈ pattern start stop, good event.value

/-- Moving events leaves their values as they are. -/
theorem carries_moved {pattern : Pattern T A} (h : pattern.Carries good) (back : T → T) {move : T → T} :
    Carries good fun start stop => (pattern (back start) (back stop)).map (Event.mapTime move) := by
  intro start stop event hevent
  obtain ⟨source, hsource, rfl⟩ := List.mem_map.mp hevent
  exact h (back start) (back stop) source hsource

theorem keeps_map {change : A → A} (h : ∀ value, good value → good (change value)) :
    Transformer.Keeps (Carries good) (map change : Transformer T A) := by
  intro pattern hpattern start stop event hevent
  obtain ⟨source, hsource, rfl⟩ := List.mem_map.mp hevent
  exact h source.value (hpattern start stop source hsource)

variable [TimeScale T]

theorem carries_beat {value : A} (h : good value) : (beat value : Pattern T A).Carries good := by
  intro start stop event hevent
  rw [beat, periodic] at hevent
  split at hevent
  · cases hevent
  · obtain ⟨time, -, rfl⟩ := List.mem_map.mp hevent
    exact h

theorem keeps_shift (offset : T) : Transformer.Keeps (Carries good) (shift offset : Transformer T A) :=
  fun _ hpattern => carries_moved hpattern (· - offset)

theorem keeps_slow (factor : T) : Transformer.Keeps (Carries good) (slow factor : Transformer T A) :=
  fun _ hpattern => carries_moved hpattern (· / factor)

theorem carries_stack {patterns : List (Pattern T A)} (h : ∀ pattern ∈ patterns, pattern.Carries good) :
    (stack patterns).Carries good := by
  intro start stop event hevent
  obtain ⟨pattern, hpattern, hsource⟩ := List.mem_flatMap.mp (List.mem_mergeSort.mp hevent)
  exact h pattern hpattern start stop event hsource

theorem keeps_alternate {transformers : List (Transformer T A)}
    (h : ∀ transformer ∈ transformers, transformer.Keeps (Carries good)) :
    (alternate transformers).Keeps (Carries good) := by
  intro pattern hpattern start stop event hevent
  cases transformers with
  | nil => cases hevent
  | cons transformer others =>
      obtain ⟨piece, -, hsource⟩ := List.mem_flatMap.mp hevent
      exact Transformer.good_getD (Transformer.keeps_id _) h _ pattern hpattern piece.1 piece.2 event hsource

theorem closed_carries : Transformer.Closed (Transformer.Keeps (Carries good) : Transformer T A → Prop) :=
  Transformer.closed_keeps carries_stack keeps_alternate

end Pattern

end Cadence
