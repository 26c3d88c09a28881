import Cadence.Proofs.Rhythm.Merge
import Cadence.Proofs.Rhythm.Transformer
import Cadence.Proofs.Rhythm.Windows

/-! Patterns without seams. A window of such a pattern can be cut at any time, and its events are those of the
two parts; so whoever asks for one window after the other hears every event once. What programs do to patterns
keeps them seamless, as long as time is not stretched by nothing. -/

namespace Cadence

/-- A pattern whose windows can be cut anywhere, with all events of a window starting inside of it. -/
structure Pattern.Seamless {A : Type} (pattern : Pattern Rat A) : Prop where
  splits {start middle stop : Rat} (hstart : start ≤ middle) (hstop : middle ≤ stop) :
    pattern start stop = pattern start middle ++ pattern middle stop
  within {start stop : Rat} (h : start ≤ stop) : ∀ event ∈ pattern start stop,
    start ≤ event.start ∧ event.start < stop

/-- A transformer that makes seamless patterns of seamless patterns. -/
def Transformer.Seamless {A : Type} (transformer : Transformer Rat A) : Prop :=
  ∀ pattern : Pattern Rat A, pattern.Seamless → (transformer pattern).Seamless

namespace Pattern

variable {A : Type} {pattern : Pattern Rat A}

theorem Seamless.empty (h : pattern.Seamless) (time : Rat) : pattern time time = [] :=
  List.self_eq_append_right.mp (h.splits (le_refl time) (le_refl time))

/-- The events of a window come in the order of their starts, since the window can be cut between any two. -/
theorem Seamless.sorted (h : pattern.Seamless) {start stop : Rat} (hwindow : start ≤ stop) :
    (pattern start stop).Pairwise fun event later => event.start ≤ later.start := by
  rw [List.pairwise_iff_forall_sublist]
  intro event later hsublist
  by_contra hdisorder
  have hlater : later.start < event.start := not_le.mp hdisorder
  obtain ⟨hstart, hstop⟩ := h.within hwindow event (hsublist.subset (by simp))
  rw [h.splits hstart hstop.le] at hsublist
  have hearly : event ∉ pattern start event.start := fun hmem => lt_irrefl _ (h.within hstart event hmem).2
  have hlate : later ∉ pattern event.start stop := fun hmem =>
    not_le.mpr hlater (h.within hstop.le later hmem).1
  obtain ⟨before, behind, hparts, hbefore, hbehind⟩ := List.sublist_append_iff.mp hsublist
  cases before with
  | nil =>
      obtain rfl : [event, later] = behind := hparts
      exact hlate (hbehind.subset (by simp))
  | cons first others =>
      obtain ⟨rfl, -⟩ := List.cons.inj hparts
      exact hearly (hbefore.subset List.mem_cons_self)

/-- The events before a cut are those of the window up to it. -/
theorem Seamless.filter_before (h : pattern.Seamless) {start middle stop : Rat} (hstart : start ≤ middle)
    (hstop : middle ≤ stop) :
    (pattern start stop).filter (fun event => decide (event.start < middle)) = pattern start middle := by
  have hfirst := h.within hstart
  have hlast := h.within hstop
  rw [h.splits hstart hstop, List.filter_append, List.filter_eq_self.mpr, List.filter_eq_nil_iff.mpr,
    List.append_nil]
  · intro event hevent
    simp [hlast event hevent]
  · intro event hevent
    simp [hfirst event hevent]

/-- The events from a cut on are those of the window behind it. -/
theorem Seamless.filter_behind (h : pattern.Seamless) {start middle stop : Rat} (hstart : start ≤ middle)
    (hstop : middle ≤ stop) :
    (pattern start stop).filter (fun event => !decide (event.start < middle)) = pattern middle stop := by
  have hfirst := h.within hstart
  have hlast := h.within hstop
  rw [h.splits hstart hstop, List.filter_append, List.filter_eq_nil_iff.mpr, List.filter_eq_self.mpr,
    List.nil_append]
  · intro event hevent
    simp [hlast event hevent]
  · intro event hevent
    simp [hfirst event hevent]

theorem seamless_periodic {period : Rat} (hperiod : 0 < period) (duration phase : Rat) (value : A) :
    (periodic period duration phase value).Seamless := by
  constructor
  · intro start middle stop hstart hstop
    rw [periodic_eq hperiod, periodic_eq hperiod, periodic_eq hperiod, slotsIn_append hperiod hstart hstop,
      List.map_append]
  · intro start stop _ event hevent
    rw [periodic_eq hperiod] at hevent
    obtain ⟨time, htime, rfl⟩ := List.mem_map.mp hevent
    obtain ⟨_, _, hinside⟩ := (mem_slotsIn hperiod).mp htime
    exact hinside

theorem seamless_beat (value : A) : (beat value : Pattern Rat A).Seamless :=
  seamless_periodic one_pos 1 0 value

/-- Events may be moved, if windows are moved back in the same way. -/
theorem Seamless.moved (h : pattern.Seamless) {back : Rat → Rat} (hback : Monotone back)
    {move : Event Rat A → Event Rat A}
    (hmove : ∀ event time, back time ≤ event.start ↔ time ≤ (move event).start) :
    Seamless fun start stop => (pattern (back start) (back stop)).map move := by
  constructor
  · intro start middle stop hstart hstop
    rw [h.splits (hback hstart) (hback hstop), List.map_append]
  · intro start stop hwindow event hevent
    obtain ⟨source, hsource, rfl⟩ := List.mem_map.mp hevent
    obtain ⟨hstart, hstop⟩ := h.within (hback hwindow) source hsource
    exact ⟨(hmove source start).mp hstart, lt_of_not_ge (mt (hmove source stop).mpr (not_le_of_gt hstop))⟩

theorem seamless_map (change : A → A) : Transformer.Seamless (map change : Transformer Rat A) :=
  fun _ h => h.moved monotone_id fun _ _ => Iff.rfl

theorem seamless_shift (offset : Rat) : Transformer.Seamless (shift offset : Transformer Rat A) := by
  intro pattern h
  have hback : Monotone fun time : Rat => time - offset := fun _ _ hle => sub_le_sub_right hle offset
  exact h.moved hback fun _ _ => sub_le_iff_le_add

theorem seamless_slow {factor : Rat} (hfactor : 0 < factor) :
    Transformer.Seamless (slow factor : Transformer Rat A) := by
  intro pattern h
  have hback : Monotone fun time : Rat => time / factor := fun _ _ hle =>
    div_le_div_of_nonneg_right hle hfactor.le
  exact h.moved hback fun _ _ => div_le_iff₀ hfactor

theorem seamless_fast {factor : Rat} (hfactor : 0 < factor) :
    Transformer.Seamless (fast factor : Transformer Rat A) := seamless_slow (one_div_pos.mpr hfactor)

theorem stack_eq (patterns : List (Pattern Rat A)) (start stop : Rat) :
    stack patterns start stop = (patterns.flatMap fun pattern => pattern start stop).mergeSort
      fun event other => decide (event.start ≤ other.start) := rfl

/-- Events are arranged by their starts, so those before a cut are arranged apart from those behind it. -/
theorem seamless_stack {patterns : List (Pattern Rat A)} (h : ∀ pattern ∈ patterns, pattern.Seamless) :
    (stack patterns).Seamless := by
  constructor
  · intro start middle stop hstart hstop
    have hbefore : (patterns.flatMap fun pattern => pattern start stop).filter
        (fun event => decide (event.start < middle)) = patterns.flatMap fun pattern => pattern start middle := by
      rw [List.filter_flatMap]
      exact List.flatMap_congr fun pattern hmem => (h pattern hmem).filter_before hstart hstop
    have hbehind : (patterns.flatMap fun pattern => pattern start stop).filter
        (fun event => !decide (event.start < middle)) = patterns.flatMap fun pattern => pattern middle stop := by
      rw [List.filter_flatMap]
      exact List.flatMap_congr fun pattern hmem => (h pattern hmem).filter_behind hstart hstop
    rw [stack_eq, stack_eq, stack_eq, mergeSort_eq_append (rank_trans Event.start) (rank_total Event.start)
      (fun event => decide (event.start < middle)), hbefore, hbehind]
    intro event later hevent hlater
    simp only [decide_eq_true_eq, decide_eq_false_iff_not, not_lt] at hevent hlater
    simpa using hevent.trans_le hlater
  · intro start stop hwindow event hevent
    obtain ⟨pattern, hmem, hsource⟩ := List.mem_flatMap.mp (List.mem_mergeSort.mp hevent)
    exact (h pattern hmem).within hwindow event hsource

/-- A pattern that is a seamless one in every cycle, and is cut at the ends of the cycles, is seamless. -/
theorem seamless_of_cycles {child : Int → Pattern Rat A} (hchild : ∀ cycle, (child cycle).Seamless)
    (hinside : ∀ {cycle : Int} {start stop : Rat}, cycle ≤ start → start ≤ stop → stop ≤ (cycle + 1 : Int) →
      pattern start stop = child cycle start stop)
    (hacross : ∀ {cycle : Int} {start stop : Rat}, cycle ≤ start → start ≤ (cycle + 1 : Int) →
      (cycle + 1 : Int) ≤ stop → pattern start stop =
        child cycle start (cycle + 1 : Int) ++ pattern (cycle + 1 : Int) stop) : pattern.Seamless := by
  constructor
  · intro start middle stop hstart hstop
    -- The cut lies in the cycle of the start, or the cycle of the start is common to both sides.
    induction start, hstart using cycle_induction with
    | last start hstart hlast =>
        have hcycle := Rat.floor_le start
        rcases le_total stop (start.floor + 1 : Int) with hnear | hfar
        · rw [hinside hcycle (hstart.trans hstop) hnear, hinside hcycle hstart hlast,
            hinside (hcycle.trans hstart) hstop hnear, (hchild start.floor).splits hstart hstop]
        · rw [hacross hcycle (hstart.trans hlast) hfar, hinside hcycle hstart hlast,
            hacross (hcycle.trans hstart) hlast hfar, (hchild start.floor).splits hstart hlast,
            List.append_assoc]
    | next start hstart hnext ih =>
        have hcycle := Rat.floor_le start
        have hend := (Rat.lt_floor_add_one start).le
        rw [hacross hcycle hend (hnext.le.trans hstop), hacross hcycle hend hnext.le, ih, List.append_assoc]
  · intro start stop hwindow
    induction start, hwindow using cycle_induction with
    | last start hstart hlast =>
        rw [hinside (Rat.floor_le start) hstart hlast]
        exact (hchild start.floor).within hstart
    | next start hstart hnext ih =>
        have hend := (Rat.lt_floor_add_one start).le
        intro event hevent
        rw [hacross (Rat.floor_le start) hend hnext.le, List.mem_append] at hevent
        rcases hevent with hfirst | hrest
        · obtain ⟨hstart, hstop⟩ := (hchild start.floor).within hend event hfirst
          exact ⟨hstart, hstop.trans hnext⟩
        · obtain ⟨hstart, hstop⟩ := ih event hrest
          exact ⟨hend.trans hstart, hstop⟩

theorem seamless_alternate {transformers : List (Transformer Rat A)}
    (h : ∀ transformer ∈ transformers, transformer.Seamless) :
    Transformer.Seamless (alternate transformers) := by
  intro pattern hpattern
  by_cases hnone : transformers = []
  · subst hnone
    exact ⟨fun _ _ => rfl, fun _ _ hevent => absurd hevent List.not_mem_nil⟩
  have hturn (cycle : Int) : (turn transformers cycle pattern).Seamless :=
    Transformer.good_getD (Transformer.keeps_id _) h _ pattern hpattern
  have hempty (time : Rat) : alternate transformers pattern time time = [] := by
    rw [alternate_eq_flatMap hnone, cycles_of_le le_rfl, List.flatMap_nil]
  refine seamless_of_cycles hturn ?_ ?_
  · intro cycle start stop hcycle hwindow hstop
    rcases hwindow.eq_or_lt with rfl | hlt
    · rw [hempty, (hturn cycle).empty]
    · exact alternate_inside hnone hcycle hlt hstop pattern
  · intro cycle start stop hcycle hend hstop
    rcases hend.eq_or_lt with rfl | hlt
    · rw [(hturn cycle).empty, List.nil_append]
    · exact alternate_across hnone hcycle hlt hstop pattern

theorem closed_seamless : Transformer.Closed (Transformer.Seamless : Transformer Rat A → Prop) :=
  Transformer.closed_keeps seamless_stack seamless_alternate

end Pattern

end Cadence
