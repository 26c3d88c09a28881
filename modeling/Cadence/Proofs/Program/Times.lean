import Cadence.Proofs.Program.Seamless
import Cadence.Proofs.Program.Surface
import Cadence.Proofs.Rhythm.Natural

/-! Steps in time and steps in values. A part of a program that only moves, stretches, repeats and layers events
can stand before a step that sets a value or behind it. Both come to the same pattern on exact time, although
the step for the value is an alternation that cuts windows at whole numbers. -/

namespace Cadence

open Vocabulary

/-- A family of names with the powers zero to six at their ends. -/
def powers (stem : String) : List String := (List.range 7).map fun power => stem ++ toString power

/-- The names of what changes times only. -/
def timeNames : List String :=
  ["i", "do", "compose", "stack", "alt", "shift", "slow", "fast"] ++ powers "alt" ++ powers "out" ++ powers "in"

/-- The names of what reads a numeral as a change of values. -/
def valueNames : List String := ["note", "add", "sub", "chan", "len"]

namespace Vocabulary

/-- Whether a term gives the step that makes notes silent. -/
def namesMute (term : Term Operation Reading Unit) : Bool :=
  match (term.force (.ofScope outermost ())).1 with
  | .ok (.step .mute) => true
  | .ok _ | .error _ => false

theorem namesMute_iff : ∀ entry ∈ (bindings : Bindings Operation Reading Unit),
    namesMute entry.2 = true ↔ entry.1 = "m" := by
  decide +kernel

theorem name_of_mute {name : String} {scope : Scope Reading} (h : nameMeaning name scope = .ok (.step .mute)) :
    name = "m" := by
  obtain ⟨term, hentry, hvalue⟩ := term_of_name h
  rw [← namesMute_iff (name, term) hentry]
  cases known_of_mem hentry with
  | step step =>
      cases hvalue
      rfl
  | combinator | literals | channel => cases hvalue

end Vocabulary

/-- Whether a part of a program changes times only: it uses no other names, and no numerals but for shifts and
for factors, of which those of `fast` are not zero. -/
structure Node.ChangesTimes (tree : Tree) : Prop where
  names : ∀ name ∈ tree.names, name ∈ timeNames
  numerals : ∀ entry ∈ tree.readings .note,
    (entry.1 = .shift ∨ entry.1 = .slow ∨ entry.1 = .fast) ∧ (entry.1 = .fast → entry.2.isZero = false)

theorem stretches_temporal : Stretches (Transformer.Temporal : Transformer Rat Note → Prop) :=
  fun factor hfactor => ⟨Transformer.temporal_slow (one_div_pos.mpr (Step.fastFactor_pos hfactor)),
    Transformer.temporal_slow (Step.slowFactor_pos factor)⟩

theorem Vocabulary.temporal_read (reading : Reading) (number : Double) (scope : Scope Reading)
    (hreading : reading = .shift ∨ reading = .slow ∨ reading = .fast)
    (hfast : reading = .fast → 0 < number.toRat) :
    Value.Within (Transformer.Temporal : Transformer Rat Note → Prop) (reading.read number scope) := by
  rcases hreading with rfl | rfl | rfl
  · exact Transformer.temporal_shift _
  · exact Transformer.temporal_slow (Step.slowFactor_pos number)
  · exact Transformer.temporal_slow (one_div_pos.mpr (Step.fastFactor_pos (hfast rfl)))

/-- What is built from names and numerals for times changes times only. -/
def Invariant.temporal : Invariant :=
  .ofClosed Transformer.closed_temporal stretches_temporal (· ∈ timeNames)
    (fun reading number => (reading = .shift ∨ reading = .slow ∨ reading = .fast) ∧
      (reading = .fast → 0 < number.toRat))
    (fun _ => True) (fun _ => trivial)
    (fun name scope hname hmute => by
      rw [name_of_mute hmute] at hname
      exact absurd hname (by decide))
    (fun reading number scope h _ => Vocabulary.temporal_read reading number scope h.1 h.2)

namespace Node.ChangesTimes

variable {tree : Tree} (h : tree.ChangesTimes)

include h

theorem channelOf : tree.channelOf? = none := by
  cases hchannel : tree.channelOf? with
  | none => rfl
  | some number =>
      have hname := h.names "channel" (tree.channel_mem_names hchannel)
      exact absurd hname (by decide)

/-- A time block comes to a transformer of times, if its numerals are decimals, and leaves the scope as it is. -/
theorem temporal_of_meaning (hdecimal : ∀ entry ∈ tree.readings .note, ∃ decimal : Decimal,
      entry.2 = decimal.toDouble false) {after : Scope Reading} {step : Step}
    (hmeaning : tree.meaning dialect nameMeaning outermost = (.ok (.step step), after)) :
    Transformer.Temporal (step.apply : Transformer Rat Note) ∧ after = outermost := by
  constructor
  · refine Invariant.temporal.holds_of_meaning tree outermost trivial ⟨h.names, ?_⟩ hmeaning
    intro entry hentry
    obtain ⟨hreading, hfast⟩ := h.numerals entry hentry
    refine ⟨hreading, fun hsame => ?_⟩
    obtain ⟨decimal, hnumber⟩ := hdecimal entry hentry
    exact Double.toRat_pos (hnumber ▸ decimal.negative_toDouble) (hfast hsame)
  · rw [scope_of_meaning tree hmeaning, h.channelOf]
    rfl

end Node.ChangesTimes

/-- Whether a part of a program sets a value: it is the name of the silent step, or one of the names for
values with a single numeral. -/
def Node.SetsValues (tree : Tree) : Prop :=
  tree.erased = .name "m" () ∨
    ∃ name ∈ valueNames, ∃ number, tree.erased = .row [.name name (), .numeral number "" ()] [] ()

theorem meaning_of_valueNames {name : String} (h : name ∈ valueNames) (number : Double) (scope : Scope Reading) :
    ∃ step, (Node.row [.name name (), .numeral number "" ()] [] () : Tree).meaning dialect nameMeaning scope =
      (.ok (.step (.alternate [step])), scope) ∧
        ∃ change, (step.apply : Transformer Rat Note) = Pattern.map change := by
  simp only [valueNames, List.mem_cons, List.not_mem_nil, or_false] at h
  rcases h with rfl | rfl | rfl | rfl | rfl
  · exact ⟨_, rfl, _, rfl⟩
  · exact ⟨_, rfl, _, rfl⟩
  · exact ⟨_, rfl, _, rfl⟩
  · exact ⟨_, rfl, _, rfl⟩
  · exact ⟨_, rfl, _, rfl⟩

/-- A value step comes to a change of values, and leaves the scope as it is. -/
theorem Node.SetsValues.meaning {tree : Tree} (h : tree.SetsValues) (scope : Scope Reading) :
    ∃ step, tree.meaning dialect nameMeaning scope = (.ok (.step step), scope) ∧
      Transformer.ChangesValues (step.apply : Transformer Rat Note) := by
  rcases h with hmute | ⟨name, hname, number, happlied⟩
  · rw [← Node.meaning_erased, hmute]
    exact ⟨.mute, rfl, Transformer.changesValues_map Note.muted⟩
  · obtain ⟨step, hmeaning, change, hchange⟩ := meaning_of_valueNames hname number scope
    rw [← Node.meaning_erased, happlied]
    refine ⟨_, hmeaning, ?_⟩
    show Transformer.ChangesValues (Pattern.alternate [step.apply])
    rw [hchange]
    exact Transformer.changesValues_alternate change

namespace Node

/-- The tree of a program that applies `do` to some arguments. -/
def doProgram (arguments : List Tree) : Tree := .row [.name "do" (), .row (.name "do" () :: arguments) [] ()] [] ()

/-- The step of a program that applies `do` to two arguments does one after the other. -/
theorem doProgram_of_meaning {first second : Tree} {after : Scope Reading} {step : Step}
    (h : (doProgram [first, second]).meaning dialect nameMeaning outermost = (.ok (.step step), after)) :
    ∃ one between two behind, first.meaning dialect nameMeaning outermost = (.ok (.step one), between) ∧
      second.meaning dialect nameMeaning between = (.ok (.step two), behind) ∧
      step = .compose [.compose [one, two]] := by
  obtain ⟨outer, houter, hstep, -⟩ := do_eq_ok.mp h
  cases hstep
  obtain ⟨inner, _, _, hinner, hnone, houterSteps⟩ := meanings_cons_eq_ok.mp houter
  cases hnone
  obtain ⟨steps, hsteps, rfl, rfl⟩ := do_eq_ok.mp hinner
  obtain ⟨_, between, _, hfirst, hrest, hinnerSteps⟩ := meanings_cons_eq_ok.mp hsteps
  obtain ⟨_, behind, _, hsecond, hnone, rfl⟩ := meanings_cons_eq_ok.mp hrest
  cases hnone
  match steps, hinnerSteps, outer, houterSteps with
  | [one, two], rfl, [_], rfl => exact ⟨one, between, two, behind, hfirst, hsecond, rfl⟩

/-- The numerals of an argument of the program stand in the program, read as in the argument. -/
theorem mem_readings_doProgram {arguments : List Tree} {tree : Tree} (h : tree ∈ arguments)
    {entry : Reading × Double} (hentry : entry ∈ tree.readings .note) :
    entry ∈ (doProgram arguments).readings .note := by
  have hreadings : (doProgram arguments).readings .note = allReadings arguments .note ++ [] := rfl
  rw [hreadings]
  exact List.mem_append_left _ (mem_allReadings h hentry)

end Node

namespace Program

/-- A text with the surface of a tree comes to the step that the tree means. -/
theorem meaning_of_erased {text : String} {document : Document Unit} {step : Step} {tree : Tree}
    (hread : Grammar.readProgram text = .ok document) (herased : document.tree.erased = tree.erased)
    (hstep : stepOfText text = .ok step) :
    ∃ after, tree.meaning dialect nameMeaning outermost = (.ok (.step step), after) := by
  obtain ⟨found, after, hfound, hmeaning⟩ := meaning_of_text hstep
  obtain rfl : document = found := Except.ok.inj (hread.symm.trans hfound)
  rw [← Node.meaning_erased, herased, Node.meaning_erased] at hmeaning
  exact ⟨after, hmeaning⟩

/-- A step that sets a value may stand before what changes times only, or behind it: the two programs play the
same, on exact time. -/
theorem value_time_comm {value time : Tree} (hvalue : value.SetsValues) (htime : time.ChangesTimes)
    {before behind : String} {document document' : Document Unit}
    (hread : Grammar.readProgram before = .ok document) (hread' : Grammar.readProgram behind = .ok document')
    (hbefore : document.tree.erased = (Node.doProgram [value, time]).erased)
    (hbehind : document'.tree.erased = (Node.doProgram [time, value]).erased)
    {step step' : Step} (hstep : stepOfText before = .ok step) (hstep' : stepOfText behind = .ok step') :
    ∀ start stop, (step.pattern : Pattern Rat Note) start stop = step'.pattern start stop := by
  obtain ⟨_, hmeaning⟩ := meaning_of_erased hread hbefore hstep
  obtain ⟨_, hmeaning'⟩ := meaning_of_erased hread' hbehind hstep'
  obtain ⟨set, between, moved, _, hset, hmoved, rfl⟩ := Node.doProgram_of_meaning hmeaning
  obtain ⟨moved', between', set', _, hmoved', hset', rfl⟩ := Node.doProgram_of_meaning hmeaning'
  have hdecimal : ∀ entry ∈ time.readings .note, ∃ decimal : Decimal, entry.2 = decimal.toDouble false := by
    intro entry hentry
    have hprogram : entry ∈ (Node.doProgram [value, time]).readings .note :=
      Node.mem_readings_doProgram (List.mem_cons_of_mem value List.mem_cons_self) hentry
    rw [← Node.readings_erased, ← hbefore, Node.readings_erased] at hprogram
    exact (Grammar.readProgram_eq_ok hread).1.1.decimal hprogram
  -- Neither part is seen by the other, so that both have the same meaning in both places.
  obtain ⟨htemporal, rfl⟩ := htime.temporal_of_meaning hdecimal hmoved'
  obtain ⟨change, hchange, hchanges⟩ := hvalue.meaning outermost
  cases hchange.symm.trans hset
  cases hchange.symm.trans hset'
  cases hmoved'.symm.trans hmoved
  intro start stop
  show moved.apply (set.apply (Pattern.beat Note.plain)) start stop =
    set.apply (moved.apply (Pattern.beat Note.plain)) start stop
  rw [htemporal.comm hchanges (Pattern.seamless_beat Note.plain) (Pattern.directed_beat Note.plain)]

/-- A note, and times that are cut, shifted and layered, with the note before them and behind them. -/
def noteBefore : String := "do (note 60) (stack (alt2 i (shift .5)) (fast 3 (slow 1.5)))"

def noteBehind : String := "do\n  stack\n    alt2 i (shift 0.5) # late\n    fast 3 (slow 1.5)\n  (note) 60.0\n"

theorem value_time_comm_note :
    ∃ step step', stepOfText noteBefore = .ok step ∧ stepOfText noteBehind = .ok step' ∧
      (step.pattern : Pattern Rat Note) (-1 / 3) (7 / 2) = step'.pattern (-1 / 3) (7 / 2) := by
  let value : Tree := .row [.name "note" (), .numeral 60 "" ()] [] ()
  let shifted : Tree := .row [.name "shift" (), .numeral (1 / 2) "" ()] [] ()
  let stretched : Tree := .row [.name "slow" (), .numeral (3 / 2) "" ()] [] ()
  let time : Tree := .row [.name "stack" (), .row [.name "alt2" (), .name "i" (), shifted] [] (),
    .row [.name "fast" (), .numeral 3 "" (), stretched] [] ()] [] ()
  have hbefore : (Grammar.readProgram noteBefore).toOption.map (fun document => document.tree.erased) =
      some (Node.doProgram [value, time]).erased := by decide +kernel
  have hbehind : (Grammar.readProgram noteBehind).toOption.map (fun document => document.tree.erased) =
      some (Node.doProgram [time, value]).erased := by decide +kernel
  have haccepted : (stepOfText noteBefore).toOption.map (fun _ => ()) = some () := by decide +kernel
  have haccepted' : (stepOfText noteBehind).toOption.map (fun _ => ()) = some () := by decide +kernel
  obtain ⟨document, hread, herased⟩ := exists_ok_of_map hbefore
  obtain ⟨document', hread', herased'⟩ := exists_ok_of_map hbehind
  obtain ⟨step, hstep, -⟩ := exists_ok_of_map haccepted
  obtain ⟨step', hstep', -⟩ := exists_ok_of_map haccepted'
  have hvalue : value.SetsValues := Or.inr ⟨"note", by decide, 60, rfl⟩
  have htime : time.ChangesTimes := ⟨by decide +kernel, by decide +kernel⟩
  exact ⟨step, step', hstep, hstep',
    value_time_comm hvalue htime hread hread' herased herased' hstep hstep' (-1 / 3) (7 / 2)⟩

end Program

end Cadence
