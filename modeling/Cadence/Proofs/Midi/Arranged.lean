import Cadence.Midi.Playback
import Cadence.Proofs.Double.Order
import Cadence.Proofs.Rhythm.Merge

/-! The messages of a beat. Every event that is heard begins its note and releases it, and of these messages nothing
is lost on the way: they are put in the order of their times, and at the same time stay in the order of the events. A
note that does not end before it begins is not released before it is struck, although the two times are rounded apart
from each other. -/

namespace Cadence

/-- When a note is released, which is held for a fraction of its event. -/
def Event.release (event : Event Double Note) : Double :=
  event.start + (event.stop - event.start) * event.value.length

namespace Playback

/-- The events of the next beat that are heard, each with its pitch: those that have one and are not muted. -/
def heard (playback : Playback) : List (Event Double Note × UInt8) :=
  (playback.pattern playback.beat (playback.beat + 1)).filterMap fun event =>
    if event.value.mute then none else event.value.pitch.map (event, ·)

section

variable (playback : Playback) (now : Double) (event : Event Double Note) (pitch : UInt8)

/-- When a moment of the next beat comes, which begins at the time `now`. -/
def timeOf (moment : Double) : Double := now + (moment - playback.beat) * playback.beatLength

def noteOn : TimedMessage :=
  ⟨.noteOn event.value.channel pitch playback.velocity, playback.timeOf now event.start⟩

def noteOff : TimedMessage := ⟨.noteOff event.value.channel pitch, playback.timeOf now event.release⟩

/-- The messages of the next beat in the order of its events. -/
def written : List TimedMessage :=
  playback.heard.flatMap fun entry => [playback.noteOn now entry.1 entry.2, playback.noteOff now entry.1 entry.2]

end

variable {playback : Playback} {now : Double} {event : Event Double Note} {pitch : UInt8}

theorem written_eq (playback : Playback) (now : Double) :
    playback.written now =
      (playback.pattern playback.beat (playback.beat + 1)).flatMap (playback.eventMessages now) := by
  rw [written, heard]
  induction playback.pattern playback.beat (playback.beat + 1) with
  | nil => rfl
  | cons event events ih =>
      rw [List.flatMap_cons, ← ih, eventMessages]
      cases hpitch : event.value.pitch with
      | none => simp [hpitch]
      | some pitch =>
          cases hmute : event.value.mute with
          | true => simp [hmute]
          | false =>
              simp only [hmute, hpitch, List.filterMap_cons, Option.map_some]
              rfl

/-- Two messages are written for every event that is heard. -/
theorem pair_sublist_written {α β : Type} {l : List α} {number : Nat} {a : α} (first second : α → β)
    (h : l[number]? = some a) (start : Nat) :
    [(first a, start + 2 * number), (second a, start + 2 * number + 1)].Sublist
      ((l.flatMap fun a => [first a, second a]).zipIdx start) := by
  induction l generalizing number start with
  | nil => cases h
  | cons head l ih =>
      simp only [List.flatMap_cons, List.cons_append, List.nil_append, List.zipIdx_cons]
      cases number with
      | zero =>
          obtain rfl : head = a := Option.some.inj h
          exact ((List.nil_sublist _).cons_cons _).cons_cons _
      | succ number =>
          have hrest := ih h (start + 1 + 1)
          have hnumber : start + 1 + 1 + 2 * number = start + 2 * (number + 1) := by omega
          rw [hnumber] at hrest
          exact (hrest.cons _).cons _

theorem negative_beatLength (hbpm : Double.lt 0 playback.bpm = true) (h : playback.beatLength.isNaN = false) :
    playback.beatLength.negative = false := by
  have hlevel : (0 : Double).level < playback.bpm.level := (Double.lt_iff_level.mp hbpm).2.2
  have hzero : (0 : Double).level = 0 := by decide +kernel
  have hminute : (60000 : Double).negative = false := by decide +kernel
  have hpositive : playback.bpm.negative = false := by
    rw [hzero, Double.level] at hlevel
    split at hlevel
    case isTrue => omega
    case isFalse hsign => exact Bool.eq_false_of_not_eq_true hsign
  have hsign : playback.beatLength.negative = ((60000 : Double).negative != playback.bpm.negative) :=
    Double.negative_div h
  rw [hsign, hminute, hpositive]
  rfl

/-- A note is not released before it is struck: each of the roundings on the way to the two times keeps the order of
what is rounded. -/
theorem rank_timeOf_release (hbpm : Double.lt 0 playback.bpm = true) (hstop : event.start.le event.stop = true)
    (hlength : Double.le 0 event.value.length = true) (hon : (playback.timeOf now event.start).isNaN = false)
    (hoff : (playback.timeOf now event.release).isNaN = false) :
    (playback.timeOf now event.start).rank ≤ (playback.timeOf now event.release).rank := by
  obtain ⟨-, hstruck⟩ := Double.numbers_of_add hon
  obtain ⟨-, hreleased⟩ := Double.numbers_of_add hoff
  obtain ⟨hstart, hbeat⟩ := Double.numbers_of_mul hstruck
  obtain ⟨hend, -⟩ := Double.numbers_of_mul hreleased
  have hrelease : event.release.isNaN = false := (Double.sub_eq_add_neg hend).2.1
  have hheld : ((event.stop - event.start) * event.value.length).isNaN = false := (Double.numbers_of_add hrelease).2
  have hduration : -1 ≤ (event.stop - event.start).rank :=
    Double.rank_sub_nonneg hstop (Double.numbers_of_mul hheld).1
  have hafter : event.start.rank ≤ event.release.rank :=
    Double.rank_le_add (Double.rank_mul_nonneg hduration (Double.rank_of_nonneg hlength) hheld) hrelease
  have hwithin : (event.start - playback.beat).rank ≤ (event.release - playback.beat).rank :=
    Double.rank_sub_le_sub_right hafter hstart hend
  exact Double.rank_add_le_add_left
    (Double.rank_mul_le_mul_right hstruck hreleased (negative_beatLength hbpm hbeat) hwithin) hon hoff

/-- The messages of a beat are those of its events that are heard, two of each, arranged by their times; and with a
positive tempo a note whose event does not end before it begins, and whose length is not below zero, is struck before
it is released, if its times are numbers. -/
theorem messages_arranged (playback : Playback) (now : Double) :
    ∃ numbered, Arranged (fun message => message.time.rank) (playback.written now) numbered ∧
      (∀ other, Arranged (fun message => message.time.rank) (playback.written now) other → other = numbered) ∧
      playback.messages now = numbered.map (·.1) ∧
      ∀ number event pitch, playback.heard[number]? = some (event, pitch) →
        Double.lt 0 playback.bpm = true → event.start.le event.stop = true →
        Double.le 0 event.value.length = true →
        (playback.noteOn now event pitch).time.isNaN = false →
        (playback.noteOff now event pitch).time.isNaN = false →
        [(playback.noteOn now event pitch, 2 * number), (playback.noteOff now event pitch, 2 * number + 1)].Sublist
          numbered := by
  obtain ⟨numbered, harranged, hmessages, hbefore⟩ :=
    exists_arranged (fun message : TimedMessage => message.time.rank) (playback.written now)
  refine ⟨numbered, harranged, fun other hother => hother.unique harranged, ?_, ?_⟩
  · rw [messages, TimedMessage.arrange, ← written_eq, ← hmessages]
  · intro number event pitch hheard hbpm hstop hlength hon hoff
    have hpair := pair_sublist_written (fun entry => playback.noteOn now entry.1 entry.2)
      (fun entry => playback.noteOff now entry.1 entry.2) hheard 0
    rw [Nat.zero_add] at hpair
    exact hbefore _ _ hpair (rank_timeOf_release hbpm hstop hlength hon hoff)

/-- A beat with a long note, a note of no length that begins with it, a muted note, a rest, and a note that begins when
the long one is released. -/
def crowded : Playback where
  pattern _ _ :=
    [⟨0, 1, ⟨0, some 60, 1, false⟩⟩, ⟨0, 1, ⟨0, some 62, 0, false⟩⟩, ⟨0, 1, ⟨0, some 64, 1, true⟩⟩,
      ⟨0, 1, ⟨0, none, 1, false⟩⟩, ⟨1, 2, ⟨0, some 60, 1, false⟩⟩]
  beat := 0
  bpm := 120
  velocity := 100

/-- The messages of the crowded beat, with their numbers among those that are written. -/
def crowdedMessages : List (TimedMessage × Nat) :=
  [(⟨.noteOn 0 60 100, 1000⟩, 0), (⟨.noteOn 0 62 100, 1000⟩, 2), (⟨.noteOff 0 62, 1000⟩, 3), (⟨.noteOff 0 60, 1500⟩, 1),
    (⟨.noteOn 0 60 100, 1500⟩, 4), (⟨.noteOff 0 60, 2000⟩, 5)]

theorem messages_arranged_crowded :
    crowded.messages 1000 = crowdedMessages.map (·.1) ∧
      ∃ event, crowded.heard[1]? = some (event, 62) ∧ Double.lt 0 crowded.bpm = true ∧
        event.start.le event.stop = true ∧ Double.le 0 event.value.length = true ∧
        (crowded.noteOn 1000 event 62).time.isNaN = false ∧ (crowded.noteOff 1000 event 62).time.isNaN = false ∧
        [(crowded.noteOn 1000 event 62, 2), (crowded.noteOff 1000 event 62, 3)].Sublist crowdedMessages := by
  obtain ⟨numbered, -, hunique, hmessages, hbefore⟩ := messages_arranged crowded 1000
  have hcomplete : crowdedMessages.Perm (crowded.written 1000).zipIdx := by decide +kernel
  have hordered : crowdedMessages.Pairwise fun first next =>
      first.1.time.rank < next.1.time.rank ∨ first.1.time.rank = next.1.time.rank ∧ first.2 < next.2 := by
    decide +kernel
  obtain rfl : crowdedMessages = numbered := hunique crowdedMessages ⟨hcomplete, hordered⟩
  have hheard : crowded.heard[1]? = some (⟨0, 1, ⟨0, some 62, 0, false⟩⟩, 62) := by decide +kernel
  have hbpm : Double.lt 0 crowded.bpm = true := by decide +kernel
  have hstop : (0 : Double).le 1 = true := by decide +kernel
  have hlength : Double.le 0 0 = true := by decide +kernel
  have hon : (crowded.noteOn 1000 ⟨0, 1, ⟨0, some 62, 0, false⟩⟩ 62).time.isNaN = false := by decide +kernel
  have hoff : (crowded.noteOff 1000 ⟨0, 1, ⟨0, some 62, 0, false⟩⟩ 62).time.isNaN = false := by decide +kernel
  exact ⟨hmessages, _, hheard, hbpm, hstop, hlength, hon, hoff, hbefore 1 _ _ hheard hbpm hstop hlength hon hoff⟩

end Playback

end Cadence
