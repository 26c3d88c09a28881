import Cadence.CommandLine.Run
import Cadence.Proofs.Midi.Ticking

/-! Settings that can be used. Whatever a file says, and whatever the command line says instead, what is played has
been repaired: it has a speed that a timer can keep, notes that are heard, and at least one beat. -/

namespace Cadence

/-- A repair makes of any value one that can be used, and leaves those as they are that can. -/
structure Repairs {A : Type} (usable : A → Prop) (repair : A → A) : Prop where
  repaired : ∀ value, usable (repair value)
  kept : ∀ value, usable value → repair value = value

theorem Repairs.idempotent {A : Type} {usable : A → Prop} {repair : A → A} (h : Repairs usable repair) (value : A) :
    repair (repair value) = repair value := h.kept _ (h.repaired value)

namespace Settings

def UsableBpm (bpm : Double) : Prop := Double.le 20 bpm = true ∧ bpm.le 400 = true

/-- A velocity is a data byte, and not that of a note off. -/
def UsableVelocity (velocity : UInt8) : Prop := 1 ≤ velocity ∧ velocity ≤ 127

def UsableBeats (beats : UInt64) : Prop := 1 ≤ beats

def UsableLevel (level : String) : Prop := isBlankLevel level = false

structure Usable (settings : Settings) : Prop where
  bpm : UsableBpm settings.bpm
  velocity : UsableVelocity settings.velocity
  beats : UsableBeats settings.beats
  level : UsableLevel settings.level

theorem usable_default : Usable default where
  bpm := ⟨by decide +kernel, by decide +kernel⟩
  velocity := ⟨by decide, by decide⟩
  beats := show 1 ≤ (16 : UInt64) by decide
  level := show isBlankLevel "info" = false by decide

theorem repairs_bpm : Repairs UsableBpm repairBpm where
  repaired bpm := by
    unfold repairBpm
    split_ifs with hnan hslow hfast
    · exact usable_default.bpm
    · exact ⟨by decide +kernel, by decide +kernel⟩
    · exact ⟨by decide +kernel, by decide +kernel⟩
    · rw [Bool.not_eq_true] at hnan hslow hfast
      exact ⟨Double.le_of_not_lt (by decide +kernel) hnan hslow, Double.le_of_not_lt hnan (by decide +kernel) hfast⟩
  kept bpm h := by
    have hnan := (Double.le_iff_level.mp h.1).2.1
    have hslow : bpm.lt leastBpm = false := Double.not_lt_of_le h.1
    have hfast : greatestBpm.lt bpm = false := Double.not_lt_of_le h.2
    rw [repairBpm, hnan, hslow, hfast]
    rfl

/-- Only zero is too low, whatever is too high. -/
theorem repairVelocity_eq (velocity : UInt8) :
    repairVelocity velocity = if velocity = 0 then 1 else if velocity ≤ 127 then velocity else 127 := by
  show (if 1 ≤ (if velocity ≤ 127 then velocity else 127) then (if velocity ≤ 127 then velocity else 127) else 1) = _
  split_ifs <;> grind

theorem repairs_velocity : Repairs UsableVelocity repairVelocity where
  repaired velocity := by
    rw [repairVelocity_eq]
    split_ifs with hzero hlow
    · exact ⟨by decide, by decide⟩
    · exact ⟨by grind, hlow⟩
    · exact ⟨by decide, by decide⟩
  kept velocity h := by
    obtain ⟨hleast, hgreatest⟩ := h
    rw [repairVelocity_eq, if_neg (by grind), if_pos hgreatest]

theorem repairs_beats : Repairs UsableBeats repairBeats where
  repaired beats := by
    show 1 ≤ if 1 ≤ beats then beats else 1
    split_ifs with hbeats
    · exact hbeats
    · decide
  kept _ h := if_pos h

theorem repairs_level : Repairs UsableLevel repairLevel where
  repaired level := by
    unfold repairLevel
    split_ifs with hblank
    · exact usable_default.level
    · exact Bool.eq_false_of_not_eq_true hblank
  kept level h := if_neg (Bool.eq_false_iff.mp h)

/-- Settings are repaired field by field. -/
theorem repairs_settings : Repairs Usable repair where
  repaired settings :=
    ⟨repairs_bpm.repaired _, repairs_velocity.repaired _, repairs_beats.repaired _, repairs_level.repaired _⟩
  kept settings h := by
    rw [repair, repairs_bpm.kept _ h.bpm, repairs_velocity.kept _ h.velocity, repairs_beats.kept _ h.beats,
      repairs_level.kept _ h.level]

/-- Whether settings have of some others whatever can be used. -/
structure Keeps (settings others : Settings) : Prop where
  bpm : UsableBpm others.bpm → settings.bpm = others.bpm
  velocity : UsableVelocity others.velocity → settings.velocity = others.velocity
  beats : UsableBeats others.beats → settings.beats = others.beats
  level : UsableLevel others.level → settings.level = others.level

theorem keeps_repair (settings : Settings) : settings.repair.Keeps settings :=
  ⟨repairs_bpm.kept _, repairs_velocity.kept _, repairs_beats.kept _, repairs_level.kept _⟩

theorem content_eq_error_iff {file : FileContent} {error : LoadError} :
    content file = .error error ↔ ∃ cause, error = .unreadable cause ∧ file.isPresent = true ∧ file.text = .error cause := by
  unfold content
  cases file.isPresent with
  | false => simp
  | true =>
      cases file.text with
      | ok text => simp [Except.map, Except.mapError]
      | error cause => simp [Except.map, Except.mapError, eq_comm]

/-- A text that cannot be had fails both readings. -/
theorem fail_of_content {file : FileContent} {error : LoadError} (h : content file = .error error) :
    load file = .error error ∧ read file = .error error := by
  rw [load, read, h]
  exact ⟨rfl, rfl⟩

/-- From the text of a file, or none if there is no file, settings are loaded that repair what is read. -/
theorem load_of_content {file : FileContent} {text : Option String} (h : content file = .ok text) :
    ∃ written, load file = .ok written.repair ∧
      (read file = .ok written ∨ read file = .error .malformed ∧ written = default) := by
  cases text with
  | none =>
      have hload : load file = .ok default := by rw [load, h]; rfl
      have hread : read file = .ok default := by rw [read, h]; rfl
      exact ⟨default, by rw [hload, repairs_settings.kept _ usable_default], .inl hread⟩
  | some text =>
      have hload : load file = .ok ((ofText? text).getD default).repair := by rw [load, h]; rfl
      have hread : read file = ((ofText? text).map Except.ok).getD (.error .malformed) := by rw [read, h]; rfl
      refine ⟨(ofText? text).getD default, hload, ?_⟩
      rw [hread]
      cases ofText? text with
      | some written => exact .inl rfl
      | none => exact .inr ⟨rfl, rfl⟩

theorem load_eq_error_iff {file : FileContent} {error : LoadError} :
    load file = .error error ↔ content file = .error error := by
  refine ⟨fun h => ?_, fun h => (fail_of_content h).1⟩
  cases hcontent : content file with
  | error cause =>
      rw [(fail_of_content hcontent).1] at h
      cases h
      rfl
  | ok text =>
      obtain ⟨written, hload, -⟩ := load_of_content hcontent
      rw [hload] at h
      cases h

theorem exists_of_load {file : FileContent} {settings : Settings} (h : load file = .ok settings) :
    ∃ written, settings = written.repair ∧
      (read file = .ok written ∨ read file = .error .malformed ∧ written = default) := by
  cases hcontent : content file with
  | error cause =>
      rw [(fail_of_content hcontent).1] at h
      cases h
  | ok text =>
      obtain ⟨written, hload, hread⟩ := load_of_content hcontent
      rw [hload] at h
      cases h
      exact ⟨written, rfl, hread⟩

end Settings

/-- Whether a playback has beats that a timer can keep, from 150 to 3000 milliseconds long, and notes that are heard. -/
structure Playback.Playable (playback : Playback) (beats : UInt64) : Prop where
  velocity : Settings.UsableVelocity playback.velocity
  beats : Settings.UsableBeats beats
  length : Double.le 150 playback.beatLength = true ∧ playback.beatLength.le 3000 = true
  tick : ∃ nanoseconds, playback.tick? = some nanoseconds ∧ 150000000 ≤ nanoseconds ∧ nanoseconds ≤ 3000000000

namespace Settings

theorem beatLength_between {bpm : Double} (h : UsableBpm bpm) :
    Double.le 150 (60000 / bpm) = true ∧ (60000 / bpm : Double).le 3000 = true := by
  have hleast : (20 : Double).IsPositive := by decide +kernel
  have hgreatest : (400 : Double).IsPositive := by decide +kernel
  have hbpm := hleast.of_le hgreatest h.1 h.2
  have hminute : (60000 : Double).IsPositive ∧ (60000 : Double).le 60000 = true := by decide +kernel
  have hshortest : (60000 / 400 : Double) = 150 := by decide +kernel
  have hlongest : (60000 / 20 : Double) = 3000 := by decide +kernel
  rw [← hshortest, ← hlongest]
  exact ⟨Double.div_le_div hminute.1 hminute.1 hgreatest hbpm hminute.2 h.2,
    Double.div_le_div hminute.1 hminute.1 hbpm hleast hminute.2 h.1⟩

theorem playable_of_usable {settings : Settings} (h : settings.Usable) (pattern : Pattern Double Note) :
    (Playback.start pattern settings.bpm settings.velocity).Playable settings.beats where
  velocity := h.velocity
  beats := h.beats
  length := beatLength_between h.bpm
  tick := Playback.tick_between (beatLength_between h.bpm).1 (beatLength_between h.bpm).2

end Settings

/-! ### Command lines -/

namespace CommandLine

variable {find : String → FileContent} {playback : Playback} {beats : UInt64}

theorem exists_text_of_playing {path : String} {next : String → Outcome}
    (h : withText find path next = .playing playback beats) : ∃ text, next text = .playing playback beats := by
  unfold withText at h
  split at h
  · exact ⟨_, h⟩
  · cases h

theorem exists_step_of_playing {path : String} {next : Step → Outcome}
    (h : withStep find path next = .playing playback beats) : ∃ step, next step = .playing playback beats := by
  obtain ⟨text, h⟩ := exists_text_of_playing h
  split at h
  · exact ⟨_, h⟩
  · cases h

/-- Nothing is played but by a request to play, and then with its settings. -/
theorem exists_settings_of_playing {settings : Settings} {request : Request}
    (h : perform settings find request = .playing playback beats) :
    ∃ (chosen : Settings) (pattern : Pattern Double Note),
      playback = .start pattern chosen.repair.bpm chosen.repair.velocity ∧ beats = chosen.repair.beats := by
  cases request with
  | check file =>
      rw [perform] at h
      obtain ⟨text, h⟩ := exists_text_of_playing h
      unfold check at h
      split at h <;> cases h
  | fmt file write =>
      rw [perform] at h
      obtain ⟨text, h⟩ := exists_text_of_playing h
      unfold format at h
      split at h
      · simp only at h
        split_ifs at h
        cases h
      · cases h
  | query file start stop =>
      rw [perform] at h
      obtain ⟨step, h⟩ := exists_step_of_playing h
      cases h
  | play file beats' bpm =>
      rw [perform] at h
      obtain ⟨step, h⟩ := exists_step_of_playing h
      cases h
      exact ⟨_, _, rfl, rfl⟩

theorem playable_of_run {home : String} {arguments : List String}
    (h : run home find arguments = .playing playback beats) : playback.Playable beats := by
  unfold run at h
  split at h
  · cases h
  · cases h
  · split at h
    · cases h
    · obtain ⟨chosen, pattern, rfl, rfl⟩ := exists_settings_of_playing h
      exact Settings.playable_of_usable (Settings.repairs_settings.repaired chosen) pattern

end CommandLine

namespace Settings

/-- Settings can always be used. Loading fails for a file that is there and whose text cannot be had, as reading does,
and for no other, whatever would come of reading a file that is not there; what is loaded repairs what is read, or the
defaults if this is no settings. A repair leads into the ranges, keeps what is in them and changes nothing the second
time. And whatever a command line says of speed and beats, what is played has beats that a timer can keep. -/
theorem always_usable :
    (∀ (file : FileContent) (error : LoadError), load file = .error error ↔
      ∃ cause, error = .unreadable cause ∧ file.isPresent = true ∧ file.text = .error cause) ∧
    (∀ (file : FileContent) (error : LoadError), load file = .error error → read file = .error error) ∧
    (∀ (file : FileContent) (settings : Settings), load file = .ok settings →
      ∃ written, settings = written.repair ∧
        (read file = .ok written ∨ read file = .error .malformed ∧ written = default)) ∧
    (∀ settings : Settings,
      settings.repair.Usable ∧ settings.repair.Keeps settings ∧ settings.repair.repair = settings.repair) ∧
    (∀ (settings : Settings) (beats : Option UInt64) (bpm : Option Double) (pattern : Pattern Double Note),
      let chosen := CommandLine.playSettings settings beats bpm
      (Playback.start pattern chosen.bpm chosen.velocity).Playable chosen.beats) ∧
    ∀ (home : String) (find : String → FileContent) (arguments : List String) (playback : Playback) (beats : UInt64),
      CommandLine.run home find arguments = .playing playback beats → playback.Playable beats := by
  refine ⟨fun file error => load_eq_error_iff.trans content_eq_error_iff, fun file error h => ?_,
    fun file settings => exists_of_load, fun settings => ?_, fun settings beats bpm pattern => ?_,
    fun home find arguments playback beats => CommandLine.playable_of_run⟩
  · exact (fail_of_content (load_eq_error_iff.mp h)).2
  · exact ⟨repairs_settings.repaired settings, keeps_repair settings, repairs_settings.idempotent settings⟩
  · exact playable_of_usable (repairs_settings.repaired _) pattern

/-- A file that breaks off within its first value. -/
def brokenOff : FileContent := .bytes "playback = [".toUTF8

/-- A link that leads to itself: nothing is there, though the system has another word for it. -/
def circular : FileContent := .unreadable (.other "Too many levels of symbolic links (os error 40)")

/-- The folder of a song, without settings. -/
def songOnly (path : String) : FileContent := if path = "song" then .bytes "note 60".toUTF8 else .unreadable .missing

/-- Settings out of every range but one, a file of each kind that is not read, and a speed that is no number. -/
theorem always_usable_outOfRange :
    let strange : Settings := ⟨.nan, 200, 3, " "⟩
    let arguments := ["play", "song", "--bpm=nan", "--beats=0"]
    read (.closed .denied) = .error (.unreadable .denied) ∧
      (∀ error, load circular ≠ .error error) ∧
      (∃ written, default = written.repair ∧
        (read brokenOff = .ok written ∨ read brokenOff = .error .malformed ∧ written = default)) ∧
      (strange.repair = ⟨120, 127, 3, "info"⟩ ∧ strange.repair.beats = strange.beats) ∧
      ∃ playback beats, CommandLine.run "" songOnly arguments = .playing playback beats ∧ playback.Playable beats := by
  intro strange arguments
  obtain ⟨hfails, hfail, hload, hrepair, -, hplay⟩ := always_usable
  refine ⟨hfail _ _ rfl, fun error herror => ?_, hload brokenOff default (by decide +kernel), ⟨by decide +kernel, ?_⟩, ?_⟩
  · obtain ⟨_, -, hpresent, -⟩ := (hfails circular error).mp herror
    cases hpresent
  · exact (hrepair strange).2.1.beats (show 1 ≤ (3 : UInt64) by decide)
  · have hplaying : (match CommandLine.run "" songOnly arguments with
        | .playing _ _ => true
        | .finished _ => false) = true := by decide +kernel
    split at hplaying
    case h_1 playback beats hrun => exact ⟨playback, beats, hrun, hplay _ _ _ _ _ hrun⟩
    case h_2 => cases hplaying

end Settings

end Cadence
