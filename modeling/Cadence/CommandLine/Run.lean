import Cadence.CommandLine.Help
import Cadence.Midi.Playback
import Cadence.Note.Listing
import Cadence.Program.Basic
import Cadence.Settings.Source
import Cadence.Tree.Canonical

/-! What a command line does, given what is found at the paths it names. -/

namespace Cadence.CommandLine

/-- An answer that is known at once: the exit code, what is printed, and a file to write. -/
structure Report where
  exit : UInt32
  output : String
  errors : String
  written : Option (String × String)

/-- What a command line comes to. -/
inductive Outcome where
  | finished (report : Report)
  /-- So many beats are to be played. -/
  | playing (playback : Playback) (beats : UInt64)

/-- How a failure is told, with what caused it if that is another one. -/
def failureText (message : String) (cause : Option String) : String :=
  let because := match cause with
    | some cause => "\n\nCaused by:\n    " ++ cause
    | none => ""
  "Error: " ++ message ++ because ++ "\n"

namespace Outcome

def success (output : String) : Outcome := .finished ⟨0, output, "", none⟩

def failure (message : String) (cause : Option String) : Outcome :=
  .finished ⟨1, "", failureText message cause, none⟩

end Outcome

/-- Goes on with the text of a program. -/
def withText (find : String → FileContent) (path : String) (next : String → Outcome) : Outcome :=
  match (find path).text with
  | .ok text => next text
  | .error error => .failure ("Failed to read " ++ path) (some error.text)

/-- Goes on with the step that a program stands for. -/
def withStep (find : String → FileContent) (path : String) (next : Step → Outcome) : Outcome :=
  withText find path fun text =>
    match Program.stepOfText text with
    | .ok step => next step
    | .error error => .failure error.text none

def check (text : String) : Outcome :=
  match Program.ofText text with
  | .ok _ => .success "ok\n"
  | .error error => .finished ⟨1, error.text ++ "\n", "", none⟩

/-- The canonical layout of a program, printed or written to its file. -/
def format (path : String) (write : Bool) (text : String) : Outcome :=
  match Grammar.readProgram text with
  | .ok document =>
    let laidOut : Cadence.Document Unit := ⟨document.tree.canonicalProgram, ""⟩
    let formatted := laidOut.writtenProgram ++ "\n"
    if write then .finished ⟨0, "", "", some (path, formatted)⟩ else .success formatted
  | .error error => .failure ("Failed to parse " ++ path) (some error.text)

/-- The settings of a play, after what the command line says of them. -/
def playSettings (settings : Settings) (beats : Option UInt64) (bpm : Option Double) : Settings :=
  { settings with beats := beats.getD settings.beats, bpm := bpm.getD settings.bpm }.repair

def perform (settings : Settings) (find : String → FileContent) : Request → Outcome
  | .check file => withText find file check
  | .fmt file write => withText find file (format file write)
  | .query file start stop => withStep find file fun step =>
    .success (listing (step.pattern start stop) ++ "\n")
  | .play file beats bpm => withStep find file fun step =>
    let settings := playSettings settings beats bpm
    .playing (.start step.pattern settings.bpm settings.velocity) settings.beats

/-- Where the settings are if the command line does not say so. -/
def defaultConfig (home : String) : String := home ++ "/gallium/config.toml"

/-- The paths at which `run` has to know what is found there. -/
def pathsToFind (home : String) (arguments : List String) : List String :=
  match Reading.ofArguments arguments with
  | .request config request => [config.getD (defaultConfig home), request.file]
  | .help _ | .misuse => []

/-- Answers a command line. `home` is the folder for the settings of programs. -/
def run (home : String) (find : String → FileContent) (arguments : List String) : Outcome :=
  match Reading.ofArguments arguments with
  | .misuse => .finished ⟨2, "", helpText .everything, none⟩
  | .help topic => .success (helpText topic)
  | .request config request =>
    match Settings.load (find (config.getD (defaultConfig home))) with
    | .error error =>
      let cause := match error with
        | .unreadable cause => some cause.text
        | .malformed => none
      .failure error.text cause
    | .ok settings => perform settings find request

end Cadence.CommandLine
