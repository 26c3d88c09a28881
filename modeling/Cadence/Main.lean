import Cadence.CommandLine.Run

/-! The program: looks up the files that a command line names, and does what comes of it. -/

namespace Cadence

/-- The reason for a failure. The system's number for it may come with its sign turned. -/
def FileError.ofError (error : IO.Error) : FileError :=
  match error with
  | .noFileOrDirectory .. => .missing
  | .permissionDenied .. => .denied
  | .inappropriateType _ code _ => if code = 21 ∨ code = -21 then .isDirectory else .notDirectory
  | .invalidArgument _ code _ =>
    if code = 36 ∨ code = -36 then .nameTooLong else .other (toString error)
  | error => .other (toString error)

/-- What is found at a path of the file system. Whether there is anything is asked for apart from the content: the path
is resolved, which needs no right to read what it leads to. -/
def lookUp (path : String) : IO FileContent := do
  let resolved ← (IO.FS.realPath path).toBaseIO
  let content ← (IO.FS.readBinFile path).toBaseIO
  return ⟨resolved.isOk, content.mapError FileError.ofError⟩

/-- The folder for the settings of programs. -/
def settingsHome : IO String := do
  match ← IO.getEnv "XDG_CONFIG_HOME" with
  | some folder => return folder
  | none => return (← IO.getEnv "HOME").getD "" ++ "/.config"

/-- Prints what a report says and writes its file. -/
def deliver (report : CommandLine.Report) : IO UInt32 := do
  IO.print report.output
  IO.eprint report.errors
  if let some (path, content) := report.written then
    if let .error error ← (IO.FS.writeFile path content).toBaseIO then
      IO.eprint (CommandLine.failureText ("Failed to write " ++ path) (some (FileError.ofError error).text))
      return 1
  return report.exit

/-- Plays the beats that are left, each of them when its time has come. -/
def playFrom (started : Nat) (playback : Playback) : (beatsDone beatsLeft : Nat) → IO Unit
  | _, 0 => return
  | beatsDone, beatsLeft + 1 => do
    let due := (playback.beatLength * .ofInt beatsDone).truncate.toNat
    let early := due - ((← IO.monoMsNow) - started)
    IO.sleep (.ofNat early)
    let now := (← IO.monoMsNow) - started
    let (sent, next) := playback.send (.ofInt now)
    for timed in sent do
      IO.println timed.text
    playFrom started next (beatsDone + 1) beatsLeft

end Cadence

def main (arguments : List String) : IO UInt32 := do
  let home ← Cadence.settingsHome
  let found ← (Cadence.CommandLine.pathsToFind home arguments).mapM fun path =>
    return (path, ← Cadence.lookUp path)
  let find (path : String) : Cadence.FileContent := (found.lookup path).getD (.unreadable .missing)
  match Cadence.CommandLine.run home find arguments with
  | .finished report => Cadence.deliver report
  | .playing playback beats =>
    Cadence.playFrom (← IO.monoMsNow) playback 0 beats.toNat
    return 0
