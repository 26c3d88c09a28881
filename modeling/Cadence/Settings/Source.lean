import Cadence.Settings.Document
import Cadence.Text.FileContent

/-! Settings from a file. -/

namespace Cadence.Settings

/-- Why there are no settings. -/
inductive LoadError where
  | unreadable (cause : FileError)
  | malformed
  deriving DecidableEq

def LoadError.text : LoadError → String
  | .unreadable _ => "Failed to read config file"
  | .malformed => "Failed to parse config file"

/-- The text of a file. A file that does not exist has none. -/
def content (file : FileContent) : Except LoadError (Option String) :=
  if file.isPresent then (file.text.map some).mapError .unreadable else .ok none

/-- The settings as they are written. -/
def read (file : FileContent) : Except LoadError Settings := do
  match ← content file with
  | some text => ((ofText? text).map Except.ok).getD (.error .malformed)
  | none => return default

/-- Settings that can be used. A file that is missing or malformed gives the defaults. -/
def load (file : FileContent) : Except LoadError Settings := do
  match ← content file with
  | some text => return ((ofText? text).getD default).repair
  | none => return default

end Cadence.Settings
