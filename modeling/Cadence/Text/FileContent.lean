/-! What is found at the path of a file. -/

namespace Cadence

/-- Why no text can be read at a path. -/
inductive FileError where
  | missing
  | denied
  | notDirectory
  | isDirectory
  | nameTooLong
  | notText
  /-- Any other reason, in the words of the system. -/
  | other (text : String)
  deriving DecidableEq

def FileError.text : FileError → String
  | .missing => "No such file or directory (os error 2)"
  | .denied => "Permission denied (os error 13)"
  | .notDirectory => "Not a directory (os error 20)"
  | .isDirectory => "Is a directory (os error 21)"
  | .nameTooLong => "File name too long (os error 36)"
  | .notText => "stream did not contain valid UTF-8"
  | .other text => text

/-- What the system tells of a path: whether there is anything at it, and what comes of reading it. Neither follows from
the other: a file may be there that its reader has no right to, and where a link leads in a circle nothing is there, of
which the error of reading it says nothing. -/
structure FileContent where
  /-- Whether the path leads to something of which the system can tell, be it the size alone. -/
  isPresent : Bool
  content : Except FileError ByteArray

namespace FileContent

def bytes (content : ByteArray) : FileContent := ⟨true, .ok content⟩

/-- A path at which nothing is found. -/
def unreadable (error : FileError) : FileContent := ⟨false, .error error⟩

/-- A path at which there is something, though not to be read. -/
def closed (error : FileError) : FileContent := ⟨true, .error error⟩

def text (file : FileContent) : Except FileError String := do
  let content ← file.content
  ((String.fromUTF8? content).map Except.ok).getD (.error .notText)

end FileContent

end Cadence
