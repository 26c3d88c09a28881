import Cadence.Text.FileContent

/-! A folder held in memory, with the paths that lead through it. Where the folder lies is not known. Of
what lies outside of it, the root and the folders that every system has are known, and the null device,
which is an empty file. -/

namespace Cadence

/-- Files by their paths, which are relative to the folder and in their simplest form. -/
abbrev Folder := List (String × String)

namespace Folder

/-- A place that a path has led to. -/
inductive Place where
  | file (path : List String)
  | folder (path : List String)
  /-- A folder outside, with its path from the root if that is known. -/
  | outside (path : Option (List String))
  | nullDevice
  | nowhere (error : FileError)

/-- The most bytes that one part of a path may have. -/
def partLimit : Nat := 255

/-- The most bytes that a whole path may have. -/
def pathLimit : Nat := 4095

def paths (folder : Folder) : List (List String) := folder.map fun (path, _) => path.splitOn "/"

/-- The folders that every system has at its root. -/
def systemFolders : List String :=
  ["bin", "boot", "dev", "etc", "home", "lib", "media", "mnt", "opt", "proc", "root", "run", "sbin", "srv",
    "sys", "tmp", "usr", "var"]

/-- What is known at the path of a part in a folder outside. -/
def outsidePart (path : Option (List String)) (part : String) : Place :=
  match path with
  | some [] => if systemFolders.contains part then .outside (some [part]) else .nowhere .missing
  | some ["dev"] => if part = "null" then .nullDevice else .nowhere .missing
  | _ => .nowhere .missing

/-- Goes on from a place by one part of a path. -/
def step (folder : Folder) (place : Place) (part : String) : Place :=
  match place with
  | .nowhere error => .nowhere error
  | .file _ | .nullDevice => .nowhere .notDirectory
  | .outside path =>
    if part = "" ∨ part = "." then place
    else if part = ".." then .outside (path.map List.dropLast)
    else if partLimit < part.utf8ByteSize then .nowhere .nameTooLong
    else outsidePart path part
  | .folder path =>
    if part = "" ∨ part = "." then place
    else if part = ".." then if path.isEmpty then .outside none else .folder path.dropLast
    else if partLimit < part.utf8ByteSize then .nowhere .nameTooLong
    else
      let next := path ++ [part]
      if folder.paths.contains next then .file next
      else if folder.paths.any fun other => next.isPrefixOf other then .folder next
      else .nowhere .missing

/-- Where a path leads that starts in the folder. -/
def locate (folder : Folder) (path : String) : Place :=
  if path = "" then .nowhere .missing
  else if pathLimit < path.utf8ByteSize then .nowhere .nameTooLong
  else (path.splitOn "/").foldl folder.step (if path.startsWith "/" then .outside (some []) else .folder [])

/-- What is found at a path. -/
def find (folder : Folder) (path : String) : FileContent :=
  match folder.locate path with
  | .file path =>
    match folder.lookup ("/".intercalate path) with
    | some content => .bytes content.toUTF8
    | none => .unreadable .missing
  | .folder _ | .outside _ => .closed .isDirectory
  | .nullDevice => .bytes .empty
  | .nowhere error => .unreadable error

/-- Gives a file that is there another content. -/
def write (folder : Folder) (path content : String) : Folder :=
  match folder.locate path with
  | .file path =>
    folder.map fun (other, old) => (other, if other = "/".intercalate path then content else old)
  | _ => folder

end Folder

end Cadence
