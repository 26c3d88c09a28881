import Cadence.Double.Basic

/-! Data of TOML documents, and how the lines of a document build it.

A table can be made in four ways: written in braces, named by a header, implied by the header of a
table inside of it, or implied by a dotted key. The rules on what may be added to a table later are
rules on how it was made. -/

namespace Cadence.Toml

/-- How a table was made. -/
inductive Origin where
  | inline
  | header
  | implied
  | dotted
  deriving DecidableEq

inductive Item where
  | string (value : String)
  | integer (value : Int)
  | float (value : Double)
  | boolean (value : Bool)
  /-- A date, a time or both. The value is not kept. -/
  | moment
  | array (items : List Item)
  | table (origin : Origin) (members : List (String × Item))
  /-- Tables with a common header, in their order. -/
  | tables (items : List (List (String × Item)))

/-- The members of a table. -/
abbrev Members := List (String × Item)

namespace Members

/-- Replaces the member of a name, or adds one behind the others. -/
def set (name : String) (item : Item) : Members → Members
  | [] => [(name, item)]
  | (other, found) :: members =>
    if other = name then (name, item) :: members else (other, found) :: set name item members

/-- Whether keys of one origin may be added to a table of another: never to one in braces, and by a
dotted key not to one that has a header. -/
def mayEnter (wanted found : Origin) : Bool :=
  match found with
  | .inline => false
  | .header => wanted != .dotted
  | .implied | .dotted => true

/-- Changes the table at the end of a path. Tables that are missing on the way are made; of tables with a
common header the last one is entered. -/
def within (wanted : Origin) (finish : Origin → Members → Option Members) :
    (path : List String) → (here : Origin) → Members → Option Members
  | [], here, members => finish here members
  | name :: path, _, members =>
    match members.lookup name with
    | none => do
      let inner ← within wanted finish path wanted []
      return members.set name (.table wanted inner)
    | some (.table found inner) =>
      if mayEnter wanted found then do
        let inner ← within wanted finish path found inner
        return members.set name (.table found inner)
      else none
    | some (.tables items) =>
      match items.getLast? with
      | some inner => do
        let inner ← within wanted finish path .header inner
        return members.set name (.tables (items.dropLast ++ [inner]))
      | none => none
    | some _ => none

/-- Gives a value to a dotted key. What stands before the last dot must name a table that was made by
dotted keys alone, and the name behind it must be new. -/
def assign (path : List String) (name : String) (item : Item) (members : Members) : Option Members :=
  let finish (here : Origin) (members : Members) : Option Members :=
    if (path.isEmpty || here == .dotted) && (members.lookup name).isNone then
      some (members.set name item)
    else none
  within .dotted finish path .header members

/-- Takes note of the header of a table, which may have been implied before but not more. -/
def openTable (path : List String) (name : String) (members : Members) : Option Members :=
  let finish (_ : Origin) (members : Members) : Option Members :=
    match members.lookup name with
    | none => some (members.set name (.table .header []))
    | some (.table .implied inner) => some (members.set name (.table .header inner))
    | some _ => none
  within .implied finish path .header members

/-- Takes note of one more header of tables that share it. -/
def openNext (path : List String) (name : String) (members : Members) : Option Members :=
  let finish (_ : Origin) (members : Members) : Option Members :=
    match members.lookup name with
    | none => some (members.set name (.tables [[]]))
    | some (.tables items) => some (members.set name (.tables (items ++ [[]])))
    | some _ => none
  within .implied finish path .header members

/-- Makes a table in braces of its dotted keys and their values. -/
def ofPairs (pairs : List (List String × String × Item)) : Option Members :=
  pairs.foldlM (fun members (path, name, item) => assign path name item members) []

end Members

/-- What one line of a document says. Keys are given by what stands before their last dot and what
stands behind it. -/
inductive Line where
  | blank
  | header (path : List String) (name : String)
  | nextHeader (path : List String) (name : String)
  | assignment (path : List String) (name : String) (item : Item)

/-- A document up to some line: its members, and the path to the table of the last header. -/
structure Document where
  members : Members
  current : List String

namespace Document

/-- Adds a line, if the rules on tables allow it. -/
def add (document : Document) : Line → Option Document
  | .blank => some document
  | .header path name => do
    return ⟨← document.members.openTable path name, path ++ [name]⟩
  | .nextHeader path name => do
    return ⟨← document.members.openNext path name, path ++ [name]⟩
  | .assignment path name item => do
    let finish (_ : Origin) (members : Members) : Option Members := members.assign path name item
    return { document with
      members := ← document.members.within .implied finish document.current .header }

def ofLines (lines : List Line) : Option Document := lines.foldlM add ⟨[], []⟩

end Document

end Cadence.Toml
