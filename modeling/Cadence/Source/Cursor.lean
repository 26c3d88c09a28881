import Cadence.Text.Position

/-! The state of reading: what is left of the text, where that begins, the columns of the open blocks,
and the failure that got furthest. -/

namespace Cadence

/-- Why and where reading failed. -/
structure ParseError where
  message : String
  position : Position
  deriving DecidableEq, Inhabited

namespace ParseError

def text (error : ParseError) : String :=
  "parse error at line " ++ toString error.position.line ++ ", column " ++
    toString error.position.column ++ ": " ++ error.message

/-- The later of two failures. Of two at the same place the second is kept. -/
def furthest (known : Option ParseError) (error : ParseError) : ParseError :=
  match known with
  | some known => if known.position.offset ≤ error.position.offset then error else known
  | none => error

end ParseError

/-- A place in a text together with the columns of the open blocks, the innermost first. -/
structure Cursor where
  position : Position
  rest : List Char
  indents : List Nat
  furthest : Option ParseError
  deriving DecidableEq

namespace Cursor

def ofText (text : String) (indents : List Nat) : Cursor := ⟨.start, text.toList, indents, none⟩

def isAtEnd (cursor : Cursor) : Bool := cursor.rest.isEmpty

/-- Moves over the next `count` characters. -/
def advance (cursor : Cursor) (count : Nat) : Cursor :=
  { cursor with
    position := cursor.position.afterAll (cursor.rest.take count)
    rest := cursor.rest.drop count }

/-- Goes back to the place and the open blocks of `checkpoint`. The furthest failure stays. -/
def restore (cursor checkpoint : Cursor) : Cursor := { checkpoint with furthest := cursor.furthest }

def error (cursor : Cursor) (message : String) : ParseError := ⟨message, cursor.position⟩

/-- Takes note of a failure at the current place. -/
def record (cursor : Cursor) (message : String) : Cursor :=
  { cursor with furthest := some (.furthest cursor.furthest (cursor.error message)) }

end Cursor

end Cadence
