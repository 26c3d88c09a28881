/-! Positions in a text: the number of UTF-8 bytes before a place, its line and its column. -/

namespace Cadence

/-- A place in a text. The offset counts bytes from zero; lines and columns count from one, columns in
characters. -/
structure Position where
  offset : Nat
  line : Nat
  column : Nat
  deriving DecidableEq, Inhabited

namespace Position

def start : Position := ⟨0, 1, 1⟩

/-- The position behind one more character. -/
def after (position : Position) (character : Char) : Position where
  offset := position.offset + character.utf8Size
  line := if character = '\n' then position.line + 1 else position.line
  column := if character = '\n' then 1 else position.column + 1

/-- The position behind more text. -/
def afterAll (position : Position) (text : List Char) : Position := text.foldl after position

end Position

end Cadence
