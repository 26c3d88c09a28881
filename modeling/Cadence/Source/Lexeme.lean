import Cadence.Source.Parser
import Cadence.Text.CodePoint

/-! The lexemes of programs. Each is given by its length at the start of a text, if it stands there. -/

namespace Cadence.Lexeme

/-- How many characters at the start of a text satisfy a condition. -/
def span (condition : Char → Bool) (text : List Char) : Nat := (text.takeWhile condition).length

/-- A length that must not be zero. -/
def nonempty (length : Nat) : Option Nat := if length = 0 then none else some length

/-- A letter, then letters and digits, all of them ASCII. -/
def name : List Char → Option Nat
  | [] => none
  | first :: rest =>
    if first.isAlpha then some (1 + span Char.isAlphanum rest) else none

/-- Digits of any script with at most one point, and at least one digit, which stands before the point
unless there is none before it. -/
def number (text : List Char) : Option Nat :=
  let whole := span isDecimalDigit text
  match text.drop whole with
  | '.' :: rest =>
    let fraction := span isDecimalDigit rest
    if whole = 0 ∧ fraction = 0 then none else some (whole + 1 + fraction)
  | _ => nonempty whole

def spaces (text : List Char) : Option Nat := nonempty (span (· == ' ') text)

/-- A comment reaches from its sign to the end of the line. -/
def comment : List Char → Nat
  | '#' :: rest => 1 + span (· != '\n') rest
  | _ => 0

/-- What may follow the last token of a line: spaces, then a comment. -/
def filler (text : List Char) : Option Nat :=
  let blank := span (· == ' ') text
  some (blank + comment (text.drop blank))

/-- The longest run of white space and comments, where `inComment` says whether the text begins inside
a comment. -/
def runLength (inComment : Bool) : List Char → Nat
  | [] => 0
  | character :: rest =>
    if inComment then 1 + runLength (character != '\n') rest
    else if character == '#' then 1 + runLength true rest
    else if isBlank character then 1 + runLength false rest
    else 0

/-- White space and comments. -/
def trailing (text : List Char) : Option Nat := some (runLength false text)

/-- The run of white space and comments at the start of a text, as far as its last line end. -/
def blankLines (text : List Char) : Option Nat :=
  let run := text.take (runLength false text)
  nonempty (run.length - span (· != '\n') run.reverse)

end Cadence.Lexeme
