import Cadence.Double.Reading
import Cadence.Source.Parser
import Cadence.Toml.Basic

/-! The grammar of TOML 1.0. Texts are only accepted or refused here, so the messages of failures have
no readers. -/

namespace Cadence.Toml.Grammar

open Cadence.Parser

/-- One character that satisfies a condition. -/
def character (condition : Char → Bool) : Parser Char := fun cursor =>
  match cursor.rest with
  | first :: _ => if condition first then (.ok first, cursor.advance 1) else fail "unexpected" cursor
  | [] => fail "unexpected" cursor

/-- As many characters as satisfy a condition. -/
def run (condition : Char → Bool) : Parser String :=
  lexeme (fun text => some (text.takeWhile condition).length) "unexpected"

/-- At least one character that satisfies a condition. -/
def run1 (condition : Char → Bool) : Parser String :=
  lexeme (fun text => if text.takeWhile condition = [] then none else some (text.takeWhile condition).length)
    "unexpected"

/-- Exactly `count` decimal digits, as a number. -/
def digits (count : Nat) : Parser Nat := do
  let text ← lexeme (fun text => if (text.take count).all Char.isDigit && count ≤ text.length then
    some count else none) "unexpected"
  return Nat.ofDigitChars 10 text.toList 0

/-- Refuses a condition that does not hold. -/
def require (condition : Bool) : Parser Unit := if condition then pure () else fail "unexpected"

def isSpace (c : Char) : Bool := c = ' ' || c = '\t'

def space : Parser String := run isSpace

/-- What may stand in comments and strings: all but the control characters other than the tab. -/
def isShown (c : Char) : Bool := c = '\t' || (' ' ≤ c && c ≠ '\x7f')

def newline : Parser String := firstOf [literal "\n", literal "\r\n"]

def comment : Parser String := do
  let _ ← literal "#"
  run isShown

def atEnd : Parser String := fun cursor =>
  if cursor.isAtEnd then (.ok "", cursor) else fail "unexpected" cursor

/-- Refuses the end of the text. -/
def notAtEnd : Parser Unit := fun cursor =>
  if cursor.isAtEnd then fail "unexpected" cursor else (.ok (), cursor)

/-- The rest of a line that has said what it says. -/
def lineEnd : Parser Unit := do
  let _ ← space
  let _ ← maybe comment
  let _ ← firstOf [newline, atEnd]
  return ()

/-- Spaces, comments and line ends. -/
def gap : Parser Unit := do
  let _ ← space
  let _ ← many do
    let _ ← maybe comment
    let _ ← newline
    space
  return ()

def hexDigit? (c : Char) : Option Nat :=
  if '0' ≤ c && c ≤ '9' then some (c.toNat - '0'.toNat)
  else if 'a' ≤ c && c ≤ 'f' then some (c.toNat - 'a'.toNat + 10)
  else if 'A' ≤ c && c ≤ 'F' then some (c.toNat - 'A'.toNat + 10)
  else none

def ofHexDigits (text : List Char) : Nat :=
  text.foldl (fun value digit => 16 * value + (hexDigit? digit).getD 0) 0

/-- A code point of exactly `count` hexadecimal digits. -/
def codePoint (count : Nat) : Parser String := do
  let text ← lexeme (fun text =>
    if count ≤ text.length && (text.take count).all fun c => (hexDigit? c).isSome then some count
    else none) "unexpected"
  let value := ofHexDigits text.toList
  require (value.isValidChar)
  return String.singleton (Char.ofNat value)

def escape : Parser String := do
  let _ ← literal "\\"
  let mark ← character fun _ => true
  match mark with
  | 'b' => return "\x08"
  | 'f' => return "\x0c"
  | 'n' => return "\n"
  | 'r' => return "\r"
  | 't' => return "\t"
  | '"' => return "\""
  | '\\' => return "\\"
  | 'u' => codePoint 4
  | 'U' => codePoint 8
  | _ => fail "unexpected"

/-- A backslash at the end of a line takes away all white space up to the next character. -/
def escapedLineEnd : Parser String := do
  let _ ← literal "\\"
  let _ ← space
  let _ ← newline
  let _ ← many (firstOf [newline, run1 isSpace])
  return ""

def lineBreak : Parser String := do
  let _ ← newline
  return "\n"

/-- One or two quotes that are not followed by another one. -/
def fewQuotes (quote : Char) : Parser String :=
  lexeme (fun text =>
    let count := (text.takeWhile (· == quote)).length
    if count = 1 ∨ count = 2 then some count else none) "unexpected"

/-- Three quotes that end a text, and up to two before them that still belong to it. -/
def closingQuotes (quote : Char) : Parser String := do
  let quotes ← lexeme (fun text =>
    let count := (text.takeWhile (· == quote)).length
    if 3 ≤ count then some (min count 5) else none) "unexpected"
  return String.ofList (quotes.toList.drop 3)

/-- A text of pieces between quotes, in one line. -/
def quoted (quote : String) (piece : Parser String) : Parser String := do
  let _ ← literal quote
  let pieces ← many piece
  let _ ← literal quote
  return String.join pieces

/-- A text of pieces between triple quotes, without the line end that may follow the first of them. -/
def blockQuoted (quote : Char) (pieces : List (Parser String)) : Parser String := do
  let _ ← literal (String.ofList [quote, quote, quote])
  let _ ← maybe newline
  let pieces ← many (firstOf (pieces ++ [fewQuotes quote, lineBreak]))
  return String.join pieces ++ (← closingQuotes quote)

def isBasic (c : Char) : Bool := isShown c && c ≠ '"' && c ≠ '\\'

def isLiteral (c : Char) : Bool := isShown c && c ≠ '\''

def basicString : Parser String := quoted "\"" (firstOf [run1 isBasic, escape])

def literalString : Parser String := quoted "'" (run1 isLiteral)

def string : Parser String :=
  firstOf [blockQuoted '"' [run1 isBasic, escapedLineEnd, escape], basicString,
    blockQuoted '\'' [run1 isLiteral], literalString]

def isBare (c : Char) : Bool := c.isAlphanum || c = '_' || c = '-'

def simpleKey : Parser String := do
  let _ ← space
  let key ← firstOf [basicString, literalString, run1 isBare]
  let _ ← space
  return key

/-- Documents may nest less than this deeply. -/
def depthLimit : Nat := 80

/-- A dotted key: what stands before its last dot, and its last part. -/
def key : Parser (List String × String) := do
  let first ← simpleKey
  let others ← many do
    let _ ← literal "."
    simpleKey
  require (others.length + 1 < depthLimit)
  return ((first :: others).dropLast, others.getLast?.getD first)

/-- Digits with single underscores between them. -/
def underscored (isDigit : Char → Bool) : Parser String := do
  let first ← run1 isDigit
  let others ← many do
    let _ ← literal "_"
    run1 isDigit
  return first ++ String.join others

def sign : Parser String := withDefault (firstOf [literal "+", literal "-"]) ""

/-- A whole number in decimal digits. A zero at its front ends it. -/
def decimalWhole : Parser String := do
  let sign ← sign
  let digits ← firstOf [do
      let _ ← lexeme (fun text => if text.head? = some '0' then some 1 else none) "unexpected"
      return "0",
    underscored Char.isDigit]
  return sign ++ digits

def inWordRange (value : Int) : Bool := Int64.minValue.toInt ≤ value && value ≤ Int64.maxValue.toInt

def integerOfBase (mark : String) (base : Nat) : Parser Item := do
  let _ ← literal mark
  let digits ← underscored fun c => (hexDigit? c).any (· < base)
  let value : Int := digits.toList.foldl (fun value digit => base * value + (hexDigit? digit).getD 0) 0
  require (inWordRange value)
  return .integer value

def decimalInteger : Parser Item := do
  let text ← decimalWhole
  match Decimal.signed? text.toList with
  | some value =>
    require (inWordRange value)
    return .integer value
  | none => fail "unexpected"

def integer : Parser Item :=
  firstOf [integerOfBase "0x" 16, integerOfBase "0o" 8, integerOfBase "0b" 2, decimalInteger]

def fraction : Parser String := do
  let _ ← literal "."
  return "." ++ (← underscored Char.isDigit)

def exponent : Parser String := do
  let _ ← firstOf [literal "e", literal "E"]
  let sign ← sign
  return "e" ++ sign ++ (← underscored Char.isDigit)

/-- A number with a fraction, an exponent or both. One that is too large for a double is refused. -/
def finiteFloat : Parser Item := do
  let whole ← decimalWhole
  let rest ← firstOf [exponent, do return (← fraction) ++ (← withDefault exponent "")]
  match Double.ofText? (whole ++ rest).toList with
  | some value =>
    require (value ≠ Double.infinity)
    return .float value
  | none => fail "unexpected"

def specialFloat : Parser Item := do
  let sign ← sign
  let name ← firstOf [literal "inf", literal "nan"]
  match Double.ofText? (sign ++ name).toList with
  | some value => return .float value
  | none => fail "unexpected"

def daysOfMonth (year month : Nat) : Nat :=
  if month = 2 then if year % 4 = 0 ∧ (year % 100 ≠ 0 ∨ year % 400 = 0) then 29 else 28
  else if month = 4 ∨ month = 6 ∨ month = 9 ∨ month = 11 then 30
  else 31

def date : Parser Unit := do
  let year ← digits 4
  let _ ← literal "-"
  let month ← digits 2
  require (1 ≤ month && month ≤ 12)
  let _ ← literal "-"
  let day ← digits 2
  require (1 ≤ day && day ≤ daysOfMonth year month)

/-- Hours and minutes. -/
def clock : Parser Unit := do
  let hour ← digits 2
  require (hour ≤ 23)
  let _ ← literal ":"
  let minute ← digits 2
  require (minute ≤ 59)

def secondFraction : Parser String := do
  let _ ← literal "."
  run1 Char.isDigit

def time : Parser Unit := do
  clock
  let _ ← literal ":"
  let second ← digits 2
  require (second ≤ 60)
  discard (maybe secondFraction)

def offset : Parser Unit := do
  let _ ← firstOf [literal "+", literal "-"]
  clock

def zone : Parser Unit := firstOf [discard (literal "Z"), discard (literal "z"), offset]

def timeOfDate : Parser Unit := do
  let _ ← firstOf [literal "T", literal "t", literal " "]
  time
  discard (maybe zone)

def dateAndTime : Parser Unit := do
  date
  discard (maybe timeOfDate)

def moment : Parser Item := do
  firstOf [dateAndTime, time]
  return .moment

def boolean : Parser Item :=
  firstOf [do let _ ← literal "true"; return .boolean true,
    do let _ ← literal "false"; return .boolean false]

/-- Values between brackets. A comma may follow the last one. -/
def array (value : Parser Item) : Parser Item := do
  let _ ← literal "["
  gap
  let first ← maybe value
  match first with
  | none =>
    let _ ← literal "]"
    return .array []
  | some first =>
    let others ← many do
      gap
      let _ ← literal ","
      gap
      value
    gap
    let _ ← maybe (literal ",")
    gap
    let _ ← literal "]"
    return .array (first :: others)

/-- A key, an equals sign and a value. -/
def pair (value : Parser Item) : Parser (List String × String × Item) := do
  let (path, name) ← key
  let _ ← literal "="
  let _ ← space
  return (path, name, ← value)

/-- Pairs between braces, all in one line. -/
def inlineTable (value : Parser Item) : Parser Item := do
  let _ ← literal "\x7b"
  let _ ← space
  let first ← maybe (pair value)
  let others ← match first with
    | none => pure []
    | some _ => many do
      let _ ← space
      let _ ← literal ","
      pair value
  let _ ← space
  let _ ← literal "\x7d"
  match Members.ofPairs (first.toList ++ others) with
  | some members => return .table .inline members
  | none => fail "unexpected"

/-- A value with at most `depth` levels of arrays and tables. -/
def value : (depth : Nat) → Parser Item
  | 0 => firstOf [do return .string (← string), boolean, moment, finiteFloat, specialFloat, integer]
  | depth + 1 =>
    firstOf [array (value depth), inlineTable (value depth), do return .string (← string), boolean,
      moment, finiteFloat, specialFloat, integer]

/-! ### Documents -/

def blankLine : Parser Line := do
  lineEnd
  return .blank

def header : Parser Line := do
  let _ ← literal "["
  let (path, name) ← key
  let _ ← literal "]"
  lineEnd
  return .header path name

def nextHeader : Parser Line := do
  let _ ← literal "[["
  let (path, name) ← key
  let _ ← literal "]]"
  lineEnd
  return .nextHeader path name

def assignment : Parser Line := do
  let (path, name, item) ← pair (value (depthLimit - 1))
  lineEnd
  return .assignment path name item

/-- A mark of byte order may stand before the first line. -/
def document : Parser (List Line) := do
  let _ ← maybe (literal "\ufeff")
  let lines ← many do
    let _ ← space
    notAtEnd
    firstOf [blankLine, nextHeader, header, assignment]
  let _ ← space
  let _ ← atEnd
  return lines

end Cadence.Toml.Grammar

namespace Cadence.Toml

/-- The members of a document, if the text is one. -/
def ofText? (text : String) : Option Members := do
  match (Grammar.document (.ofText text [])).1 with
  | .ok lines => return (← Document.ofLines lines).members
  | .error _ => none

end Cadence.Toml
