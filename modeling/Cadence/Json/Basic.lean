import Cadence.Double.Decimal

/-! JSON values and their text over several lines. -/

namespace Cadence

inductive JsonValue where
  | null
  | bool (value : Bool)
  | natural (value : Nat)
  | double (value : Double)
  | array (items : List JsonValue)
  /-- The members keep their order. Their names are written as they are. -/
  | object (members : List (String × JsonValue))

namespace JsonValue

/-- Positional digits with at least one place behind the point. -/
def positionalText (number : Decimal) : List Char :=
  match number.parts with
  | (whole, []) => whole ++ ['.', '0']
  | (whole, fraction) => whole ++ '.' :: fraction

/-- One digit before the point, no point without a fraction, and an exponent with its sign. -/
def scientificText (number : Decimal) : List Char :=
  let exponent := number.leadingExponent
  let fraction := (Nat.toDigits 10 number.digits).drop 1
  (Nat.toDigits 10 number.digits).take 1 ++ (if fraction.isEmpty then [] else '.' :: fraction) ++
    ['e', if exponent < 0 then '-' else '+'] ++ Nat.toDigits 10 exponent.natAbs

/-- The shortest digits that read back, positional for exponents from -5 to 15. JSON has no text for
infinities and NaNs. -/
def doubleText (x : Double) : String :=
  if x.isNaN || x.isInfinite then "null"
  else
    let number := Double.shortestAt .toEven x.place
    let exponent := number.leadingExponent
    let digits :=
      if -5 ≤ exponent ∧ exponent ≤ 15 then positionalText number else scientificText number
    String.ofList (if x.negative then '-' :: digits else digits)

/-- A line end and two spaces for every level. -/
def lineEnd (level : Nat) : String := String.ofList ('\n' :: List.replicate (2 * level) ' ')

mutual

/-- The text of a value that stands in a line of the given level. -/
def pretty (level : Nat) : JsonValue → String
  | .null => "null"
  | .bool value => if value then "true" else "false"
  | .natural value => toString value
  | .double value => doubleText value
  | .array [] => "[]"
  | .array (item :: items) =>
    "[" ++ lineEnd (level + 1) ++ item.pretty (level + 1) ++ prettyItems (level + 1) items ++
      lineEnd level ++ "]"
  | .object [] => "\x7b\x7d"
  | .object ((name, member) :: members) =>
    "\x7b" ++ lineEnd (level + 1) ++ "\"" ++ name ++ "\": " ++ member.pretty (level + 1) ++
      prettyMembers (level + 1) members ++ lineEnd level ++ "\x7d"

/-- The items of an array after the first. -/
def prettyItems (level : Nat) : List JsonValue → String
  | [] => ""
  | item :: items => "," ++ lineEnd level ++ item.pretty level ++ prettyItems level items

/-- The members of an object after the first. -/
def prettyMembers (level : Nat) : List (String × JsonValue) → String
  | [] => ""
  | (name, member) :: members =>
    "," ++ lineEnd level ++ "\"" ++ name ++ "\": " ++ member.pretty level ++ prettyMembers level members

end

end JsonValue

end Cadence
