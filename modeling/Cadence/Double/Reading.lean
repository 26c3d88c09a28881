import Cadence.Double.Decimal

/-! Numbers as users write them: a sign, digits with at most one point, and an exponent; or the name of
an infinity or a NaN. -/

namespace Cadence

namespace Decimal

/-- A whole number with an optional sign. -/
def signed? (text : List Char) : Option Int :=
  let (negative, digits) : Bool × List Char := match text with
    | '-' :: digits => (true, digits)
    | '+' :: digits => (false, digits)
    | digits => (false, digits)
  if digits.isEmpty || !digits.all Char.isDigit then none
  else
    let value : Int := Nat.ofDigitChars 10 digits 0
    some (if negative then -value else value)

/-- Digits, at least one in all, with an optional point and an optional exponent. -/
def ofText? (text : List Char) : Option Decimal :=
  let whole := text.takeWhile Char.isDigit
  let (fraction, rest) : List Char × List Char := match text.drop whole.length with
    | '.' :: rest => (rest.takeWhile Char.isDigit, rest.dropWhile Char.isDigit)
    | rest => ([], rest)
  if whole.isEmpty && fraction.isEmpty then none
  else
    let digits := Nat.ofDigitChars 10 (whole ++ fraction) 0
    match rest with
    | [] => some ⟨digits, -fraction.length⟩
    | mark :: exponent =>
      if mark = 'e' ∨ mark = 'E' then
        (signed? exponent).map fun exponent => ⟨digits, exponent - fraction.length⟩
      else none

end Decimal

/-- The double that a text names. Names may be written in capitals. -/
def Double.ofText? (text : List Char) : Option Double :=
  let (negative, rest) : Bool × List Char := match text with
    | '-' :: rest => (true, rest)
    | '+' :: rest => (false, rest)
    | rest => (false, rest)
  let name := String.ofList (rest.map Char.toLower)
  if name = "inf" ∨ name = "infinity" then some { Double.infinity with negative }
  else if name = "nan" then some { Double.nan with negative }
  else (Decimal.ofText? rest).map (Decimal.toDoubleWide negative)

end Cadence
