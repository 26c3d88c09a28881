import Cadence.Source.Lexeme
import Cadence.Tree.Basic

/-! The grammar of programs.

    expression = block | line
    line = row | atom
    atom = paren | name | numeral

The arguments of a block begin on lines of their own below the head. They share a column, which lies to
the right of the column of the block around it. The rules are given over the rules for what they
enclose, in parentheses or in a block; a text of `n` characters encloses at most `n` levels, and the
rules for that depth are the rules of the language. -/

namespace Cadence.Grammar

open Cadence.Parser

/-- The rules that enclosing rules refer to. -/
structure Rules where
  expression : Parser Tree
  line : Parser Tree

def name : Parser Tree := do
  return .name (← lexeme Lexeme.name "not a name") ()

/-- The decimal that digits with at most one point among them stand for. Digits of other scripts have
no value here. -/
def decimal? (digits : List Char) : Option Decimal :=
  let whole := digits.takeWhile (· != '.')
  let fraction := (digits.drop whole.length).drop 1
  if (whole ++ fraction).all Char.isDigit then
    some ⟨Nat.ofDigitChars 10 (whole ++ fraction) 0, -fraction.length⟩
  else none

def numeral : Parser Tree := do
  let digits ← lexeme Lexeme.number "not a number"
  match decimal? digits.toList with
  | some value => return .numeral (value.toDouble false) digits ()
  | none => fail "not a number"

def optionalSpaces : Parser String := withDefault (lexeme Lexeme.spaces "expected spaces") ""

def blankLines : Parser String := withDefault (lexeme Lexeme.blankLines "expected blank lines") ""

/-- What stands between the code of one line and that of the next: the text up to the last line end,
which is left out, and the column of the next line. -/
structure Gap where
  text : String
  indent : Nat

def gap : Parser Gap := do
  let filler ← lexeme Lexeme.filler "expected end of line"
  let _ ← literal "\n"
  let blank ← blankLines
  let indent := (← optionalSpaces).length
  return ⟨if blank.isEmpty then filler else filler ++ "\n" ++ String.ofList blank.toList.dropLast, indent⟩

/-- The gap before the first argument of a block, which opens the block. -/
def openingGap : Parser Gap := do
  let enclosing ← indent
  let gap ← gap
  if gap.indent ≤ enclosing then fail "no increased indentation"
  openBlock gap.indent
  return gap

/-- The gap between two arguments of a block. -/
def innerGap : Parser String := do
  let column ← indent
  let gap ← gap
  if gap.indent ≠ column then fail "not same indentation"
  return gap.text

section

variable (inner : Rules)

def paren : Parser Tree := do
  let _ ← literal "("
  let before ← optionalSpaces
  let child ← inner.line
  let behind ← optionalSpaces
  let _ ← literal ")"
  return .paren child before behind ()

def atom : Parser Tree := firstOf [paren inner, name, numeral]

def rowArgument : Parser (String × Tree) := do
  let gap ← optionalSpaces
  return (gap, ← atom inner)

def row : Parser Tree := do
  let head ← atom inner
  let first ← rowArgument inner
  let others ← many (rowArgument inner)
  return .row (head :: first.2 :: others.map (·.2)) (first.1 :: others.map (·.1)) ()

def line : Parser Tree := firstOf [row inner, atom inner]

def blockArgument : Parser (String × Tree) := do
  let gap ← innerGap
  return (gap, ← inner.expression)

def block : Parser Tree := do
  let head ← line inner
  let gap ← openingGap
  let first ← inner.expression
  let others ← many (blockArgument inner)
  closeBlock
  return .block (head :: first :: others.map (·.2)) gap.indent (gap.text :: others.map (·.1)) ()

def expression : Parser Tree := firstOf [block inner, line inner]

/-- A program: expressions at column zero, which are the arguments of a `do` that is understood. Blank
lines at the start of the text are the gap before the first of them. -/
def program : Parser Tree := do
  let leading ← blankLines
  let first ← expression inner
  let others ← many (blockArgument inner)
  return .block (.name "do" () :: first :: others.map (·.2)) 0 (leading :: others.map (·.1)) ()

end

/-- The rules for texts that enclose fewer than `depth` levels. -/
def rules : (depth : Nat) → Rules
  | 0 => ⟨fail "too many levels", fail "too many levels"⟩
  | depth + 1 =>
    let inner := rules depth
    ⟨expression inner, line inner⟩

/-- A rule over rules that are deep enough for the text that is left. -/
def deepEnough {α : Type} (rule : Rules → Parser α) : Parser α := fun cursor =>
  rule (rules (cursor.rest.length + 1)) cursor

/-- The white space and comments that end a text. -/
def ending : Parser String := do
  let trailing ← lexeme Lexeme.trailing "expected end of input"
  fun cursor =>
    if cursor.isAtEnd then (.ok trailing, cursor)
    else
      match cursor.furthest with
      | some error =>
        if cursor.position.offset < error.position.offset then (.error error, cursor)
        else fail "unexpected trailing input" cursor
      | none => fail "unexpected trailing input" cursor

/-- Reads a whole text by a rule. The failure that got furthest is the one reported. -/
def readDocument (rule : Rules → Parser Tree) (text : String) : Except ParseError (Document Unit) :=
  match deepEnough rule (.ofText text [0]) with
  | (.ok tree, after) => (ending after).1.map fun trailing => ⟨tree, trailing⟩
  | (.error error, after) => .error (after.furthest.getD error)

/-- Reads a text as one expression. -/
def readExpression : String → Except ParseError (Document Unit) := readDocument expression

/-- Reads a text as a program. -/
def readProgram : String → Except ParseError (Document Unit) := readDocument program

end Cadence.Grammar
