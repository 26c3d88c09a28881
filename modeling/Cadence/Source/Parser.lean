import Cadence.Source.Cursor
import Cadence.Text.Quoted

/-! Parsers over a cursor. A parser gives a value or fails, and in both cases leaves a cursor; the
parsers that try something else after a failure first go back to the cursor they started from. -/

namespace Cadence

def Parser (α : Type) := Cursor → Except ParseError α × Cursor

namespace Parser

variable {α β : Type}

protected def pure (value : α) : Parser α := fun cursor => (.ok value, cursor)

protected def bind (parser : Parser α) (next : α → Parser β) : Parser β := fun cursor =>
  match parser cursor with
  | (.ok value, after) => next value after
  | (.error error, after) => (.error error, after)

instance : Monad Parser where
  pure := Parser.pure
  bind := Parser.bind

/-- Fails at the current place and takes note of the failure. -/
def fail (message : String) : Parser α := fun cursor =>
  (.error (cursor.error message), cursor.record message)

/-- Reads `text` itself. -/
def literal (text : String) : Parser String := fun cursor =>
  if text.toList.isPrefixOf cursor.rest then (.ok text, cursor.advance text.length)
  else fail ("could not find constant " ++ Quoted.encode text) cursor

/-- Reads as many characters as `measure` finds at the start of the rest. -/
def lexeme (measure : List Char → Option Nat) (expected : String) : Parser String := fun cursor =>
  match measure cursor.rest with
  | some count => (.ok (String.ofList (cursor.rest.take count)), cursor.advance count)
  | none => fail expected cursor

/-- The value of the first option that succeeds. Every option begins at the same place. -/
def firstOf : List (Parser α) → Parser α
  | [] => fail "alternation failed"
  | option :: options => fun cursor =>
    match option cursor with
    | (.ok value, after) => (.ok value, after)
    | (.error _, after) => firstOf options (after.restore cursor)

/-- The parser's value, or nothing read and `default`. -/
def withDefault (parser : Parser α) (default : α) : Parser α := fun cursor =>
  match parser cursor with
  | (.ok value, after) => (.ok value, after)
  | (.error _, after) => (.ok default, after.restore cursor)

/-- The parser's value, if it succeeds. -/
def maybe (parser : Parser α) : Parser (Option α) := withDefault (do return some (← parser)) none

/-- The values of a parser applied again and again, up to the application that fails. This has to come
within `limit` applications, and nothing is read by it. -/
def repeated (parser : Parser α) : (limit : Nat) → Parser (List α)
  | 0 => fail "too many repetitions"
  | limit + 1 => fun cursor =>
    match parser cursor with
    | (.error _, after) => (.ok [], after.restore cursor)
    | (.ok value, after) =>
      match repeated parser limit after with
      | (.ok values, last) => (.ok (value :: values), last)
      | (.error error, last) => (.error error, last)

/-- How often a repeated parser may succeed without reading any text. No memory holds a list of so many
values. -/
def idleLimit : Nat := Nat.pow 2 60

/-- The values of a parser applied again and again, up to the application that fails. A parser that reads
some text whenever it succeeds fails before the limit is reached. -/
def many (parser : Parser α) : Parser (List α) := fun cursor =>
  repeated parser (cursor.rest.length + idleLimit) cursor

/-- The column of the innermost block. -/
def indent : Parser Nat := fun cursor =>
  match cursor.indents with
  | column :: _ => (.ok column, cursor)
  | [] => fail "indentation stack is empty" cursor

def openBlock (column : Nat) : Parser Unit := fun cursor =>
  (.ok (), { cursor with indents := column :: cursor.indents })

def closeBlock : Parser Unit := fun cursor =>
  match cursor.indents with
  | _ :: outer => (.ok (), { cursor with indents := outer })
  | [] => fail "indentation stack is empty" cursor

end Parser

end Cadence
