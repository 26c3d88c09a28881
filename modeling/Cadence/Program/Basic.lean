import Cadence.Program.Meaning
import Cadence.Program.Typing
import Cadence.Program.Vocabulary
import Cadence.Tree.Grammar

/-! Programs from their text to the step they stand for. -/

namespace Cadence

/-- Why a text is not a program that can be played. -/
inductive ProgramError where
  | parse (error : ParseError)
  | unbound (error : UnboundVariable)
  | type (error : TypeError)
  | eval (error : EvalError)
  deriving DecidableEq

def ProgramError.text : ProgramError → String
  | .parse error => error.text
  | .unbound error => error.text
  | .type error => error.text
  | .eval error => error.text

/-- A program whose names are bound in the vocabulary. -/
abbrev Program := BoundTree Operation Reading Unit

namespace Program

/-- Reads a text, binds its names and checks its types. -/
def ofText (text : String) : Except ProgramError Program := do
  let document ← (Grammar.readProgram text).mapError .parse
  let program ← (Vocabulary.bindings.bind document.tree).mapError .unbound
  (program.check .transformer).mapError .type
  return program

/-- Evaluates a program in a new context, and leaves the program with the values that were found. -/
def run (program : Program) : Except EvalError Step × Program :=
  let evaluation := program.evaluate Vocabulary.dialect (.ofScope Vocabulary.outermost ())
  (evaluation.result.bind Value.toStep, evaluation.tree)

/-- The step that a text stands for. -/
def stepOfText (text : String) : Except ProgramError Step := do
  (← ofText text).run.1.mapError .eval

end Program

end Cadence
