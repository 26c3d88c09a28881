import Cadence.Note.Step

/-! Values of programs, and the scopes in which numerals get their meaning.

The functions of a vocabulary and the ways to read a numeral are data: `F` names the functions and `R`
the readings, and a `Dialect` says what they do. -/

namespace Cadence

/-- Why an evaluation fails. -/
inductive EvalError where
  | notCallable (what : String)
  | unexpectedValue (expected found : String)
  | wrongArity (function : String) (expected found : Nat)
  | unevaluated
  deriving DecidableEq, Inhabited

def EvalError.text : EvalError → String
  | .notCallable what => "a " ++ what ++ " cannot be applied to arguments"
  | .unexpectedValue expected found => "expected a " ++ expected ++ ", found a " ++ found
  | .wrongArity function expected found =>
    function ++ " expects " ++ toString expected ++ " argument(s), got " ++ toString found
  | .unevaluated => "non exhaustive match: a node was read before it was evaluated"

/-- What surrounds a term: how numerals are read and the channel of the notes. -/
structure Scope (R : Type) where
  reading : R
  channel : UInt8
  deriving DecidableEq

/-- A function, with the scope that its arguments are evaluated in if that is not the caller's. -/
structure Function (F R : Type) where
  operation : F
  arguments : Option (Scope R)
  deriving DecidableEq

def Function.argumentScope {F R : Type} (function : Function F R) (caller : Scope R) : Scope R :=
  function.arguments.getD caller

inductive Value (F R : Type) where
  | number (number : Double)
  | step (step : Step)
  | function (function : Function F R)

namespace Value

variable {F R : Type}

/-- The name of a value's form. -/
def form : Value F R → String
  | .number _ => "number"
  | .step _ => "transformer"
  | .function _ => "function"

def toNumber : Value F R → Except EvalError Double
  | .number value => .ok value
  | other => .error (.unexpectedValue "number" other.form)

def toStep : Value F R → Except EvalError Step
  | .step value => .ok value
  | other => .error (.unexpectedValue "transformer" other.form)

def toFunction : Value F R → Except EvalError (Function F R)
  | .function value => .ok value
  | other => .error (.notCallable other.form)

end Value

/-- What functions do and how numerals are read. A function may change the scope of its caller. -/
structure Dialect (F R : Type) where
  call : F → List (Value F R) → Scope R → Except EvalError (Value F R × Scope R)
  read : R → Double → Scope R → Value F R

end Cadence
