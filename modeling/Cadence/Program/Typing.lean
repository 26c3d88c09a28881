import Cadence.Program.Binding
import Cadence.Tree.Written

/-! Types are checked as far as they are known before anything is evaluated: a name has the type that its
term declares, and an application what its head gives. A numeral fits everywhere, since only its scope
knows what it is read as, and so does a name whose term declares no type. -/

namespace Cadence

inductive TypeError where
  | mismatch (name : String) (expected found : Ty)
  | tooManyArguments
  | notAFunction (what : String)
  deriving DecidableEq

def TypeError.text : TypeError → String
  | .mismatch name expected found =>
    "type error: " ++ name ++ " has type " ++ found.text ++ ", expected " ++ expected.text
  | .tooManyArguments => "type error: too many arguments: expected just one"
  | .notAFunction what => "type error: " ++ what ++ " cannot be applied to arguments"

/-- The type of what an application with a head of this type gives. -/
def Ty.applied : Ty → Option Ty
  | .func _ output | .variadic _ output => some output
  | .number | .transformer => none

namespace Node

variable {F R M : Type}

/-- The type of a node as the head of an application. A numeral cannot be one. -/
def headType : BoundTree F R M → Except TypeError (Option Ty)
  | .name _ term => .ok term.type
  | .numeral _ digits _ => .error (.notAFunction ("literal " ++ digits))
  | .paren child _ _ _ => child.headType
  | .row (head :: _) _ _ | .block (head :: _) _ _ _ => do
    return (← head.headType).bind Ty.applied
  | .row [] _ _ | .block [] _ _ _ => .ok none

/-- Compares what an application gives with what is expected of it. -/
def expectOutput (head : BoundTree F R M) (output expected : Ty) : Except TypeError Unit :=
  if output = expected then .ok ()
  else
    let name := match head with
      | .name value _ => value
      | other => other.strip.written
    .error (.mismatch (name ++ " applied") expected output)

mutual

/-- Checks that a node has the expected type. -/
def check (expected : Ty) : BoundTree F R M → Except TypeError Unit
  | .paren child _ _ _ => child.check expected
  | .numeral .. => .ok ()
  | .name value term =>
    match term.type with
    | some found => if found = expected then .ok () else .error (.mismatch value expected found)
    | none => .ok ()
  | .row children _ _ | .block children _ _ _ => checkApplication expected children

def checkApplication (expected : Ty) : List (BoundTree F R M) → Except TypeError Unit
  | [] => .ok ()
  | head :: arguments => do
    match ← head.headType with
    | some (.variadic input output) =>
      head.expectOutput output expected
      checkAll input arguments
    | some (.func input output) =>
      head.expectOutput output expected
      if arguments.length = 1 then checkAll input arguments else throw .tooManyArguments
    | some other => throw (.notAFunction other.text)
    | none => return ()

def checkAll (expected : Ty) : List (BoundTree F R M) → Except TypeError Unit
  | [] => .ok ()
  | node :: nodes => do
    node.check expected
    checkAll expected nodes

end

end Node

end Cadence
