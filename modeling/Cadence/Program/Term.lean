import Cadence.Program.Ty
import Cadence.Program.Value

/-! Terms: what names stand for and what the nodes of a tree carry. A term is a value, a place for a
value that is filled when its node is first evaluated, or a computation that is run anew every time. -/

namespace Cadence

/-- The scopes of an evaluation, of which only the current one is seen, and a memory that computations
may use. -/
structure Context (R M : Type) where
  scope : Scope R
  outer : List (Scope R)
  memory : M

namespace Context

variable {R M : Type}

def ofScope (scope : Scope R) (memory : M) : Context R M := ⟨scope, [], memory⟩

/-- How many scopes lie around the current one. -/
def depth (context : Context R M) : Nat := context.outer.length

/-- Opens a scope inside of the current one. -/
def enter (context : Context R M) (scope : Scope R) : Context R M :=
  { context with scope, outer := context.scope :: context.outer }

/-- Drops the current scope. -/
def leave (context : Context R M) : Context R M :=
  match context.outer with
  | scope :: outer => { context with scope, outer }
  | [] => context

end Context

/-- A computation of a value, which leaves a context also if it fails. -/
abbrev Computation (F R M : Type) := Context R M → Except EvalError (Value F R) × Context R M

inductive Content (F R M : Type) where
  | ready (value : Value F R)
  | thunk (value : Option (Value F R))
  | impure (compute : Computation F R M)

structure Term (F R M : Type) where
  type : Option Ty
  content : Content F R M

namespace Term

variable {F R M : Type}

def ofValue (type : Option Ty) (value : Value F R) : Term F R M := ⟨type, .ready value⟩

def ofNumber (number : Double) : Term F R M := ofValue none (.number number)

/-- A place for a value. -/
def empty : Term F R M := ⟨none, .thunk none⟩

def ofComputation (type : Option Ty) (compute : Computation F R M) : Term F R M := ⟨type, .impure compute⟩

def hasValue (term : Term F R M) : Bool :=
  match term.content with
  | .ready _ | .thunk (some _) => true
  | .thunk none | .impure _ => false

/-- Whether the term is a place that is still empty. -/
def isEmpty (term : Term F R M) : Bool :=
  match term.content with
  | .thunk none => true
  | _ => false

/-- Puts the value of a successful computation into the term. -/
def fill (term : Term F R M) (result : Except EvalError (Value F R)) : Term F R M :=
  match result with
  | .ok value => { term with content := .thunk (some value) }
  | .error _ => term

/-- The value of a term. An empty place has none. -/
def force (term : Term F R M) : Computation F R M := fun context =>
  match term.content with
  | .ready value | .thunk (some value) => (.ok value, context)
  | .thunk none => (.error .unevaluated, context)
  | .impure compute => compute context

/-- The value of a term, where an empty place is first filled by a computation. -/
def forceOrFill (term : Term F R M) (compute : Computation F R M) (context : Context R M) :
    Except EvalError (Value F R) × Term F R M × Context R M :=
  if term.isEmpty then
    let (result, after) := compute context
    (result, term.fill result, after)
  else
    let (result, after) := term.force context
    (result, term, after)

end Term

end Cadence
