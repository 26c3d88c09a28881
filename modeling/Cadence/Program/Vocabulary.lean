import Cadence.Program.Binding

/-! The names that every program can use. -/

namespace Cadence

/-- The functions of the vocabulary. -/
inductive Operation where
  | compose
  | stack
  | alternate
  | held (scale : Double)
  | zoomed (scale : Double)
  | channel
  deriving DecidableEq

/-- The ways to read a numeral. -/
inductive Reading where
  | number
  | multiple (factor : Double)
  | note
  | slow
  | fast
  | add
  | sub
  | channel
  | length
  | shift
  deriving DecidableEq

namespace Reading

/-- What a numeral stands for. A note gets the channel of its scope. -/
def read {F : Type} (reading : Reading) (number : Double) (scope : Scope Reading) : Value F Reading :=
  match reading with
  | .number => .number number
  | .multiple factor => .number (number * factor)
  | .note => .step (.note (Note.wrapPitch number) scope.channel)
  | .slow => .step (.slow number)
  | .fast => .step (.fast number)
  | .add => .step (.transpose number)
  | .sub => .step (.transpose (-number))
  | .channel => .step (.channel (Note.wrapChannel number))
  | .length => .step (.length number)
  | .shift => .step (.shift number)

end Reading

namespace Operation

/-- Sets the channel of the caller's scope to the only argument. -/
def setChannel (arguments : List (Value Operation Reading)) (caller : Scope Reading) :
    Except EvalError (Value Operation Reading × Scope Reading) :=
  match arguments with
  | [argument] => do
    return (.step .identity, { caller with channel := Note.wrapChannel (← argument.toNumber) })
  | _ => .error (.wrongArity "channel" 1 arguments.length)

/-- Makes one step of all the arguments. -/
def combine (build : List Step → Step) (arguments : List (Value Operation Reading))
    (caller : Scope Reading) : Except EvalError (Value Operation Reading × Scope Reading) := do
  return (.step (build (← arguments.mapM Value.toStep)), caller)

def call : Operation → List (Value Operation Reading) → Scope Reading →
    Except EvalError (Value Operation Reading × Scope Reading)
  | .compose => combine .compose
  | .stack => combine .stack
  | .alternate => combine .alternate
  | .held scale => combine (.held scale)
  | .zoomed scale => combine (.zoomed scale)
  | .channel => setChannel

end Operation

namespace Vocabulary

def dialect : Dialect Operation Reading := ⟨Operation.call, Reading.read⟩

variable {M : Type}

/-- Takes steps and gives a step. -/
def listType : Ty := .variadic .transformer .transformer

/-- A function whose arguments read numerals as its caller does. -/
def combinator (operation : Operation) : Term Operation Reading M :=
  .ofValue (some listType) (.function ⟨operation, none⟩)

/-- A function whose arguments read numerals in their own way, in the scope as it is when the function
is named. -/
def capturing (type : Ty) (operation : Operation) (reading : Reading) : Term Operation Reading M :=
  .ofComputation (some type) fun context =>
    (.ok (.function ⟨operation, some { context.scope with reading }⟩), context)

/-- A function that makes one alternation of its arguments, in which numerals are read in a way of its
own. -/
def literals (reading : Reading) : Term Operation Reading M := capturing listType .alternate reading

def stepTerm (step : Step) : Term Operation Reading M := .ofValue (some .transformer) (.step step)

/-- Two to a power. -/
def scaleUp (power : Nat) : Double := .ofInt (Nat.pow 2 power)

/-- One half to a power. -/
def scaleDown (power : Nat) : Double := 1 / scaleUp power

/-- A family of names with the powers zero to six at their ends. -/
def family (stem : String) (operation : Nat → Operation) : Bindings Operation Reading M :=
  (List.range 7).map fun power => (stem ++ toString power, combinator (operation power))

def bindings : Bindings Operation Reading M :=
  [("i", stepTerm .identity),
    ("m", stepTerm .mute),
    ("do", combinator .compose),
    ("compose", combinator .compose),
    ("stack", combinator .stack),
    ("alt", combinator .alternate),
    ("note", literals .note),
    ("slow", literals .slow),
    ("fast", literals .fast),
    ("add", literals .add),
    ("sub", literals .sub),
    ("chan", literals .channel),
    ("len", literals .length),
    ("shift", literals .shift),
    ("channel", capturing (.func .number .transformer) .channel .number)] ++
  family "alt" (fun power => .held (scaleUp power)) ++
  family "out" (fun power => .zoomed (scaleUp power)) ++
  family "in" (fun power => .zoomed (scaleDown power))

/-- Outside of all applications numerals are notes on channel zero. -/
def outermost : Scope Reading := ⟨.note, 0⟩

end Vocabulary

end Cadence
