import Cadence.Double.Reading

/-! Requests on the command line: a verb with its file and its options. Two options may stand before or
behind the verb. The value of an option stands behind an equals sign or in the next argument; there it
must not look like an option itself.

An option whose value is the next argument is judged when another option follows it or all arguments are
read. If the verb or `help` follows it, help that is asked for from there on is therefore given even if
that option cannot be used. -/

namespace Cadence.CommandLine

inductive Verb where
  | check
  | fmt
  | query
  | play
  deriving DecidableEq

def Verb.ofName? : String → Option Verb
  | "check" => some .check
  | "fmt" => some .fmt
  | "query" => some .query
  | "play" => some .play
  | _ => none

/-- The options of all verbs. -/
inductive Key where
  | config
  | logLevel
  | write
  | start
  | stop
  | beats
  | bpm
  deriving DecidableEq

namespace Key

def ofName? : String → Option Key
  | "config" => some .config
  | "log-level" => some .logLevel
  | "write" => some .write
  | "from" => some .start
  | "to" => some .stop
  | "beats" => some .beats
  | "bpm" => some .bpm
  | _ => none

/-- Whether an option may be given with a verb, or before it. -/
def belongsTo (verb : Option Verb) : Key → Bool
  | .config | .logLevel => true
  | .write => verb == some .fmt
  | .start | .stop => verb == some .query
  | .beats | .bpm => verb == some .play

def takesValue (key : Key) : Bool := key != .write

end Key

/-- A number of beats, which has at most 64 bits. -/
def beats? (text : String) : Option UInt64 :=
  if text.startsWith "-" then none
  else
    match Decimal.signed? text.toList with
    | some count => if count < UInt64.size then some (.ofNat count.toNat) else none
    | none => none

def number? (text : String) : Option Double := Double.ofText? text.toList

/-- Whether a text can be the value of an option. -/
def Key.accepts (text : String) : Key → Bool
  | .config => !text.isEmpty
  | .logLevel | .write => true
  | .start | .stop | .bpm => (number? text).isSome
  | .beats => (beats? text).isSome

/-- What has been given with a verb, or before it. -/
structure Given where
  options : List (Key × String)
  file : Option String

namespace Given

def empty : Given := ⟨[], none⟩

/-- Adds an option, which must not be there yet. -/
def addOption (given : Given) (key : Key) (value : String) : Option Given :=
  if (given.options.lookup key).isNone && key.accepts value then
    some { given with options := (key, value) :: given.options }
  else none

/-- Adds the file, of which there is one. -/
def addFile (given : Given) (path : String) : Option Given :=
  if given.file.isNone && !path.isEmpty then some { given with file := some path } else none

end Given

inductive Argument where
  /-- Two dashes: all that follows is no option. -/
  | separator
  | long (name : String) (value : Option String)
  | short (letters : List Char)
  | plain (text : String)

def Argument.ofText (text : String) : Argument :=
  match text.toList with
  | ['-', '-'] => .separator
  | '-' :: '-' :: rest =>
    let name := String.ofList (rest.takeWhile (· != '='))
    match rest.dropWhile (· != '=') with
    | [] => .long name none
    | _ :: value => .long name (some (String.ofList value))
  | '-' :: letter :: letters => .short (letter :: letters)
  | _ => .plain text

/-- What arguments ask for. -/
inductive Request where
  | check (file : String)
  | fmt (file : String) (write : Bool)
  | query (file : String) (start stop : Double)
  | play (file : String) (beats : Option UInt64) (bpm : Option Double)

def Request.file : Request → String
  | .check file | .fmt file _ | .query file _ _ | .play file _ _ => file

/-- What help can be asked for. -/
inductive Topic where
  | everything
  | verb (verb : Verb)
  | help

inductive Reading where
  | request (config : Option String) (request : Request)
  | help (topic : Topic)
  | misuse

/-- The request of a verb with what was given before and behind it. There is none if an option before it
cannot be used. -/
def finish (before : Option Given) (verb : Verb) (given : Given) : Reading :=
  let value (key : Key) := given.options.lookup key
  match before, given.file with
  | none, _ | _, none => .misuse
  | some before, some file =>
    .request ((value .config).or (before.options.lookup .config)) <|
      match verb with
      | .check => .check file
      | .fmt => .fmt file (value .write).isSome
      | .query => .query file (((value .start).bind number?).getD 0) (((value .stop).bind number?).getD 1)
      | .play => .play file ((value .beats).bind beats?) ((value .bpm).bind number?)

/-- Reads what stands behind the verb after two dashes. -/
def readFiles (before : Option Given) (verb : Verb) (given : Given) : List String → Reading
  | [] => finish before verb given
  | path :: others =>
    match given.addFile path with
    | some given => readFiles before verb given others
    | none => .misuse

/-- The option that an argument names, its value, and the arguments behind both of them. -/
def readOption (verb : Option Verb) (name : String) (value : Option String) (others : List String) :
    Option (Key × String × List String) := do
  let key ← Key.ofName? name
  if !key.belongsTo verb then none
  else if !key.takesValue then
    if value.isSome then none else return (key, "", others)
  else
    match value, others with
    | some value, _ => return (key, value, others)
    | none, next :: others =>
      match Argument.ofText next with
      | .plain value => return (key, value, others)
      | _ => none
    | none, [] => none

/-- Reads what stands behind the verb. -/
def readVerb (before : Option Given) (verb : Verb) : (fuel : Nat) → Given → List String → Reading
  | 0, _, _ => .misuse
  | _ + 1, given, [] => finish before verb given
  | fuel + 1, given, argument :: others =>
    match Argument.ofText argument with
    | .separator => readFiles before verb given others
    | .short letters => if letters.head? = some 'h' then .help (.verb verb) else .misuse
    | .long "help" none => .help (.verb verb)
    | .long name value =>
      match readOption (some verb) name value others with
      | some (key, text, others) =>
        match given.addOption key text with
        | some given => readVerb before verb fuel given others
        | none => .misuse
      | none => .misuse
    | .plain path =>
      match given.addFile path with
      | some given => readVerb before verb fuel given others
      | none => .misuse

/-- The help that was asked for by name. -/
def readHelp : List String → Reading
  | [] => .help .everything
  | ["help"] => .help .help
  | [name] => ((Verb.ofName? name).map fun verb => .help (.verb verb)).getD .misuse
  | _ => .misuse

/-- Reads arguments up to the verb. Nothing is given if the last option cannot be used and has still to
be judged. -/
def readBefore : (fuel : Nat) → (given : Option Given) → List String → Reading
  | 0, _, _ => .misuse
  | _ + 1, _, [] => .misuse
  | fuel + 1, given, argument :: others =>
    match Argument.ofText argument, given with
    | .plain "help", _ => readHelp others
    | .plain name, _ =>
      match Verb.ofName? name with
      | some verb => readVerb given verb (others.length + 1) .empty others
      | none => .misuse
    | .separator, _ | _, none => .misuse
    | .short letters, some _ => if letters.head? = some 'h' then .help .everything else .misuse
    | .long "help" none, some _ => .help .everything
    | .long name value, some given =>
      match readOption none name value others with
      | some (key, text, others) =>
        let added := given.addOption key text
        if value.isSome && added.isNone then .misuse else readBefore fuel added others
      | none => .misuse

/-- What the arguments of a command line ask for. -/
def Reading.ofArguments (arguments : List String) : Reading :=
  readBefore (arguments.length + 1) (some .empty) arguments

end Cadence.CommandLine
