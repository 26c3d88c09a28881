import Cadence.Proofs.Program.Soundness
import Mathlib.Logic.Function.Iterate

/-! Programs that are evaluated again. An evaluation that fails leaves values in some of the places of the tree, and
the next one, in a new context, takes these over without what they once did to the channel. So what it meets on its
way may differ from what the first one met, but only in channels: of which kinds the values are is told by the tree
alone, and the kinds decide whether an evaluation fails, and how. -/

namespace Cadence

/-- What of a value decides how an evaluation goes on. Channels and numbers do not. -/
inductive Kind where
  | number
  | step
  /-- What is called, and how it has its arguments read if that is not the caller's way. -/
  | function (operation : Operation) (arguments : Option Reading)
  deriving DecidableEq

namespace Kind

def ofValue : Value Operation Reading → Kind
  | .number _ => .number
  | .step _ => .step
  | .function called => .function called.operation (called.arguments.map Scope.reading)

def form : Kind → String
  | .number => "number"
  | .step => "transformer"
  | .function .. => "function"

def toFunction : Kind → Except EvalError (Operation × Option Reading)
  | .function operation arguments => .ok (operation, arguments)
  | other => .error (.notCallable other.form)

theorem toFunction_ofValue (result : Except EvalError (Value Operation Reading)) :
    (result.map ofValue).bind toFunction =
      (result.bind Value.toFunction).map fun called => (called.operation, called.arguments.map Scope.reading) := by
  cases result with
  | error error => rfl
  | ok value => cases value <;> rfl

/-- The kind of what is made of arguments that all have to be steps. -/
def combined : List Kind → Except EvalError Kind
  | [] => .ok .step
  | .step :: others => combined others
  | other :: _ => .error (.unexpectedValue "transformer" other.form)

/-- The kind of what a function gives for arguments of some kinds. -/
def answer : Operation → List Kind → Except EvalError Kind
  | .channel, [.number] => .ok .step
  | .channel, [other] => .error (.unexpectedValue "number" other.form)
  | .channel, kinds => .error (.wrongArity "channel" 1 kinds.length)
  | _, kinds => combined kinds

theorem combined_ofValue (values : List (Value Operation Reading)) :
    combined (values.map ofValue) = (values.mapM Value.toStep).map fun _ => .step := by
  induction values with
  | nil => rfl
  | cons value values ih =>
      rw [List.map_cons, List.mapM_cons]
      cases value with
      | number | function => rfl
      | step step =>
          rw [ofValue, combined, ih]
          cases values.mapM Value.toStep <;> rfl

/-- A call gives what the kinds of its arguments foretell. -/
theorem answer_call (operation : Operation) (values : List (Value Operation Reading)) (caller : Scope Reading) :
    (operation.call values caller).map (fun answer => ofValue answer.1) = answer operation (values.map ofValue) := by
  have hcombine (build : List Step → Step) :
      (Operation.combine build values caller).map (fun answer => ofValue answer.1) =
        combined (values.map ofValue) := by
    rw [combined_ofValue, Operation.combine]
    cases values.mapM Value.toStep <;> rfl
  cases operation with
  | compose | stack | alternate | held | zoomed => exact hcombine _
  | channel =>
      cases values with
      | nil => rfl
      | cons value others =>
          cases others with
          | nil => cases value <;> rfl
          | cons => simp [Operation.call, Operation.setChannel, answer, Except.map]

theorem answer_bind (operation : Operation) (given : Except EvalError (List (Value Operation Reading)))
    (caller : Scope Reading) :
    (given.bind fun values => operation.call values caller).map (fun answer => ofValue answer.1) =
      (given.map (List.map ofValue)).bind (answer operation) := by
  cases given with
  | error error => rfl
  | ok values => exact answer_call operation values caller

end Kind

/-- A call may set the channel of its caller, and leaves the reading as it is. -/
theorem Vocabulary.reading_of_call {operation : Operation} {values : List (Value Operation Reading)}
    {caller after : Scope Reading} {value : Value Operation Reading}
    (h : operation.call values caller = .ok (value, after)) : after.reading = caller.reading := by
  by_cases hchannel : operation = .channel
  · subst hchannel
    obtain ⟨_, -, -, rfl⟩ := call_channel_eq_ok.mp h
    rfl
  · obtain ⟨_, -, -, rfl⟩ := (call_eq_ok hchannel).mp h
    rfl

namespace Node

open Vocabulary

variable {P : Type}

mutual

/-- The kind of a node's value, where numerals are read in some way. -/
def kind (node : Node P) (reading : Reading) : Except EvalError Kind :=
  match node with
  | .name value _ => (nameMeaning value ⟨reading, 0⟩).map Kind.ofValue
  | .numeral value _ _ => .ok (Kind.ofValue (reading.read value ⟨reading, 0⟩))
  | .paren child _ _ _ => child.kind reading
  | .row children _ _ | .block children _ _ _ => applicationKind children reading

def applicationKind (children : List (Node P)) (reading : Reading) : Except EvalError Kind :=
  match children with
  | [] => .error (.notCallable "empty application")
  | head :: arguments =>
    match (head.kind reading).bind Kind.toFunction with
    | .error error => .error error
    | .ok (operation, own) => (kinds arguments (own.getD reading)).bind (Kind.answer operation)

def kinds (nodes : List (Node P)) (reading : Reading) : Except EvalError (List Kind) :=
  match nodes with
  | [] => .ok []
  | node :: others =>
    match node.kind reading with
    | .error error => .error error
    | .ok first => (kinds others reading).map (first :: ·)

end

/-- The way in which the arguments of a head are read. -/
def argumentReading (head : Node P) (reading : Reading) : Reading :=
  match (head.kind reading).bind Kind.toFunction with
  | .error _ => reading
  | .ok (_, own) => own.getD reading

/-- An application is foretold by its head, and by its arguments as the head has them read. -/
theorem applicationKind_of_function {head : Node P} {reading : Reading} {operation : Operation} {own : Option Reading}
    (h : (head.kind reading).bind Kind.toFunction = .ok (operation, own)) (arguments : List (Node P)) :
    applicationKind (head :: arguments) reading =
      (kinds arguments (head.argumentReading reading)).bind (Kind.answer operation) := by
  rw [applicationKind, argumentReading, h]

theorem applicationKind_eq {head later : Node P} {reading : Reading} (h : later.kind reading = head.kind reading)
    (arguments : List (Node P)) :
    applicationKind (later :: arguments) reading = applicationKind (head :: arguments) reading := by
  rw [applicationKind, h, applicationKind]

theorem kinds_eq {node later : Node P} {reading : Reading} (h : later.kind reading = node.kind reading)
    (others : List (Node P)) : kinds (later :: others) reading = kinds (node :: others) reading := by
  rw [kinds, h, kinds]

theorem argumentReading_eq {head later : Node P} {reading : Reading} (h : later.kind reading = head.kind reading) :
    later.argumentReading reading = head.argumentReading reading := by
  rw [argumentReading, h, argumentReading]

theorem kind_name (name : String) (scope : Scope Reading) :
    (nameMeaning name scope).map Kind.ofValue = (nameMeaning name ⟨scope.reading, 0⟩).map Kind.ofValue := by
  cases hlookup : (bindings : Bindings Operation Reading Unit).lookup name with
  | none => rw [nameMeaning, nameMeaning, hlookup]
  | some term =>
      rw [nameMeaning, nameMeaning, hlookup]
      cases known_of_lookup hlookup <;> rfl

theorem kind_read (reading : Reading) (number : Double) (scope : Scope Reading) :
    Kind.ofValue (reading.read number scope) = Kind.ofValue (reading.read number ⟨reading, 0⟩) := by
  cases reading <;> rfl

end Node

/-- Whether a place is empty, or holds a value of the kind that is expected of its node. -/
def Term.Holds (term : Term Operation Reading Unit) (expected : Except EvalError Kind) : Prop :=
  term = .empty ∨ ∃ value, term = ⟨none, .thunk (some value)⟩ ∧ expected = .ok (Kind.ofValue value)

namespace Node

open Vocabulary

mutual

/-- A tree with values in some of its places, all of them of the right kinds. -/
def Filled (reading : Reading) : Program → Prop
  | .name value term => bindings.lookup value = some term
  | .numeral value _ term => term = .ofNumber value
  | .paren child _ _ term => term.Holds (child.kind reading) ∧ child.Filled reading
  | .row children _ term | .block children _ _ term =>
    term.Holds (applicationKind children reading) ∧ ApplicationFilled reading children

def ApplicationFilled (reading : Reading) : List Program → Prop
  | [] => True
  | head :: arguments => head.Filled reading ∧ AllFilled (head.argumentReading reading) arguments

def AllFilled (reading : Reading) : List Program → Prop
  | [] => True
  | node :: others => node.Filled reading ∧ AllFilled reading others

end

mutual

theorem Fresh.filled {node : Program} (h : node.Fresh bindings) (reading : Reading) : node.Filled reading := by
  match node with
  | .name .. | .numeral .. => exact h
  | .paren child _ _ term => exact ⟨Or.inl h.1, Fresh.filled h.2 reading⟩
  | .row [] _ _ | .block [] _ _ _ => exact ⟨Or.inl h.1, trivial⟩
  | .row (head :: arguments) _ _ =>
      exact ⟨Or.inl h.1, Fresh.filled h.2.1 reading, AllFresh.filled h.2.2 _⟩
  | .block (head :: arguments) _ _ _ =>
      exact ⟨Or.inl h.1, Fresh.filled h.2.1 reading, AllFresh.filled h.2.2 _⟩

theorem AllFresh.filled {nodes : List Program} (h : AllFresh bindings nodes) (reading : Reading) :
    AllFilled reading nodes := by
  match nodes with
  | [] => trivial
  | node :: others => exact ⟨Fresh.filled h.1 reading, AllFresh.filled h.2 reading⟩

end

end Node

/-! ### Evaluation -/

theorem Term.Holds.fill {expected : Except EvalError Kind} {result : Except EvalError (Value Operation Reading)}
    (h : result.map Kind.ofValue = expected) : (Term.empty.fill result).Holds expected := by
  subst h
  cases result with
  | error error => exact Or.inl rfl
  | ok value => exact Or.inr ⟨value, rfl, rfl⟩

theorem Function.reading_argumentScope {F R : Type} (function : Function F R) (caller : Scope R) :
    (function.argumentScope caller).reading = (function.arguments.map Scope.reading).getD caller.reading := by
  rw [argumentScope]
  cases function.arguments <;> rfl

/-- Of the context nothing has changed but the channel. -/
def Context.Kept (before after : Context Reading Unit) : Prop :=
  ∃ channel, after = { before with scope := ⟨before.scope.reading, channel⟩ }

namespace Context.Kept

variable {before middle after : Context Reading Unit} {scope : Scope Reading}

theorem trans (h : before.Kept middle) (h' : middle.Kept after) : before.Kept after := by
  obtain ⟨_, rfl⟩ := h
  obtain ⟨channel, rfl⟩ := h'
  exact ⟨channel, rfl⟩

theorem reading_eq (h : before.Kept after) : after.scope.reading = before.scope.reading := by
  obtain ⟨_, rfl⟩ := h
  rfl

/-- With a scope goes all that was done in it. -/
theorem leave_eq (h : (before.enter scope).Kept after) : after.leave = before := by
  obtain ⟨channel, rfl⟩ := h
  exact Context.leave_enter before scope _

theorem setScope (h : before.Kept after) (hscope : scope.reading = after.scope.reading) :
    before.Kept { after with scope } := by
  obtain ⟨_, rfl⟩ := h
  exact ⟨scope.channel, by rw [← hscope]⟩

end Context.Kept

/-- Whether an evaluation came out as foretold by kinds: its values or its error, and what it leaves, of which the
same is foretold again. -/
structure Evaluation.Foretold {A B K : Type} (evaluation : Evaluation Operation Reading Unit A B)
    (before : Context Reading Unit) (kindOf : A → K) (expected : Except EvalError K) (filled : B → Prop)
    (kind : B → Except EvalError K) : Prop where
  result : evaluation.result.map kindOf = expected
  tree : filled evaluation.tree
  again : kind evaluation.tree = expected
  context : before.Kept evaluation.context

namespace Node

open Vocabulary

/-- An empty place is filled with a value of the kind that was foretold. -/
theorem foretold_keep {B : Type} {evaluation : Evaluation Operation Reading Unit (Value Operation Reading) B}
    {before : Context Reading Unit} {expected : Except EvalError Kind} {filled : B → Prop}
    {kindOf : B → Except EvalError Kind} {reading : Reading}
    (h : evaluation.Foretold before Kind.ofValue expected filled kindOf)
    (rebuild : B → Term Operation Reading Unit → Program)
    (hfilled : ∀ parts term, term.Holds (kindOf parts) → filled parts → (rebuild parts term).Filled reading)
    (hkind : ∀ parts term, (rebuild parts term).kind reading = kindOf parts) :
    (evaluation.keep .empty rebuild).Foretold before Kind.ofValue expected (Filled reading) (kind · reading) where
  result := h.result
  tree := hfilled _ _ (by rw [h.again]; exact Term.Holds.fill h.result) h.tree
  again := (hkind _ _).trans h.again
  context := h.context

/-- What a name, a numeral or a filled place gives changes neither the node nor its context. -/
theorem foretold_unchanged {node : Program} {context : Context Reading Unit}
    {result : Except EvalError (Value Operation Reading)} {reading : Reading}
    (hresult : result.map Kind.ofValue = node.kind reading) (h : node.Filled reading) :
    (⟨result, node, context⟩ : Evaluation Operation Reading Unit _ _).Foretold context Kind.ofValue (node.kind reading)
      (Filled reading) (kind · reading) :=
  ⟨hresult, h, rfl, context.scope.channel, rfl⟩

theorem Filled.holds {node : Program} {reading : Reading} (h : node.Filled reading)
    (hcompound : node.isCompound = true) : node.payload.Holds (node.kind reading) := by
  match node with
  | .name .. | .numeral .. => cases hcompound
  | .paren .. | .row .. | .block .. => exact h.1

/-- Kinds foretell how an evaluation goes on: whether a head is called, how its arguments are read, and what comes of
the call. -/
theorem stepwise_filled :
    Stepwise dialect
      (fun node context evaluation => node.Filled context.scope.reading →
        evaluation.Foretold context Kind.ofValue (node.kind context.scope.reading) (Filled context.scope.reading)
          (kind · context.scope.reading))
      (fun children context evaluation => ApplicationFilled context.scope.reading children →
        evaluation.Foretold context Kind.ofValue (applicationKind children context.scope.reading)
          (ApplicationFilled context.scope.reading) (applicationKind · context.scope.reading))
      (fun nodes context evaluation => AllFilled context.scope.reading nodes →
        evaluation.Foretold context (List.map Kind.ofValue) (kinds nodes context.scope.reading)
          (AllFilled context.scope.reading) (kinds · context.scope.reading)) where
  name value term context h := by
    rw [forced_name settled h]
    exact foretold_unchanged (by rw [kind_name]; rfl) h
  numeral value digits term context h := by
    cases h
    exact foretold_unchanged (congrArg Except.ok (kind_read context.scope.reading value context.scope)) rfl
  kept node context hcompound hfilled h := by
    obtain ⟨value, hterm, hkind⟩ := Term.exists_value (h.holds hcompound) hfilled
    rw [forced_of_value hterm]
    exact foretold_unchanged hkind.symm h
  paren before behind hempty hinside h := by
    obtain rfl := Term.eq_empty h.1 hempty
    exact foretold_keep (hinside h.2) (fun child term => .paren child before behind term)
      (fun _ _ hterm hparts => ⟨hterm, hparts⟩) fun _ _ => rfl
  application hrebuild hempty hinside h := by
    cases hrebuild with
    | row | block =>
        obtain rfl := Term.eq_empty h.1 hempty
        exact foretold_keep (hinside h.2) _ (fun _ _ hterm hparts => ⟨hterm, hparts⟩) fun _ _ => rfl
  headless context _ := ⟨rfl, trivial, rfl, context.scope.channel, rfl⟩
  uncalled {head} {context} {called} {error} arguments hhead herror h := by
    obtain ⟨hresult, htree, hkind, hcontext⟩ := hhead h.1
    have hcallee : (head.kind context.scope.reading).bind Kind.toFunction = .error error := by
      rw [← hresult, Kind.toFunction_ofValue, herror]
      rfl
    have hfails : applicationKind (head :: arguments) context.scope.reading = .error error := by
      rw [applicationKind, hcallee]
    refine ⟨hfails.symm, ⟨htree, ?_⟩, applicationKind_eq hkind arguments, hcontext⟩
    rw [argumentReading_eq hkind]
    exact h.2
  call {head} {arguments} {context} {called} {function} {given} hhead hfunction harguments h := by
    obtain ⟨hresult, htree, hkind, hcontext⟩ := hhead h.1
    have hcallee : (head.kind context.scope.reading).bind Kind.toFunction =
        .ok (function.operation, function.arguments.map Scope.reading) := by
      rw [← hresult, hfunction]
      rfl
    have hreading : (called.context.enter (function.argumentScope called.context.scope)).scope.reading =
        head.argumentReading context.scope.reading := by
      rw [argumentReading, hcallee]
      exact (function.reading_argumentScope _).trans (by rw [hcontext.reading_eq])
    rw [hreading] at harguments
    obtain ⟨hvalues, htrees, hkinds, hlast⟩ := harguments h.2
    have hanswer : (given.result.bind fun values => dialect.call function.operation values called.context.scope).map
        (fun answer => Kind.ofValue answer.1) = applicationKind (head :: arguments) context.scope.reading := by
      rw [applicationKind_of_function hcallee, ← hvalues]
      exact Kind.answer_bind function.operation given.result called.context.scope
    have hfilled : ApplicationFilled context.scope.reading (called.tree :: given.tree) := by
      refine ⟨htree, ?_⟩
      rw [argumentReading_eq hkind]
      exact htrees
    have hagain : applicationKind (called.tree :: given.tree) context.scope.reading =
        applicationKind (head :: arguments) context.scope.reading := by
      rw [applicationKind_eq hkind, applicationKind_of_function hcallee, applicationKind_of_function hcallee, hkinds]
    rw [hlast.leave_eq]
    cases houtcome : given.result.bind fun values =>
        dialect.call function.operation values called.context.scope with
    | error error =>
        rw [houtcome] at hanswer
        exact ⟨hanswer, hfilled, hagain, hcontext⟩
    | ok answer =>
        rw [houtcome] at hanswer
        obtain ⟨values, -, hcall⟩ := except_bind_eq_ok.mp houtcome
        exact ⟨hanswer, hfilled, hagain, hcontext.setScope (reading_of_call hcall)⟩
  done context _ := ⟨rfl, trivial, rfl, context.scope.channel, rfl⟩
  broken {node} {context} {first} {error} others hnode herror h := by
    obtain ⟨hresult, htree, hkind, hcontext⟩ := hnode h.1
    rw [herror] at hresult
    have hbroken : kinds (node :: others) context.scope.reading = .error error := by
      rw [kinds, ← hresult]
      rfl
    exact ⟨hbroken.symm, ⟨htree, h.2⟩, kinds_eq hkind others, hcontext⟩
  further {node} {others} {context} {first} {value} {rest} hnode hvalue hothers h := by
    obtain ⟨hresult, htree, hkind, hcontext⟩ := hnode h.1
    rw [hcontext.reading_eq] at hothers
    obtain ⟨hvalues, htrees, hkinds, hlast⟩ := hothers h.2
    have hgoes (others : List Program) : kinds (node :: others) context.scope.reading =
        (kinds others context.scope.reading).map (Kind.ofValue value :: ·) := by
      rw [kinds, ← hresult, hvalue]
      rfl
    refine ⟨?_, ⟨htree, htrees⟩, ?_, hcontext.trans hlast⟩
    · rw [hgoes, ← hvalues]
      cases rest.result <;> rfl
    · rw [kinds_eq hkind, hgoes, hgoes, hkinds]

/-- The evaluation of a filled tree gives a value of the kind that is foretold, or the error, and leaves a filled
tree. -/
theorem evaluate_filled {node : Program} {reading : Reading} (h : node.Filled reading)
    (context : Context Reading Unit) (hreading : context.scope.reading = reading) :
    (node.evaluate dialect context).Foretold context Kind.ofValue (node.kind reading) (Filled reading)
      (kind · reading) := by
  subst hreading
  exact stepwise_filled.evaluate node context h

theorem tree_forced (node : Program) (context : Context Reading Unit) : (forced node context).tree = node := rfl

/-- A node that has a value has it again. -/
theorem evaluate_again {node : Program} {context : Context Reading Unit} {value : Value Operation Reading}
    (h : (node.evaluate dialect context).result = .ok value) :
    ((node.evaluate dialect context).tree.evaluate dialect context).result = .ok value := by
  match node with
  | .name .. | .numeral .. => exact h
  | .paren _ _ _ term | .row _ _ term | .block _ _ _ term =>
      by_cases hempty : term.isEmpty = true
      · simp only [evaluate, if_pos hempty, Evaluation.keep] at h ⊢
        rw [h]
        rfl
      · simp only [evaluate, if_neg hempty, tree_forced] at h ⊢
        exact h

end Node

namespace Program

open Vocabulary

/-- The step: a run leaves a tree that runs to the same outcome. -/
theorem run_run {program : Program} (h : program.Filled outermost.reading) :
    program.run.2.Filled outermost.reading ∧ program.run.2.run.1 = program.run.1 := by
  obtain ⟨hresult, htree, hkind, -⟩ := Node.evaluate_filled h (.ofScope outermost ()) rfl
  refine ⟨htree, ?_⟩
  cases hfirst : (program.evaluate dialect (.ofScope outermost ())).result with
  | ok value => rw [run, run, Node.evaluate_again hfirst, hfirst]
  | error error =>
      have hagain := (Node.evaluate_filled htree (.ofScope outermost ()) rfl).1
      rw [hkind, ← hresult, hfirst] at hagain
      cases hsecond : (program.run.2.evaluate dialect (.ofScope outermost ())).result with
      | ok value =>
          rw [run] at hsecond
          rw [hsecond] at hagain
          cases hagain
      | error found =>
          rw [run] at hsecond
          rw [hsecond] at hagain
          cases hagain
          rw [run, run, hsecond, hfirst]

theorem run_iterate {program : Program} (h : program.Filled outermost.reading) (count : Nat) :
    ((fun program : Program => program.run.2)^[count] program).run.1 = program.run.1 := by
  induction count generalizing program with
  | zero => rfl
  | succ count ih =>
      obtain ⟨hfilled, hsame⟩ := run_run h
      rw [Function.iterate_succ_apply, ih hfilled, hsame]

/-- A program that was run any number of times, with or without success, runs to the same step or to the same error
as one that was just read. -/
theorem run_repeated {text : String} {program : Program} (h : ofText text = .ok program) (count : Nat) :
    ((fun program : Program => program.run.2)^[count] program).run.1 = program.run.1 :=
  run_iterate ((ofText_eq_ok h).1.filled outermost.reading) count

/-- The first run sets a channel, keeps the note behind it, and fails; the third starts on another channel. -/
theorem run_repeated_halfway :
    ∃ program, ofText "stack (channel 3) (note 60) ((i 1) 2)" = .ok program ∧
      program.run.1 = .error (.notCallable "transformer") ∧
      ((fun program : Program => program.run.2)^[2] program).run.1 = .error (.notCallable "transformer") := by
  obtain ⟨program, hprogram, hfails⟩ : ∃ program, ofText "stack (channel 3) (note 60) ((i 1) 2)" = .ok program ∧
      program.run.1 = .error (.notCallable "transformer") := run_of_failure (by decide +kernel)
  exact ⟨program, hprogram, hfails, (run_repeated hprogram 2).trans hfails⟩

end Program

end Cadence
