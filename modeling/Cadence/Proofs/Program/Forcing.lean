import Cadence.Proofs.Program.Memoized

/-! How terms compute. A term is asked for its value again and again, with or without a computation that could fill it, and
each time in some context. What is run for that is written down by the computations themselves, in a journal behind the
memory: every run stands there with the context that it was begun in, and a computation that is not in the journal was not
run. So it is seen that a value is given as it is, that an impure term runs its own computation and no other in every call,
and that a place runs what it is given until the first success, and nothing from then on. -/

namespace Cadence

variable {F R M : Type}

/-- Whose computation it is: that of the term itself, or one that is brought along by a call. -/
inductive Origin where
  | own
  | given
  deriving DecidableEq

/-- A memory with a journal: the computations that were run, each with the context it was begun in. -/
structure Journal (R M : Type) where
  memory : M
  runs : List (Origin × Context R M)

namespace Context

def withJournal (context : Context R M) (runs : List (Origin × Context R M)) : Context R (Journal R M) :=
  ⟨context.scope, context.outer, ⟨context.memory, runs⟩⟩

def withoutJournal (context : Context R (Journal R M)) : Context R M :=
  ⟨context.scope, context.outer, context.memory.memory⟩

end Context

/-- A computation that does the same, and writes down that it was run. -/
def journaled (origin : Origin) (compute : Computation F R M) : Computation F R (Journal R M) := fun context =>
  let (result, after) := compute context.withoutJournal
  (result, after.withJournal (context.memory.runs ++ [(origin, context.withoutJournal)]))

namespace Term

/-- The term whose own computation, if it has one, writes down that it was run. -/
def journaled (term : Term F R M) : Term F R (Journal R M) where
  type := term.type
  content :=
    match term.content with
    | .ready value => .ready value
    | .thunk value => .thunk value
    | .impure compute => .impure (Cadence.journaled .own compute)

/-- A call of a term. -/
inductive Call (F R M : Type) where
  | force
  | forceOrFill (compute : Computation F R M)

namespace Call

/-- What a call gives, and what it leaves of the term and of the context. -/
def on : Call F R M → Term F R M → Context R M → Except EvalError (Value F R) × Term F R M × Context R M
  | .force, term, context =>
    let (result, after) := term.force context
    (result, term, after)
  | .forceOrFill compute, term, context => term.forceOrFill compute context

def journaled : Call F R M → Call F R (Journal R M)
  | .force => .force
  | .forceOrFill compute => .forceOrFill (Cadence.journaled .given compute)

/-- The value that a call finds for a place that is still empty. -/
def found : Call F R M → Context R M → Option (Value F R)
  | .force, _ => none
  | .forceOrFill compute, context => (compute context).1.toOption

end Call

/-- What a call shows: its result, the context behind it, and whether the term counts as evaluated from then on. -/
structure Answer (F R M : Type) where
  result : Except EvalError (Value F R)
  context : Context R M
  hasValue : Bool

/-- What a call shows together with the computations that it ran. -/
structure Sight (F R M : Type) extends Answer F R M where
  runs : List (Origin × Context R M)

/-- Calls of a term one after the other, each in a context of its own. This may be what the call before has left, with any
changes, or another one. -/
def answers (term : Term F R M) : List (Call F R M × Context R M) → List (Answer F R M)
  | [] => []
  | (call, context) :: calls =>
    let (result, later, after) := call.on term context
    ⟨result, after, later.hasValue⟩ :: later.answers calls

/-- One call with an empty journal: what it shows, and what is left of the term. -/
def observe (term : Term F R (Journal R M)) (call : Call F R M × Context R M) : Sight F R M × Term F R (Journal R M) :=
  let (result, later, after) := call.1.journaled.on term (call.2.withJournal [])
  (⟨⟨result, after.withoutJournal, later.hasValue⟩, after.memory.runs⟩, later)

/-- The same calls, with a journal that is empty before each of them. -/
def sights (term : Term F R (Journal R M)) : List (Call F R M × Context R M) → List (Sight F R M)
  | [] => []
  | call :: calls => (term.observe call).1 :: (term.observe call).2.sights calls

namespace Sight

/-- A value that is there is given, and nothing is run. -/
def settled (value : Value F R) (call : Call F R M × Context R M) : Sight F R M :=
  ⟨⟨.ok value, call.2, true⟩, []⟩

/-- The term's own computation is run once, in the context of the call, whatever the call brings along. -/
def anew (compute : Computation F R M) (call : Call F R M × Context R M) : Sight F R M :=
  ⟨⟨(compute call.2).1, (compute call.2).2, false⟩, [(.own, call.2)]⟩

/-- A place that is still empty has no value of its own. A computation that is brought along is run once, in the context of
the call, and fills the place if it succeeds. -/
def unfilled : Call F R M × Context R M → Sight F R M
  | (.force, context) => ⟨⟨.error .unevaluated, context, false⟩, []⟩
  | (.forceOrFill compute, context) =>
    ⟨⟨(compute context).1, (compute context).2, (compute context).1.isOk⟩, [(.given, context)]⟩

end Sight

/-- What calls have to show, by the kind of the term. The calls of a place that is empty at first come up to the first one
that finds a value, if there is one, and those behind it. -/
def Shows (content : Content F R M) (calls : List (Call F R M × Context R M)) (sights : List (Sight F R M)) : Prop :=
  match content with
  | .ready value | .thunk (some value) => sights = calls.map (Sight.settled value)
  | .impure compute => sights = calls.map (Sight.anew compute)
  | .thunk none =>
    (∀ call ∈ calls, call.1.found call.2 = none) ∧ sights = calls.map Sight.unfilled ∨
      ∃ before call behind value, calls = before ++ call :: behind ∧
        (∀ earlier ∈ before, earlier.1.found earlier.2 = none) ∧ call.1.found call.2 = some value ∧
        sights = before.map Sight.unfilled ++ Sight.unfilled call :: behind.map (Sight.settled value)

section

variable (type : Option Ty) (call : Call F R M × Context R M)

theorem hasValue_fill_empty (result : Except EvalError (Value F R)) :
    ((⟨type, .thunk none⟩ : Term F R M).fill result).hasValue = result.isOk := by
  cases result <;> rfl

/-- Filling a place takes the same with a journal as without. -/
theorem fill_empty (result : Except EvalError (Value F R)) :
    (⟨type, .thunk none⟩ : Term F R M).fill result = ⟨type, .thunk result.toOption⟩ := by
  cases result <;> rfl

theorem observe_ready (value : Value F R) :
    (⟨type, .ready value⟩ : Term F R M).journaled.observe call =
      (Sight.settled value call, (⟨type, .ready value⟩ : Term F R M).journaled) := by
  obtain ⟨_ | given, context⟩ := call <;> rfl

/-- A place that was filled is as good as a value. -/
theorem observe_filled (value : Value F R) :
    (⟨type, .thunk (some value)⟩ : Term F R M).journaled.observe call =
      (Sight.settled value call, (⟨type, .thunk (some value)⟩ : Term F R M).journaled) := by
  obtain ⟨_ | given, context⟩ := call <;> rfl

theorem observe_impure (compute : Computation F R M) :
    (⟨type, .impure compute⟩ : Term F R M).journaled.observe call =
      (Sight.anew compute call, (⟨type, .impure compute⟩ : Term F R M).journaled) := by
  obtain ⟨_ | given, context⟩ := call <;> rfl

/-- An empty place keeps the value that the call finds, if it finds one. -/
theorem observe_empty :
    (⟨type, .thunk none⟩ : Term F R M).journaled.observe call =
      (Sight.unfilled call, (⟨type, .thunk (call.1.found call.2)⟩ : Term F R M).journaled) := by
  obtain ⟨_ | compute, context⟩ := call
  · rfl
  · have hevaluated := hasValue_fill_empty (M := Journal R M) type (compute context).1
    refine Prod.ext ?_ (fill_empty type (compute context).1)
    exact congrArg
      (fun evaluated => (⟨⟨(compute context).1, (compute context).2, evaluated⟩, [(.given, context)]⟩ : Sight F R M))
      hevaluated

/-- Whether there is a journal or not, a call gives the same, and leaves the same of the term and of the context. -/
theorem observe_eq (term : Term F R M) :
    (term.journaled.observe call).1.toAnswer =
        ⟨(call.1.on term call.2).1, (call.1.on term call.2).2.2, (call.1.on term call.2).2.1.hasValue⟩ ∧
      (term.journaled.observe call).2 = (call.1.on term call.2).2.1.journaled := by
  obtain ⟨type, content⟩ := term
  match content with
  | .ready value | .thunk (some value) | .impure compute => obtain ⟨_ | given, context⟩ := call <;> exact ⟨rfl, rfl⟩
  | .thunk none =>
      rw [observe_empty]
      obtain ⟨_ | compute, context⟩ := call
      · exact ⟨rfl, rfl⟩
      · refine ⟨congrArg (Answer.mk _ _) (hasValue_fill_empty type (compute context).1).symm, ?_⟩
        exact congrArg Term.journaled (fill_empty type (compute context).1).symm

end

/-- A term that every call leaves as it is. -/
theorem sights_of_steady {term : Term F R (Journal R M)} {sight : Call F R M × Context R M → Sight F R M}
    (h : ∀ call, term.observe call = (sight call, term)) (calls : List (Call F R M × Context R M)) :
    term.sights calls = calls.map sight := by
  induction calls with
  | nil => rfl
  | cons call calls ih => rw [sights, h, List.map_cons, ih]

theorem answers_eq (term : Term F R M) (calls : List (Call F R M × Context R M)) :
    (term.journaled.sights calls).map Sight.toAnswer = term.answers calls := by
  induction calls generalizing term with
  | nil => rfl
  | cons call calls ih =>
      obtain ⟨hanswer, hlater⟩ := observe_eq call term
      rw [sights, List.map_cons, hanswer, hlater, ih]
      rfl

theorem sights_filled (type : Option Ty) (value : Value F R) (calls : List (Call F R M × Context R M)) :
    (⟨type, .thunk (some value)⟩ : Term F R M).journaled.sights calls = calls.map (Sight.settled value) :=
  sights_of_steady (fun call => observe_filled type call value) calls

/-- An empty place stays empty up to the first call that finds a value. -/
theorem shows_empty (type : Option Ty) (calls : List (Call F R M × Context R M)) :
    Shows (.thunk none) calls ((⟨type, .thunk none⟩ : Term F R M).journaled.sights calls) := by
  induction calls with
  | nil => exact Or.inl ⟨List.forall_mem_nil _, rfl⟩
  | cons call calls ih =>
      rw [sights, observe_empty]
      cases hfound : call.1.found call.2 with
      | some value =>
          refine Or.inr ⟨[], call, calls, value, rfl, List.forall_mem_nil _, hfound, ?_⟩
          rw [sights_filled]
          rfl
      | none =>
          rcases ih with ⟨hnone, hsights⟩ | ⟨before, first, behind, value, rfl, hnone, hfirst, hsights⟩
          · refine Or.inl ⟨List.forall_mem_cons.mpr ⟨hfound, hnone⟩, ?_⟩
            rw [hsights, List.map_cons]
          · refine Or.inr ⟨call :: before, first, behind, value, rfl, List.forall_mem_cons.mpr ⟨hfound, hnone⟩, hfirst, ?_⟩
            rw [hsights, List.map_cons, List.cons_append]

/-- Terms compute as their kind says, in calls with and without computations that are brought along, which succeed or
fail, in any contexts. A value is given as it is, and nothing is run. An impure term runs its own computation once in each
call, in the context of the call, runs nothing else, and never counts as evaluated. A place that is empty has no value until
a computation succeeds that is brought along: each of these is run once up to the first that succeeds, one that fails leaves
the place empty, and from then on the value of the first success is given and nothing is run. What the calls give does not
depend on whether runs are written down. -/
theorem computes_by_kind (term : Term F R M) (calls : List (Call F R M × Context R M)) :
    Shows term.content calls (term.journaled.sights calls) ∧
      (term.journaled.sights calls).map Sight.toAnswer = term.answers calls := by
  refine ⟨?_, answers_eq term calls⟩
  obtain ⟨type, content⟩ := term
  match content with
  | .ready value => exact sights_of_steady (fun call => observe_ready type call value) calls
  | .thunk (some value) => exact sights_filled type value calls
  | .thunk none => exact shows_empty type calls
  | .impure compute => exact sights_of_steady (fun call => observe_impure type call compute) calls

/-- A place is asked in vain, then given a computation that fails, one that succeeds, and another one. -/
example (context : Context Reading Unit) :
    ((empty : Term Operation Reading Unit).journaled.sights
      [(.force, context), (.forceOrFill (fun after => (.error .unevaluated, after)), context),
        (.forceOrFill (fun after => (.ok (.step .mute), after)), context),
        (.forceOrFill (fun after => (.ok (.step .identity), after)), context)]).map
      (fun sight => (sight.hasValue, sight.runs.length)) = [(false, 0), (false, 1), (true, 1), (true, 0)] := by rfl

end Term

/-! ### Terms in an evaluation -/

namespace Node

/-- What a node with children computes by way of them. -/
def byChildren (dialect : Dialect F R) (node : BoundTree F R M) : Computation F R M := fun context =>
  match node with
  | .name .. | .numeral .. => node.payload.force context
  | .paren child _ _ _ =>
    let evaluation := child.evaluate dialect context
    (evaluation.result, evaluation.context)
  | .row children _ _ | .block children _ _ _ =>
    let evaluation := applyHead dialect children context
    (evaluation.result, evaluation.context)

/-- The evaluation of a node with children is a call of its term, which brings along what the children compute. -/
theorem evaluate_eq_forceOrFill (dialect : Dialect F R) {node : BoundTree F R M} (h : node.isCompound = true)
    (context : Context R M) :
    ((node.evaluate dialect context).result, (node.evaluate dialect context).tree.payload,
      (node.evaluate dialect context).context) = node.payload.forceOrFill (node.byChildren dialect) context := by
  match node with
  | .name .. | .numeral .. => cases h
  | .paren _ _ _ term | .row _ _ term | .block _ _ _ term =>
      change _ = term.forceOrFill _ context
      by_cases hempty : term.isEmpty = true
      · rw [Term.forceOrFill, if_pos hempty]
        simp only [evaluate, if_pos hempty]
        rfl
      · rw [Term.forceOrFill, if_neg hempty]
        simp only [evaluate, if_neg hempty]
        rfl

end Node

end Cadence
