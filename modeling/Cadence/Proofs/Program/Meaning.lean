import Cadence.Proofs.Program.Stepwise

/-! What a tree means, without places for values and without a stack of scopes: one scope is passed from
left to right, and an application gives its arguments a scope that is thrown away behind them. A tree
that was just bound is evaluated to what it means. -/

namespace Cadence

variable {F R M P : Type}

namespace Node

section Meaning

variable (dialect : Dialect F R) (names : String → Scope R → Except EvalError (Value F R))

mutual

/-- The value of a node in a scope, and the scope behind it. Payloads are not looked at: `names` tells what
names mean. -/
def meaning (node : Node P) (scope : Scope R) : Except EvalError (Value F R) × Scope R :=
  match node with
  | .name value _ => (names value scope, scope)
  | .numeral value _ _ => (.ok (dialect.read scope.reading value scope), scope)
  | .paren child _ _ _ => child.meaning scope
  | .row children _ _ | .block children _ _ _ => applicationMeaning children scope

/-- The value of an application. Its function may change the scope that it stands in. -/
def applicationMeaning (children : List (Node P)) (scope : Scope R) :
    Except EvalError (Value F R) × Scope R :=
  match children with
  | [] => (.error (.notCallable "empty application"), scope)
  | head :: arguments =>
    let called := head.meaning scope
    match called.1.bind Value.toFunction with
    | .error error => (.error error, called.2)
    | .ok function =>
      match (meanings arguments (function.argumentScope called.2)).bind
        fun values => dialect.call function.operation values called.2 with
      | .error error => (.error error, called.2)
      | .ok (value, after) => (.ok value, after)

/-- The values of nodes, each in the scope behind the one before it. -/
def meanings (nodes : List (Node P)) (scope : Scope R) : Except EvalError (List (Value F R)) :=
  match nodes with
  | [] => .ok []
  | node :: others =>
    let first := node.meaning scope
    match first.1 with
    | .error error => .error error
    | .ok value => (meanings others first.2).map (value :: ·)

end

end Meaning

section Success

variable {dialect : Dialect F R} {names : String → Scope R → Except EvalError (Value F R)}
  {scope after : Scope R} {value : Value F R}

/-- An application succeeds when its head gives a function, its arguments values, and the function an
answer. -/
theorem applicationMeaning_eq_ok {children : List (Node P)} :
    applicationMeaning dialect names children scope = (.ok value, after) ↔
      ∃ head arguments function caller values, children = head :: arguments ∧
        head.meaning dialect names scope = (.ok (.function function), caller) ∧
        meanings dialect names arguments (function.argumentScope caller) = .ok values ∧
        dialect.call function.operation values caller = .ok (value, after) := by
  constructor
  · intro h
    match children with
    | [] => cases h
    | head :: arguments =>
        rw [applicationMeaning] at h
        rcases hcalled : head.meaning dialect names scope with ⟨error | called, caller⟩
        · rw [hcalled] at h
          cases h
        · cases called with
          | number => rw [hcalled] at h; cases h
          | step => rw [hcalled] at h; cases h
          | function function =>
              simp only [hcalled, Except.bind, Value.toFunction] at h
              cases hvalues : meanings dialect names arguments (function.argumentScope caller) with
              | error error =>
                  rw [hvalues] at h
                  cases h
              | ok values =>
                  simp only [hvalues] at h
                  cases hcall : dialect.call function.operation values caller with
                  | error error =>
                      rw [hcall] at h
                      cases h
                  | ok answer =>
                      rw [hcall] at h
                      cases h
                      exact ⟨head, arguments, function, caller, values, rfl, hcalled, hvalues, hcall⟩
  · rintro ⟨head, arguments, function, caller, values, rfl, hcalled, hvalues, hcall⟩
    simp only [applicationMeaning, hcalled, hvalues, Except.bind, Value.toFunction, hcall]

theorem meanings_cons_eq_ok {node : Node P} {others : List (Node P)} {values : List (Value F R)} :
    meanings dialect names (node :: others) scope = .ok values ↔
      ∃ value after rest, node.meaning dialect names scope = (.ok value, after) ∧
        meanings dialect names others after = .ok rest ∧ values = value :: rest := by
  constructor
  · intro h
    rw [meanings] at h
    rcases hfirst : node.meaning dialect names scope with ⟨error | value, after⟩
    · rw [hfirst] at h
      cases h
    · simp only [hfirst] at h
      cases hrest : meanings dialect names others after with
      | error error =>
          rw [hrest] at h
          cases h
      | ok rest =>
          rw [hrest] at h
          cases h
          exact ⟨value, after, rest, rfl, hrest, rfl⟩
  · rintro ⟨value, after, rest, hfirst, hrest, rfl⟩
    simp only [meanings, hfirst, hrest, Except.map]

theorem length_of_meanings {nodes : List (Node P)} {values : List (Value F R)}
    (h : meanings dialect names nodes scope = .ok values) : values.length = nodes.length := by
  induction nodes generalizing scope values with
  | nil =>
      cases h
      rfl
  | cons node others ih =>
      obtain ⟨_, _, rest, -, hrest, rfl⟩ := meanings_cons_eq_ok.mp h
      rw [List.length_cons, List.length_cons, ih hrest]

end Success

/-! ### Fresh trees -/

mutual

/-- A tree as binding leaves it, with no value in any place. -/
def Fresh (bindings : Bindings F R M) : BoundTree F R M → Prop
  | .name value term => bindings.lookup value = some term
  | .numeral value _ term => term = .ofNumber value
  | .paren child _ _ term => term = .empty ∧ child.Fresh bindings
  | .row children _ term | .block children _ _ term => term = .empty ∧ AllFresh bindings children

def AllFresh (bindings : Bindings F R M) : List (BoundTree F R M) → Prop
  | [] => True
  | node :: nodes => node.Fresh bindings ∧ AllFresh bindings nodes

end

mutual

theorem fresh_of_mapPayloadM {bindings : Bindings F R M} {tree : Tree} {bound : BoundTree F R M}
    (h : tree.mapPayloadM bindings.term = .ok bound) : bound.Fresh bindings := by
  match tree with
  | .name value _ =>
      obtain ⟨term, hterm, hbound⟩ := except_bind_eq_ok.mp h
      cases hbound
      rw [Bindings.term] at hterm
      cases hlookup : bindings.lookup value with
      | none =>
          rw [hlookup] at hterm
          cases hterm
      | some found =>
          rw [hlookup] at hterm
          cases hterm
          exact hlookup
  | .numeral value digits _ =>
      cases h
      rfl
  | .paren child before behind _ =>
      obtain ⟨term, hterm, h⟩ := except_bind_eq_ok.mp h
      obtain ⟨inside, hinside, hbound⟩ := except_bind_eq_ok.mp h
      cases hterm
      cases hbound
      exact ⟨rfl, fresh_of_mapPayloadM hinside⟩
  | .row children gaps _ =>
      obtain ⟨term, hterm, h⟩ := except_bind_eq_ok.mp h
      obtain ⟨inside, hinside, hbound⟩ := except_bind_eq_ok.mp h
      cases hterm
      cases hbound
      exact ⟨rfl, allFresh_of_mapPayloadsM hinside⟩
  | .block children indent gaps _ =>
      obtain ⟨term, hterm, h⟩ := except_bind_eq_ok.mp h
      obtain ⟨inside, hinside, hbound⟩ := except_bind_eq_ok.mp h
      cases hterm
      cases hbound
      exact ⟨rfl, allFresh_of_mapPayloadsM hinside⟩

theorem allFresh_of_mapPayloadsM {bindings : Bindings F R M} {trees : List Tree}
    {bound : List (BoundTree F R M)} (h : mapPayloadsM bindings.term trees = .ok bound) :
    AllFresh bindings bound := by
  match trees with
  | [] =>
      cases h
      trivial
  | tree :: trees =>
      obtain ⟨first, hfirst, h⟩ := except_bind_eq_ok.mp h
      obtain ⟨others, hothers, hbound⟩ := except_bind_eq_ok.mp h
      cases hbound
      exact ⟨fresh_of_mapPayloadM hfirst, allFresh_of_mapPayloadsM hothers⟩

end

theorem fresh_of_bind {bindings : Bindings F R M} {tree : Tree} {bound : BoundTree F R M}
    (h : bindings.bind tree = .ok bound) : bound.Fresh bindings :=
  fresh_of_mapPayloadM h

theorem payload_of_fresh {bindings : Bindings F R M} {node : BoundTree F R M} (h : node.Fresh bindings)
    (hcompound : node.isCompound = true) : node.payload = .empty := by
  match node with
  | .name .. | .numeral .. => cases hcompound
  | .paren .. | .row .. | .block .. => exact h.1

end Node

/-- Whether an evaluation comes to what is told plainly, and changes nothing in its context but the scope. -/
def Evaluation.Means {B : Type} (evaluation : Evaluation F R M (Value F R) B) (before : Context R M)
    (plain : Except EvalError (Value F R) × Scope R) : Prop :=
  evaluation.result = plain.1 ∧ evaluation.context = { before with scope := plain.2 }

namespace Node

variable {dialect : Dialect F R} {names : String → Scope R → Except EvalError (Value F R)} {bindings : Bindings F R M}

/-- Names mean what their terms give, whatever surrounds the scope. -/
def Settled (names : String → Scope R → Except EvalError (Value F R)) (bindings : Bindings F R M) : Prop :=
  ∀ value term, bindings.lookup value = some term →
    ∀ context, term.force context = (names value context.scope, context)

theorem forced_name (hnames : Settled names bindings) {value : String} {term : Term F R M}
    (h : bindings.lookup value = some term) (context : Context R M) :
    forced (.name value term) context = ⟨names value context.scope, .name value term, context⟩ := by
  rw [forced, payload, hnames value term h context]

/-- The arguments of an application get a scope of their own, of which nothing is left behind them; what they mean does
not depend on the scopes around it. -/
theorem stepwise_fresh (hnames : Settled names bindings) :
    Stepwise dialect
      (fun node context evaluation => node.Fresh bindings →
        evaluation.Means context (node.meaning dialect names context.scope))
      (fun children context evaluation => AllFresh bindings children →
        evaluation.Means context (applicationMeaning dialect names children context.scope))
      (fun nodes context evaluation => AllFresh bindings nodes →
        evaluation.result = meanings dialect names nodes context.scope ∧
          ∃ scope, evaluation.context = { context with scope }) where
  name value term context h := by
    rw [forced_name hnames h]
    exact ⟨rfl, rfl⟩
  numeral value digits term context h := by
    cases h
    exact ⟨rfl, rfl⟩
  kept node context hcompound hfilled h := by
    rw [payload_of_fresh h hcompound] at hfilled
    cases hfilled
  paren _ _ _ hinside h := hinside h.2
  application hrebuild _ hinside h := by
    cases hrebuild with
    | row | block => exact hinside h.2
  headless context _ := ⟨rfl, rfl⟩
  uncalled arguments hhead herror h := by
    obtain ⟨hresult, hcontext⟩ := hhead h.1
    rw [hresult] at herror
    simp only [applicationMeaning, herror]
    exact ⟨rfl, hcontext⟩
  call {head} {arguments} {context} {called} {function} {given} hhead hfunction harguments h := by
    obtain ⟨hresult, hcontext⟩ := hhead h.1
    obtain ⟨hgiven, scope, hlast⟩ := harguments h.2
    have hleave : given.context.leave = called.context := by rw [hlast, Context.leave_enter]
    have hcalled : (head.meaning dialect names context.scope).1.bind Value.toFunction = .ok function := by
      rw [← hresult, hfunction]
      rfl
    rw [hleave, hgiven, Context.enter, hcontext]
    simp only [applicationMeaning, hcalled]
    generalize (head.meaning dialect names context.scope).2 = caller
    cases (meanings dialect names arguments (function.argumentScope caller)).bind fun values =>
        dialect.call function.operation values caller with
    | error error => exact ⟨rfl, rfl⟩
    | ok answer => exact ⟨rfl, rfl⟩
  done context _ := ⟨rfl, context.scope, rfl⟩
  broken others hnode herror h := by
    obtain ⟨hresult, hcontext⟩ := hnode h.1
    rw [hresult] at herror
    refine ⟨?_, _, hcontext⟩
    rw [meanings, herror]
  further hnode hvalue hothers h := by
    obtain ⟨hresult, hcontext⟩ := hnode h.1
    obtain ⟨hrest, scope, hlast⟩ := hothers h.2
    rw [hresult] at hvalue
    refine ⟨?_, scope, ?_⟩
    · rw [hrest, hcontext, meanings, hvalue]
    · rw [hlast, hcontext]

/-- What a fresh tree is evaluated to, and that nothing of a context changes but the scope. -/
theorem evaluate_fresh (hnames : Settled names bindings) {node : BoundTree F R M} (h : node.Fresh bindings)
    (context : Context R M) :
    (node.evaluate dialect context).Means context (node.meaning dialect names context.scope) :=
  (stepwise_fresh hnames).evaluate node context h

end Node

end Cadence
