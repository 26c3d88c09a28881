import Cadence.Program.Meaning
import Cadence.Proofs.Source.Outcome

/-! The steps of an evaluation. A statement about evaluations, of nodes, of applications and of nodes from left to right,
holds of all of them if every step carries it on, from the evaluations that it begins to the one that it ends. So the
recursion is followed here, once, and what an invariant has to say is what each step does to it. -/

namespace Cadence

variable {F R M : Type}

/-- What is left of an application whose function was called: the value, with the scope in which the call leaves its
caller, or the error. -/
def Evaluation.ofCall {B : Type} (children : B) (after : Context R M)
    (outcome : Except EvalError (Value F R × Scope R)) : Evaluation F R M (Value F R) B :=
  match outcome with
  | .error error => ⟨.error error, children, after⟩
  | .ok (value, scope) => ⟨.ok value, children, { after with scope }⟩

/-- A scope that was entered is left without a trace, whatever has become of it. -/
theorem Context.leave_enter (context : Context R M) (scope last : Scope R) :
    ({ context.enter scope with scope := last } : Context R M).leave = context := rfl

section

variable {term : Term F R M} {holds : Value F R → Prop}

/-- Of a place that is empty or holds a value of some sort, `isEmpty` tells which. -/
theorem Term.eq_empty (h : term = .empty ∨ ∃ value, term = ⟨none, .thunk (some value)⟩ ∧ holds value)
    (hempty : term.isEmpty = true) : term = .empty := by
  rcases h with rfl | ⟨value, rfl, -⟩
  · rfl
  · cases hempty

theorem Term.exists_value (h : term = .empty ∨ ∃ value, term = ⟨none, .thunk (some value)⟩ ∧ holds value)
    (hfilled : term.isEmpty = false) : ∃ value, term = ⟨none, .thunk (some value)⟩ ∧ holds value := by
  rcases h with rfl | h
  · cases hfilled
  · exact h

end

theorem toFunction_eq_ok {result : Except EvalError (Value F R)} {function : Function F R}
    (h : result.bind Value.toFunction = .ok function) : result = .ok (.function function) := by
  obtain ⟨value, rfl, hvalue⟩ := except_bind_eq_ok.mp h
  cases value with
  | number | step => cases hvalue
  | function found =>
      cases hvalue
      rfl

namespace Node

/-- Whether a node gets its value by way of its children. -/
def isCompound {P : Type} : Node P → Bool
  | .name .. | .numeral .. => false
  | .paren .. | .row .. | .block .. => true

/-- The ways to make a node that applies the first of its children to the others. -/
inductive IsApplication {P : Type} : (List (Node P) → P → Node P) → Prop where
  | row (gaps : List String) : IsApplication fun children payload => .row children gaps payload
  | block (indent : Nat) (gaps : List String) : IsApplication fun children payload => .block children indent gaps payload

/-- Three statements about evaluations, of a node, of an application and of nodes from left to right, that are carried on
by every step. Each clause is a way for an evaluation to end, and supposes the statements of those that it has begun. -/
structure Stepwise (dialect : Dialect F R)
    (ofNode : BoundTree F R M → Context R M → Evaluation F R M (Value F R) (BoundTree F R M) → Prop)
    (ofApplication :
      List (BoundTree F R M) → Context R M → Evaluation F R M (Value F R) (List (BoundTree F R M)) → Prop)
    (ofAll : List (BoundTree F R M) → Context R M → Evaluation F R M (List (Value F R)) (List (BoundTree F R M)) → Prop) :
    Prop where
  name (value : String) (term : Term F R M) (context : Context R M) :
    ofNode (.name value term) context (forced (.name value term) context)
  numeral (value : Double) (digits : String) (term : Term F R M) (context : Context R M) :
    ofNode (.numeral value digits term) context ((Node.numeral value digits term).evaluate dialect context)
  /-- A node whose place is filled does not look at its children. -/
  kept (node : BoundTree F R M) (context : Context R M) (hcompound : node.isCompound = true)
    (hfilled : node.payload.isEmpty = false) : ofNode node context (forced node context)
  paren {child : BoundTree F R M} {term : Term F R M} {context : Context R M}
    {inside : Evaluation F R M (Value F R) (BoundTree F R M)} (before behind : String) (hempty : term.isEmpty = true)
    (hinside : ofNode child context inside) :
    ofNode (.paren child before behind term) context
      (inside.keep term fun child term => .paren child before behind term)
  application {rebuild : List (BoundTree F R M) → Term F R M → BoundTree F R M} {children : List (BoundTree F R M)}
    {term : Term F R M} {context : Context R M} {inside : Evaluation F R M (Value F R) (List (BoundTree F R M))}
    (hrebuild : IsApplication rebuild) (hempty : term.isEmpty = true) (hinside : ofApplication children context inside) :
    ofNode (rebuild children term) context (inside.keep term rebuild)
  headless (context : Context R M) : ofApplication [] context ⟨.error (.notCallable "empty application"), [], context⟩
  uncalled {head : BoundTree F R M} {context : Context R M} {called : Evaluation F R M (Value F R) (BoundTree F R M)}
    {error : EvalError} (arguments : List (BoundTree F R M)) (hhead : ofNode head context called)
    (herror : called.result.bind Value.toFunction = .error error) :
    ofApplication (head :: arguments) context ⟨.error error, called.tree :: arguments, called.context⟩
  call {head : BoundTree F R M} {arguments : List (BoundTree F R M)} {context : Context R M}
    {called : Evaluation F R M (Value F R) (BoundTree F R M)} {function : Function F R}
    {given : Evaluation F R M (List (Value F R)) (List (BoundTree F R M))} (hhead : ofNode head context called)
    (hfunction : called.result = .ok (.function function))
    (harguments : ofAll arguments (called.context.enter (function.argumentScope called.context.scope)) given) :
    ofApplication (head :: arguments) context
      (.ofCall (called.tree :: given.tree) given.context.leave
        (given.result.bind fun values => dialect.call function.operation values given.context.leave.scope))
  done (context : Context R M) : ofAll [] context ⟨.ok [], [], context⟩
  broken {node : BoundTree F R M} {context : Context R M} {first : Evaluation F R M (Value F R) (BoundTree F R M)}
    {error : EvalError} (others : List (BoundTree F R M)) (hnode : ofNode node context first)
    (herror : first.result = .error error) :
    ofAll (node :: others) context ⟨.error error, first.tree :: others, first.context⟩
  further {node : BoundTree F R M} {others : List (BoundTree F R M)} {context : Context R M}
    {first : Evaluation F R M (Value F R) (BoundTree F R M)} {value : Value F R}
    {rest : Evaluation F R M (List (Value F R)) (List (BoundTree F R M))} (hnode : ofNode node context first)
    (hvalue : first.result = .ok value) (hothers : ofAll others first.context rest) :
    ofAll (node :: others) context ⟨rest.result.map (value :: ·), first.tree :: rest.tree, rest.context⟩

namespace Stepwise

variable {dialect : Dialect F R}
  {ofNode : BoundTree F R M → Context R M → Evaluation F R M (Value F R) (BoundTree F R M) → Prop}
  {ofApplication :
    List (BoundTree F R M) → Context R M → Evaluation F R M (Value F R) (List (BoundTree F R M)) → Prop}
  {ofAll : List (BoundTree F R M) → Context R M → Evaluation F R M (List (Value F R)) (List (BoundTree F R M)) → Prop}

mutual

/-- What every step carries on holds of all evaluations. -/
theorem evaluate (h : Stepwise dialect ofNode ofApplication ofAll) (node : BoundTree F R M) (context : Context R M) :
    ofNode node context (node.evaluate dialect context) := by
  match node with
  | .name value term => exact h.name value term context
  | .numeral value digits term => exact h.numeral value digits term context
  | .paren child before behind term =>
      by_cases hempty : term.isEmpty = true
      · rw [Node.evaluate, if_pos hempty]
        exact h.paren before behind hempty (evaluate h child context)
      · rw [Node.evaluate, if_neg hempty]
        exact h.kept _ context rfl (eq_false_of_ne_true hempty)
  | .row children gaps term =>
      by_cases hempty : term.isEmpty = true
      · rw [Node.evaluate, if_pos hempty]
        exact h.application (.row gaps) hempty (applyHead h children context)
      · rw [Node.evaluate, if_neg hempty]
        exact h.kept _ context rfl (eq_false_of_ne_true hempty)
  | .block children indent gaps term =>
      by_cases hempty : term.isEmpty = true
      · rw [Node.evaluate, if_pos hempty]
        exact h.application (.block indent gaps) hempty (applyHead h children context)
      · rw [Node.evaluate, if_neg hempty]
        exact h.kept _ context rfl (eq_false_of_ne_true hempty)

theorem applyHead (h : Stepwise dialect ofNode ofApplication ofAll) (children : List (BoundTree F R M))
    (context : Context R M) : ofApplication children context (Node.applyHead dialect children context) := by
  match children with
  | [] => exact h.headless context
  | head :: arguments =>
      have hhead := evaluate h head context
      rw [Node.applyHead]
      cases hfunction : (head.evaluate dialect context).result.bind Value.toFunction with
      | error error => exact h.uncalled arguments hhead hfunction
      | ok function => exact h.call hhead (toFunction_eq_ok hfunction) (evaluateAll h arguments _)

theorem evaluateAll (h : Stepwise dialect ofNode ofApplication ofAll) (nodes : List (BoundTree F R M))
    (context : Context R M) : ofAll nodes context (Node.evaluateAll dialect nodes context) := by
  match nodes with
  | [] => exact h.done context
  | node :: others =>
      have hnode := evaluate h node context
      rw [Node.evaluateAll]
      cases hresult : (node.evaluate dialect context).result with
      | error error => exact h.broken others hnode hresult
      | ok value => exact h.further hnode hresult (evaluateAll h others _)

end

end Stepwise

/-- A place that is filled gives its value, and nothing else is done. -/
theorem forced_of_value {node : BoundTree F R M} {value : Value F R} (h : node.payload = ⟨none, .thunk (some value)⟩)
    (context : Context R M) : forced node context = ⟨.ok value, node, context⟩ := by
  rw [forced, h]
  rfl

end Node

end Cadence
