import Cadence.Program.Binding

/-! The evaluation of bound trees.

An application evaluates its head, then its arguments one after the other in a scope that is made for
them, and then calls the function that the head gave. What an argument changes in that scope is seen by
the arguments behind it and by nothing else. A numeral is what the reading of its scope makes of it.
Nodes with children keep their values; an evaluation therefore leaves a tree, in which the places that
it filled are filled also if it fails later on. -/

namespace Cadence

/-- What an evaluation leaves. -/
structure Evaluation (F R M A B : Type) where
  result : Except EvalError A
  tree : B
  context : Context R M

variable {F R M : Type}

/-- Keeps the value of a node that was computed by way of its children. -/
def Evaluation.keep {B : Type} (evaluation : Evaluation F R M (Value F R) B) (term : Term F R M)
    (rebuild : B → Term F R M → BoundTree F R M) : Evaluation F R M (Value F R) (BoundTree F R M) :=
  ⟨evaluation.result, rebuild evaluation.tree (term.fill evaluation.result), evaluation.context⟩

namespace Node

/-- The value of a node by its term alone. -/
def forced (node : BoundTree F R M) (context : Context R M) :
    Evaluation F R M (Value F R) (BoundTree F R M) :=
  let (result, after) := node.payload.force context
  ⟨result, node, after⟩

mutual

def evaluate (dialect : Dialect F R) (node : BoundTree F R M) (context : Context R M) :
    Evaluation F R M (Value F R) (BoundTree F R M) :=
  match node with
  | .name value term => forced (.name value term) context
  | .numeral value digits term =>
    let literal := forced (.numeral value digits term) context
    let scope := literal.context.scope
    { literal with
      result := do
        let number ← (← literal.result).toNumber
        return dialect.read scope.reading number scope }
  | .paren child before behind term =>
    if term.isEmpty then
      (child.evaluate dialect context).keep term fun child term => .paren child before behind term
    else forced (.paren child before behind term) context
  | .row children gaps term =>
    if term.isEmpty then
      (applyHead dialect children context).keep term fun children term => .row children gaps term
    else forced (.row children gaps term) context
  | .block children indent gaps term =>
    if term.isEmpty then
      (applyHead dialect children context).keep term fun children term => .block children indent gaps term
    else forced (.block children indent gaps term) context

/-- Evaluates the head, then the arguments in a scope of their own, then calls the head's function in
the scope of the application. -/
def applyHead (dialect : Dialect F R) (children : List (BoundTree F R M)) (context : Context R M) :
    Evaluation F R M (Value F R) (List (BoundTree F R M)) :=
  match children with
  | [] => ⟨.error (.notCallable "empty application"), [], context⟩
  | head :: arguments =>
    let called := head.evaluate dialect context
    match called.result.bind Value.toFunction with
    | .error error => ⟨.error error, called.tree :: arguments, called.context⟩
    | .ok function =>
      let scope := function.argumentScope called.context.scope
      let given := evaluateAll dialect arguments (called.context.enter scope)
      let after := given.context.leave
      let children := called.tree :: given.tree
      match given.result.bind fun values => dialect.call function.operation values after.scope with
      | .error error => ⟨.error error, children, after⟩
      | .ok (value, scope) => ⟨.ok value, children, { after with scope }⟩

/-- Evaluates nodes from left to right, up to the first that fails. -/
def evaluateAll (dialect : Dialect F R) (nodes : List (BoundTree F R M)) (context : Context R M) :
    Evaluation F R M (List (Value F R)) (List (BoundTree F R M)) :=
  match nodes with
  | [] => ⟨.ok [], [], context⟩
  | node :: others =>
    let first := node.evaluate dialect context
    match first.result with
    | .error error => ⟨.error error, first.tree :: others, first.context⟩
    | .ok value =>
      let rest := evaluateAll dialect others first.context
      ⟨rest.result.map (value :: ·), first.tree :: rest.tree, rest.context⟩

end

end Node

end Cadence
