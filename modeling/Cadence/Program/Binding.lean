import Cadence.Program.Term
import Cadence.Tree.Basic

/-! Binding the names of a tree: every node gets a term. -/

namespace Cadence

/-- The names that a program can use. -/
abbrev Bindings (F R M : Type) := List (String × Term F R M)

/-- A tree whose nodes carry their terms. -/
abbrev BoundTree (F R M : Type) := Node (Term F R M)

/-- A name that stands for nothing. -/
structure UnboundVariable where
  name : String
  deriving DecidableEq

def UnboundVariable.text (error : UnboundVariable) : String := "Could not resolve variable " ++ error.name

variable {F R M : Type}

/-- The term of one node: what a name is bound to, a numeral's value, and else an empty place. -/
def Bindings.term (bindings : Bindings F R M) : Tree → Except UnboundVariable (Term F R M)
  | .name value _ => ((bindings.lookup value).map Except.ok).getD (.error ⟨value⟩)
  | .numeral value _ _ => .ok (.ofNumber value)
  | .paren .. | .row .. | .block .. => .ok .empty

/-- Gives every node of a tree its term. Nothing is evaluated. -/
def Bindings.bind (bindings : Bindings F R M) (tree : Tree) : Except UnboundVariable (BoundTree F R M) :=
  tree.mapPayloadM bindings.term

end Cadence
