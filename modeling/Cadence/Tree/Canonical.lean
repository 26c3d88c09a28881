import Cadence.Tree.Basic

/-! The canonical layout of a tree. Every gap follows from the shape of the tree: a space between the
children of a row, nothing around a child in parentheses, and only a line end between the children of a
block, whose lines stand two columns further in than the line of the head. Nothing but gaps and columns
changes. -/

namespace Cadence.Node

variable {P : Type}

/-- The gaps between so many children, all alike. -/
def gapsBetween (children : List (Node P)) (gap : String) : List String :=
  List.replicate (children.length - 1) gap

mutual

/-- The canonical layout of a node on a line that begins at `column`. -/
def canonicalAt (column : Nat) : Node P → Node P
  | .name value payload => .name value payload
  | .numeral value digits payload => .numeral value digits payload
  | .paren child _ _ payload => .paren (child.canonicalAt column) "" "" payload
  | .row children _ payload =>
    .row (canonicalsAt column children) (gapsBetween children " ") payload
  | .block children _ _ payload =>
    let laidOut :=
      match children with
      | [] => []
      | head :: arguments => head.canonicalAt column :: canonicalsAt (column + 2) arguments
    .block laidOut (column + 2) (gapsBetween children "") payload

def canonicalsAt (column : Nat) : List (Node P) → List (Node P)
  | [] => []
  | node :: nodes => node.canonicalAt column :: canonicalsAt column nodes

end

/-- The canonical layout of an expression. -/
def canonical (node : Node P) : Node P := node.canonicalAt 0

/-- The canonical layout of a program: the lines of its outer block begin at column zero. -/
def canonicalProgram (node : Node P) : Node P :=
  match node with
  | .block children _ _ payload => .block (canonicalsAt 0 children) 0 (gapsBetween children "") payload
  | other => other.canonical

end Cadence.Node
