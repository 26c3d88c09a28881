import Cadence.Double.Decimal

/-! Syntax trees without loss: what a text has between its tokens is kept by the node around them, and
the text can be written from its tree alone. Every node carries a payload: nothing after reading, a term
after names are bound.

An application stands in one line (`row`) or puts its head on a line of its own with the arguments
below it (`block`). Between two children of a row stands a text of spaces; between two children of a
block stands what follows the first one before the line end, and perhaps blank lines. -/

namespace Cadence

inductive Node (P : Type) where
  | name (value : String) (payload : P)
  /-- A numeral: its value and its digits as they are written. -/
  | numeral (value : Double) (digits : String) (payload : P)
  /-- A child in parentheses, with the text before it and the text behind it. -/
  | paren (child : Node P) (before behind : String) (payload : P)
  | row (children : List (Node P)) (gaps : List String) (payload : P)
  /-- The children after the head begin their lines at the column `indent`. -/
  | block (children : List (Node P)) (indent : Nat) (gaps : List String) (payload : P)
  deriving Inhabited

/-- A tree as it is read. -/
abbrev Tree := Node Unit

/-- A whole text: a tree and the white space and comments behind it. -/
structure Document (P : Type) where
  tree : Node P
  trailing : String

namespace Node

variable {P Q : Type}

def payload : Node P → P
  | .name _ payload | .numeral _ _ payload | .paren _ _ _ payload | .row _ _ payload
  | .block _ _ _ payload => payload

def children : Node P → List (Node P)
  | .name .. | .numeral .. => []
  | .paren child _ _ _ => [child]
  | .row children _ _ | .block children _ _ _ => children

def ofName (value : String) : Tree := .name value ()

/-- A numeral with its plain digits. -/
def ofDouble (value : Double) : Tree := .numeral value value.plain ()

def ofParen (child : Tree) : Tree := .paren child "" "" ()

def ofRow (children : List Tree) : Tree := .row children (List.replicate (children.length - 1) " ") ()

def ofBlock (children : List Tree) (indent : Nat) : Tree :=
  .block children indent (List.replicate (children.length - 1) "") ()

mutual

/-- Gives every node the payload that `step` computes for it, a node before its children and the
children from left to right. -/
def mapPayloadM {m : Type → Type} [Monad m] (step : Node P → m Q) : Node P → m (Node Q)
  | .name value payload => do
    return .name value (← step (.name value payload))
  | .numeral value digits payload => do
    return .numeral value digits (← step (.numeral value digits payload))
  | .paren child before behind payload => do
    let payload ← step (.paren child before behind payload)
    return .paren (← child.mapPayloadM step) before behind payload
  | .row children gaps payload => do
    let payload ← step (.row children gaps payload)
    return .row (← mapPayloadsM step children) gaps payload
  | .block children indent gaps payload => do
    let payload ← step (.block children indent gaps payload)
    return .block (← mapPayloadsM step children) indent gaps payload

def mapPayloadsM {m : Type → Type} [Monad m] (step : Node P → m Q) : List (Node P) → m (List (Node Q))
  | [] => return []
  | node :: nodes => do
    let first ← node.mapPayloadM step
    return first :: (← mapPayloadsM step nodes)

end

def mapPayload (step : Node P → Q) (node : Node P) : Node Q := Id.run (node.mapPayloadM (pure ∘ step))

/-- The tree without its payloads. -/
def strip (node : Node P) : Tree := node.mapPayload fun _ => ()

mutual

/-- The nodes of a tree, each before its children. -/
def preorder : Node P → List (Node P)
  | .name value payload => [.name value payload]
  | .numeral value digits payload => [.numeral value digits payload]
  | .paren child before behind payload => .paren child before behind payload :: child.preorder
  | .row children gaps payload => .row children gaps payload :: preorders children
  | .block children indent gaps payload => .block children indent gaps payload :: preorders children

def preorders : List (Node P) → List (Node P)
  | [] => []
  | node :: nodes => node.preorder ++ preorders nodes

end

/-! Numerals are compared as numbers, so a tree with a NaN differs from itself. -/

mutual

def same [BEq P] : Node P → Node P → Bool
  | .name value payload, .name value' payload' => value == value' && payload == payload'
  | .numeral value digits payload, .numeral value' digits' payload' =>
    value.same value' && digits == digits' && payload == payload'
  | .paren child before behind payload, .paren child' before' behind' payload' =>
    child.same child' && before == before' && behind == behind' && payload == payload'
  | .row children gaps payload, .row children' gaps' payload' =>
    allSame children children' && gaps == gaps' && payload == payload'
  | .block children indent gaps payload, .block children' indent' gaps' payload' =>
    allSame children children' && indent == indent' && gaps == gaps' && payload == payload'
  | _, _ => false

def allSame [BEq P] : List (Node P) → List (Node P) → Bool
  | [], [] => true
  | node :: nodes, node' :: nodes' => node.same node' && allSame nodes nodes'
  | _, _ => false

end

instance [BEq P] : BEq (Node P) := ⟨same⟩

end Node

end Cadence
