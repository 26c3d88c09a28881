import Cadence.Tree.Canonical

/-! Trees without their surface. Parentheses, gaps, columns and the digits of numerals are taken off, and every
application is put on one line; the canonical layout of a tree leaves the same. Trees are equal or not by a
test, so that what is left of two of them can be compared. -/

namespace Cadence.Node

variable {P : Type}

mutual

/-- What is left of a tree without parentheses and layout. -/
def erased : Node P → Node P
  | .name value payload => .name value payload
  | .numeral value _ payload => .numeral value "" payload
  | .paren child _ _ _ => child.erased
  | .row children _ payload | .block children _ _ payload => .row (erasedAll children) [] payload

def erasedAll : List (Node P) → List (Node P)
  | [] => []
  | node :: nodes => node.erased :: erasedAll nodes

end

@[simp] theorem length_erasedAll (nodes : List (Node P)) : (erasedAll nodes).length = nodes.length := by
  induction nodes with
  | nil => rfl
  | cons node nodes ih => rw [erasedAll, List.length_cons, List.length_cons, ih]

mutual

theorem erased_canonicalAt (column : Nat) (node : Node P) : (node.canonicalAt column).erased = node.erased := by
  match node with
  | .name .. | .numeral .. => rfl
  | .paren child _ _ _ => exact erased_canonicalAt column child
  | .row children _ _ => simp only [canonicalAt, erased, erasedAll_canonicalsAt column children]
  | .block [] _ _ _ => rfl
  | .block (head :: arguments) _ _ _ =>
      simp only [canonicalAt, erased, erasedAll, erased_canonicalAt column head,
        erasedAll_canonicalsAt (column + 2) arguments]

theorem erasedAll_canonicalsAt (column : Nat) (nodes : List (Node P)) :
    erasedAll (canonicalsAt column nodes) = erasedAll nodes := by
  match nodes with
  | [] => rfl
  | node :: nodes =>
      simp only [canonicalsAt, erasedAll, erased_canonicalAt column node, erasedAll_canonicalsAt column nodes]

end

/-- The canonical layout is another surface of the same tree. -/
theorem erased_canonicalProgram (node : Node P) : node.canonicalProgram.erased = node.erased := by
  match node with
  | .block children _ _ _ => simp only [canonicalProgram, erased, erasedAll_canonicalsAt]
  | .name .. | .numeral .. => rfl
  | .paren child before behind payload => exact erased_canonicalAt 0 (.paren child before behind payload)
  | .row children gaps payload => exact erased_canonicalAt 0 (.row children gaps payload)

mutual

def decideEq [DecidableEq P] (node other : Node P) : Decidable (node = other) :=
  match node, other with
  | .name value payload, .name value' payload' =>
    decidable_of_iff (value = value' ∧ payload = payload') (by simp)
  | .numeral value digits payload, .numeral value' digits' payload' =>
    decidable_of_iff (value = value' ∧ digits = digits' ∧ payload = payload') (by simp)
  | .paren child before behind payload, .paren child' before' behind' payload' =>
    have := decideEq child child'
    decidable_of_iff (child = child' ∧ before = before' ∧ behind = behind' ∧ payload = payload') (by simp)
  | .row children gaps payload, .row children' gaps' payload' =>
    have := decideEqAll children children'
    decidable_of_iff (children = children' ∧ gaps = gaps' ∧ payload = payload') (by simp)
  | .block children indent gaps payload, .block children' indent' gaps' payload' =>
    have := decideEqAll children children'
    decidable_of_iff (children = children' ∧ indent = indent' ∧ gaps = gaps' ∧ payload = payload') (by simp)
  | .name .., .numeral .. | .name .., .paren .. | .name .., .row .. | .name .., .block ..
  | .numeral .., .name .. | .numeral .., .paren .. | .numeral .., .row .. | .numeral .., .block ..
  | .paren .., .name .. | .paren .., .numeral .. | .paren .., .row .. | .paren .., .block ..
  | .row .., .name .. | .row .., .numeral .. | .row .., .paren .. | .row .., .block ..
  | .block .., .name .. | .block .., .numeral .. | .block .., .paren .. | .block .., .row .. =>
    .isFalse (by simp)

def decideEqAll [DecidableEq P] (nodes others : List (Node P)) : Decidable (nodes = others) :=
  match nodes, others with
  | [], [] => .isTrue rfl
  | [], _ :: _ | _ :: _, [] => .isFalse (by simp)
  | node :: nodes, other :: others =>
    have := decideEq node other
    have := decideEqAll nodes others
    decidable_of_iff (node = other ∧ nodes = others) (by simp)

end

instance [DecidableEq P] : DecidableEq (Node P) := decideEq

end Cadence.Node
