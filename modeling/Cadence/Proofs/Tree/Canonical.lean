import Cadence.Proofs.Tree.Erased
import Mathlib.Data.List.Forall2

/-! The canonical layout as a canonical form. Of the old layout nothing is left, not even where a tree has too many gaps
or too few, and nothing but the layout is touched: two trees have the same canonical layout if and only if they are alike
in everything else. -/

namespace Cadence.Node

variable {P : Type}

/-- Trees that are the same but for their gaps and columns. -/
inductive Alike : Node P → Node P → Prop where
  | name (value : String) (payload : P) : Alike (.name value payload) (.name value payload)
  | numeral (value : Double) (digits : String) (payload : P) :
    Alike (.numeral value digits payload) (.numeral value digits payload)
  | paren {child other : Node P} (h : Alike child other) (before behind before' behind' : String) (payload : P) :
    Alike (.paren child before behind payload) (.paren other before' behind' payload)
  | row {children others : List (Node P)} (h : List.Forall₂ Alike children others) (gaps gaps' : List String)
    (payload : P) : Alike (.row children gaps payload) (.row others gaps' payload)
  | block {children others : List (Node P)} (h : List.Forall₂ Alike children others) (indent indent' : Nat)
    (gaps gaps' : List String) (payload : P) :
    Alike (.block children indent gaps payload) (.block others indent' gaps' payload)

mutual

theorem Alike.symm {node other : Node P} (h : node.Alike other) : other.Alike node := by
  match node with
  | .name .. | .numeral .. =>
      cases h
      constructor
  | .paren child _ _ _ =>
      cases h with
      | paren hchild => exact .paren hchild.symm _ _ _ _ _
  | .row children _ _ =>
      cases h with
      | row hchildren => exact .row (forall₂_alike_symm hchildren) _ _ _
  | .block children _ _ _ =>
      cases h with
      | block hchildren => exact .block (forall₂_alike_symm hchildren) _ _ _ _ _

theorem forall₂_alike_symm {nodes others : List (Node P)} (h : List.Forall₂ Alike nodes others) :
    List.Forall₂ Alike others nodes := by
  match nodes with
  | [] =>
      cases h
      exact .nil
  | node :: nodes =>
      cases h with
      | cons hnode hnodes => exact .cons hnode.symm (forall₂_alike_symm hnodes)

end

mutual

theorem Alike.trans {node other last : Node P} (h : node.Alike other) (h' : other.Alike last) : node.Alike last := by
  match node with
  | .name .. | .numeral .. =>
      cases h
      exact h'
  | .paren child _ _ _ =>
      cases h with
      | paren hchild =>
          cases h' with
          | paren hother => exact .paren (hchild.trans hother) _ _ _ _ _
  | .row children _ _ =>
      cases h with
      | row hchildren =>
          cases h' with
          | row hothers => exact .row (forall₂_alike_trans hchildren hothers) _ _ _
  | .block children _ _ _ =>
      cases h with
      | block hchildren =>
          cases h' with
          | block hothers => exact .block (forall₂_alike_trans hchildren hothers) _ _ _ _ _

theorem forall₂_alike_trans {nodes others lasts : List (Node P)} (h : List.Forall₂ Alike nodes others)
    (h' : List.Forall₂ Alike others lasts) : List.Forall₂ Alike nodes lasts := by
  match nodes with
  | [] =>
      cases h
      exact h'
  | node :: nodes =>
      cases h with
      | cons hnode hnodes =>
          cases h' with
          | cons hother hothers => exact .cons (hnode.trans hother) (forall₂_alike_trans hnodes hothers)

end

mutual

theorem alike_canonicalAt (column : Nat) (node : Node P) : (node.canonicalAt column).Alike node := by
  match node with
  | .name .. | .numeral .. => constructor
  | .paren child _ _ _ => exact .paren (alike_canonicalAt column child) _ _ _ _ _
  | .row children _ _ => exact .row (alike_canonicalsAt column children) _ _ _
  | .block [] _ _ _ => exact .block .nil _ _ _ _ _
  | .block (head :: arguments) _ _ _ =>
      exact .block (.cons (alike_canonicalAt column head) (alike_canonicalsAt (column + 2) arguments)) _ _ _ _ _

theorem alike_canonicalsAt (column : Nat) (nodes : List (Node P)) :
    List.Forall₂ Alike (canonicalsAt column nodes) nodes := by
  match nodes with
  | [] => exact .nil
  | node :: nodes => exact .cons (alike_canonicalAt column node) (alike_canonicalsAt column nodes)

end

theorem alike_canonicalProgram (node : Node P) : node.canonicalProgram.Alike node := by
  cases node with
  | block children => exact .block (alike_canonicalsAt 0 children) _ _ _ _ _
  | name | numeral | paren | row => exact alike_canonicalAt 0 _

theorem gapsBetween_eq {nodes others : List (Node P)} (h : nodes.length = others.length) (gap : String) :
    gapsBetween nodes gap = gapsBetween others gap := by
  rw [gapsBetween, gapsBetween, h]

mutual

theorem Alike.canonicalAt_eq {node other : Node P} (h : node.Alike other) (column : Nat) :
    node.canonicalAt column = other.canonicalAt column := by
  match node with
  | .name .. | .numeral .. =>
      cases h
      rfl
  | .paren child _ _ _ =>
      cases h with
      | paren hchild => rw [canonicalAt, canonicalAt, hchild.canonicalAt_eq column]
  | .row children _ _ =>
      cases h with
      | row hchildren =>
          rw [canonicalAt, canonicalAt, canonicalsAt_eq hchildren column, gapsBetween_eq hchildren.length_eq]
  | .block [] _ _ _ =>
      cases h with
      | block hchildren =>
          cases hchildren
          rfl
  | .block (head :: arguments) _ _ _ =>
      cases h with
      | block hchildren =>
          have hgaps := gapsBetween_eq hchildren.length_eq ""
          cases hchildren with
          | cons hhead harguments =>
              simp only [canonicalAt, hgaps, hhead.canonicalAt_eq column, canonicalsAt_eq harguments (column + 2)]

theorem canonicalsAt_eq {nodes others : List (Node P)} (h : List.Forall₂ Alike nodes others) (column : Nat) :
    canonicalsAt column nodes = canonicalsAt column others := by
  match nodes with
  | [] =>
      cases h
      rfl
  | node :: nodes =>
      cases h with
      | cons hnode hnodes => rw [canonicalsAt, canonicalsAt, hnode.canonicalAt_eq column, canonicalsAt_eq hnodes column]

end

theorem Alike.canonicalProgram_eq {node other : Node P} (h : node.Alike other) :
    node.canonicalProgram = other.canonicalProgram := by
  cases h with
  | name | numeral => rfl
  | paren hchild before behind before' behind' payload =>
      exact (Alike.paren hchild before behind before' behind' payload).canonicalAt_eq 0
  | row hchildren gaps gaps' payload => exact (Alike.row hchildren gaps gaps' payload).canonicalAt_eq 0
  | block hchildren =>
      rw [canonicalProgram, canonicalProgram, canonicalsAt_eq hchildren 0, gapsBetween_eq hchildren.length_eq]

/-- A way to lay out trees that leaves all but the layout as it is, and does not look at the layout. -/
structure LaysOut (layOut : Node P → Node P) : Prop where
  alike (node : Node P) : (layOut node).Alike node
  eq_of_alike {node other : Node P} (h : node.Alike other) : layOut node = layOut other

theorem laysOut_canonical : LaysOut (canonical : Node P → Node P) where
  alike := alike_canonicalAt 0
  eq_of_alike h := h.canonicalAt_eq 0

theorem laysOut_canonicalProgram : LaysOut (canonicalProgram : Node P → Node P) where
  alike := alike_canonicalProgram
  eq_of_alike h := h.canonicalProgram_eq

section

variable {layOut : Node P → Node P} (h : LaysOut layOut)

include h

theorem LaysOut.eq_iff (node other : Node P) : layOut node = layOut other ↔ node.Alike other := by
  constructor
  · intro hsame
    have hother := h.alike other
    rw [← hsame] at hother
    exact (h.alike node).symm.trans hother
  · exact h.eq_of_alike

theorem LaysOut.idempotent (node : Node P) : layOut (layOut node) = layOut node := h.eq_of_alike (h.alike node)

end

instance [DecidableEq P] : DecidableRel (Alike : Node P → Node P → Prop) := fun node other =>
  decidable_of_iff _ (laysOut_canonical.eq_iff node other)

/-- The canonical layout of an expression, and that of a program, is a canonical form of trees whose layout does not
count: it is alike to the tree, the same for all trees alike and for no others, and laid out already. -/
theorem canonical_form :
    (∀ node other : Node P, node.canonical = other.canonical ↔ node.Alike other) ∧
      (∀ node : Node P, node.canonical.Alike node ∧ node.canonical.canonical = node.canonical) ∧
      (∀ node other : Node P, node.canonicalProgram = other.canonicalProgram ↔ node.Alike other) ∧
      ∀ node : Node P, node.canonicalProgram.Alike node ∧
        node.canonicalProgram.canonicalProgram = node.canonicalProgram :=
  ⟨laysOut_canonical.eq_iff, fun node => ⟨laysOut_canonical.alike node, laysOut_canonical.idempotent node⟩,
    laysOut_canonicalProgram.eq_iff,
    fun node => ⟨laysOut_canonicalProgram.alike node, laysOut_canonicalProgram.idempotent node⟩⟩

/-- A row with gaps too many is another layout of the usual one, and a block is not. -/
example :
    (row [ofName "i", ofName "m"] ["   ", "", " "] ()).Alike (ofRow [ofName "i", ofName "m"]) ∧
      ¬ (ofBlock [ofName "i", ofName "m"] 2).Alike (ofRow [ofName "i", ofName "m"]) := by decide

end Cadence.Node
