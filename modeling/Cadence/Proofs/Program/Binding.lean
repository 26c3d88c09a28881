import Cadence.Proofs.Program.Memoized
import Cadence.Proofs.Program.Parts

/-! Binding as a whole. The names of a tree are looked up in the order of the text, and the first one that stands for
nothing ends the search. If all of them stand for something, binding gives back the same tree, every node with the term
that is due to it; a place is a part of its node, so no two nodes share one. -/

namespace Cadence

open Node

variable {F R M : Type}

/-- The first of some names that stands for nothing. -/
def Bindings.firstUnbound? (bindings : Bindings F R M) (names : List String) : Option String :=
  names.find? fun name => (bindings.lookup name).isNone

/-- The name at which binding failed, if it did. -/
def unboundName? {A : Type} : Except UnboundVariable A → Option String
  | .ok _ => none
  | .error error => some error.name

variable {bindings : Bindings F R M}

theorem firstUnbound_append (names others : List String) :
    bindings.firstUnbound? (names ++ others) =
      (bindings.firstUnbound? names).or (bindings.firstUnbound? others) :=
  List.find?_append

theorem firstUnbound_eq_none {names : List String} :
    bindings.firstUnbound? names = none ↔ ∀ name ∈ names, ∃ term, bindings.lookup name = some term := by
  rw [Bindings.firstUnbound?, List.find?_eq_none]
  refine forall₂_congr fun name _ => ?_
  rw [Option.isNone_iff_eq_none, Option.eq_none_iff_forall_ne_some, not_forall_not]

theorem firstUnbound_eq_some {names : List String} {name : String} :
    bindings.firstUnbound? names = some name ↔
      ∃ before behind, names = before ++ name :: behind ∧ bindings.lookup name = none ∧
        ∀ other ∈ before, ∃ term, bindings.lookup other = some term := by
  rw [Bindings.firstUnbound?, List.find?_eq_some_iff_append]
  constructor
  · rintro ⟨hname, before, behind, hnames, hbefore⟩
    refine ⟨before, behind, hnames, Option.isNone_iff_eq_none.mp hname, fun other hother => ?_⟩
    exact Option.isSome_iff_exists.mp (by simpa using hbefore other hother)
  · rintro ⟨before, behind, hnames, hname, hbefore⟩
    refine ⟨Option.isNone_iff_eq_none.mpr hname, before, behind, hnames, fun other hother => ?_⟩
    simpa using Option.isSome_iff_exists.mpr (hbefore other hother)

namespace Node

mutual

/-- Binding fails at the first name that stands for nothing, or not at all. -/
theorem unboundName_mapPayloadM (tree : Tree) :
    unboundName? (tree.mapPayloadM bindings.term) = bindings.firstUnbound? tree.names := by
  match tree with
  | .name value _ =>
      rw [names, Bindings.firstUnbound?, List.find?_singleton, mapPayloadM, Bindings.term]
      cases bindings.lookup value <;> rfl
  | .numeral .. => rfl
  | .paren child _ _ _ =>
      rw [names, ← unboundName_mapPayloadM child, mapPayloadM]
      cases child.mapPayloadM bindings.term <;> rfl
  | .row children _ _ | .block children _ _ _ =>
      rw [names, ← unboundName_mapPayloadsM children, mapPayloadM]
      cases mapPayloadsM bindings.term children <;> rfl

theorem unboundName_mapPayloadsM (trees : List Tree) :
    unboundName? (mapPayloadsM bindings.term trees) = bindings.firstUnbound? (allNames trees) := by
  match trees with
  | [] => rfl
  | tree :: trees =>
      -- The others are only looked at if the first tree has no failure, which is what "or" says of names.
      rw [allNames, firstUnbound_append, ← unboundName_mapPayloadM tree, ← unboundName_mapPayloadsM trees,
        mapPayloadsM]
      cases tree.mapPayloadM bindings.term with
      | error error => rfl
      | ok first => cases mapPayloadsM bindings.term trees <;> rfl

end

end Node

theorem bind_eq_error {tree : Tree} {name : String} :
    bindings.bind tree = .error ⟨name⟩ ↔ bindings.firstUnbound? tree.names = some name := by
  rw [← unboundName_mapPayloadM, Bindings.bind]
  cases tree.mapPayloadM bindings.term with
  | error error =>
      obtain ⟨found⟩ := error
      simp [unboundName?]
  | ok bound => simp [unboundName?]

theorem exists_bind {tree : Tree} :
    (∃ bound, bindings.bind tree = .ok bound) ↔ ∀ name ∈ tree.names, ∃ term, bindings.lookup name = some term := by
  rw [← firstUnbound_eq_none, ← unboundName_mapPayloadM, Bindings.bind]
  cases tree.mapPayloadM bindings.term with
  | error error => simp [unboundName?]
  | ok bound => simp [unboundName?]

namespace Node

mutual

/-- A tree in which every node carries its term is what binding makes of the tree below it. -/
theorem bind_strip_of_fresh {bound : BoundTree F R M} (h : bound.Fresh bindings) :
    bound.strip.mapPayloadM bindings.term = .ok bound := by
  match bound with
  | .name value term =>
      have hterm : bindings.term (.name value ()) = .ok term := by
        rw [Bindings.term, h]
        rfl
      have hstrip : (Node.name value term).strip = .name value () := rfl
      rw [hstrip, mapPayloadM, hterm]
      rfl
  | .numeral value digits term =>
      cases h
      rfl
  | .paren child before behind term =>
      obtain ⟨rfl, hchild⟩ := h
      rw [strip_paren, mapPayloadM, bind_strip_of_fresh hchild]
      rfl
  | .row children gaps term =>
      obtain ⟨rfl, hchildren⟩ := h
      rw [strip_row, mapPayloadM, bind_strip_of_allFresh hchildren]
      rfl
  | .block children indent gaps term =>
      obtain ⟨rfl, hchildren⟩ := h
      rw [strip_block, mapPayloadM, bind_strip_of_allFresh hchildren]
      rfl

theorem bind_strip_of_allFresh {bound : List (BoundTree F R M)} (h : AllFresh bindings bound) :
    mapPayloadsM bindings.term (bound.map strip) = .ok bound := by
  match bound with
  | [] => rfl
  | node :: others =>
      rw [List.map_cons, mapPayloadsM, bind_strip_of_fresh h.1, bind_strip_of_allFresh h.2]
      rfl

end

end Node

/-- Binding is exact, whatever the names stand for. It succeeds if all names of the tree stand for something; else it
reports the one that comes first in the text and stands for nothing. What it gives is the same tree in which every name
has the term that it stands for, every numeral its number, and every node with children an empty place of its own;
and there is one such tree at most. -/
theorem bind_exact (bindings : Bindings F R M) (tree : Tree) :
    ((∃ bound, bindings.bind tree = .ok bound) ↔
        ∀ name ∈ tree.names, ∃ term, bindings.lookup name = some term) ∧
      (∀ name, bindings.bind tree = .error ⟨name⟩ ↔
        ∃ before behind, tree.names = before ++ name :: behind ∧ bindings.lookup name = none ∧
          ∀ other ∈ before, ∃ term, bindings.lookup other = some term) ∧
      ∀ bound, bindings.bind tree = .ok bound ↔ bound.strip = tree ∧ bound.Fresh bindings := by
  refine ⟨exists_bind, fun name => bind_eq_error.trans firstUnbound_eq_some, fun bound => ⟨fun h => ?_, ?_⟩⟩
  · exact ⟨(strip_of_mapPayloadM h).trans (strip_tree tree), fresh_of_bind h⟩
  · rintro ⟨rfl, hfresh⟩
    exact bind_strip_of_fresh hfresh

example : (Vocabulary.bindings : Bindings Operation Reading Unit).bind
    (ofRow [ofName "stack", ofParen (ofRow [ofName "i", ofName "left"]), ofName "right"]) = .error ⟨"left"⟩ := by rfl

end Cadence
