import Cadence.Proofs.Double.Sign
import Cadence.Proofs.Tree.Raised
import Cadence.Proofs.Tree.Reading

/-! The shape of what is read, node by node. The trees of the grammar are described from the root downwards, in a
block that is known; a reader of trees meets single nodes, and of what is around a node needs no more than the
column of the nearest block. Every node of a tree that was read has, taken by itself, the children, the gaps and
the column that its kind asks for. -/

namespace Cadence

namespace Node

section

variable {P : Type}

mutual

/-- The nodes of a tree, each with the column of the nearest block around it. Around the whole tree this is
`column`. -/
def placed (column : Nat) : Node P → List (Nat × Node P)
  | .name value payload => [(column, .name value payload)]
  | .numeral value digits payload => [(column, .numeral value digits payload)]
  | .paren child before behind payload =>
    (column, .paren child before behind payload) :: child.placed column
  | .row children gaps payload => (column, .row children gaps payload) :: allPlaced column children
  | .block children indent gaps payload =>
    (column, .block children indent gaps payload) :: allPlaced indent children

def allPlaced (column : Nat) : List (Node P) → List (Nat × Node P)
  | [] => []
  | node :: nodes => node.placed column ++ allPlaced column nodes

end

mutual

/-- No node is left out. -/
theorem map_snd_placed (node : Node P) (column : Nat) : (node.placed column).map (·.2) = node.preorder := by
  match node with
  | .name .. | .numeral .. => rfl
  | .paren child _ _ _ => rw [placed, preorder, List.map_cons, map_snd_placed child]
  | .row children _ _ => rw [placed, preorder, List.map_cons, map_snd_allPlaced children]
  | .block children indent _ _ => rw [placed, preorder, List.map_cons, map_snd_allPlaced children]

theorem map_snd_allPlaced (nodes : List (Node P)) (column : Nat) :
    (allPlaced column nodes).map (·.2) = preorders nodes := by
  match nodes with
  | [] => rfl
  | node :: others =>
      rw [allPlaced, preorders, List.map_append, map_snd_placed node, map_snd_allPlaced others]

end

end

/-- The shape of a node in a block whose lines begin at `column`. Of its children only their kinds are looked
at. -/
def Shaped (column : Nat) : Tree → Prop
  | .name value _ => Lexeme.IsName value.toList
  | .numeral value digits _ =>
    (∀ character ∈ digits.toList, character.isDigit = true ∨ character = '.') ∧
      digits.toList.count '.' ≤ 1 ∧ value.negative = false ∧ value.isNaN = false
  | .paren child before behind _ =>
    child.isLine = true ∧ Lexeme.IsSpaces before.toList ∧ Lexeme.IsSpaces behind.toList
  | .row children gaps _ =>
    2 ≤ children.length ∧ (∀ child ∈ children, child.isAtom = true) ∧
      gaps.length + 1 = children.length ∧ ∀ gap ∈ gaps, Lexeme.IsSpaces gap.toList
  | .block children indent gaps _ =>
    2 ≤ children.length ∧ (∀ head ∈ children.head?, head.isLine = true) ∧
      gaps.length + 1 = children.length ∧ column < indent

theorem Spaced.isSpaces {children : List Tree} {gaps : List String} (h : Spaced children gaps) :
    ∀ gap ∈ gaps, Lexeme.IsSpaces gap.toList := by
  induction gaps generalizing children with
  | nil => simp
  | cons gap gaps ih =>
      match children with
      | _ :: next :: others =>
          obtain ⟨hgap, -, hspaced⟩ := h
          exact List.forall_mem_cons.mpr ⟨hgap, ih hspaced⟩

end Node

namespace Lexeme

/-- Digits hold a point once at most. -/
theorem Denotes.count_point {digits : List Char} {decimal : Decimal} (h : Denotes digits decimal) :
    (∀ character ∈ digits, character.isDigit = true ∨ character = '.') ∧ digits.count '.' ≤ 1 := by
  have hnone {text : List Char} (hdigits : ∀ character ∈ text, character.isDigit = true) :
      text.count '.' = 0 :=
    List.count_eq_zero.mpr fun hmem => absurd (hdigits '.' hmem) (by decide)
  cases h with
  | whole _ hdigits =>
      rw [hnone hdigits]
      exact ⟨fun character hmem => Or.inl (hdigits character hmem), Nat.zero_le 1⟩
  | pointed _ hdigits =>
      obtain ⟨hwhole, hfraction⟩ := List.forall_mem_append.mp hdigits
      rw [List.count_append, List.count_cons_self, hnone hwhole, hnone hfraction]
      refine ⟨List.forall_mem_append.mpr ⟨fun character hmem => Or.inl (hwhole character hmem), ?_⟩,
        Nat.le_refl 1⟩
      exact List.forall_mem_cons.mpr ⟨Or.inr rfl, fun character hmem => Or.inl (hfraction character hmem)⟩

end Lexeme

namespace Node

mutual

/-- All nodes of a tree of the grammar are shaped. The head of a block stands in one line, so that of all
blocks only its arguments care about the new column. -/
theorem WellFormed.placed {node : Tree} {column : Nat} (h : node.WellFormed column) :
    ∀ place ∈ node.placed column, place.2.Shaped place.1 := by
  match node with
  | .name value _ => exact List.forall_mem_singleton.mpr h
  | .numeral value digits _ =>
      obtain ⟨decimal, hdigits, rfl⟩ := h
      obtain ⟨hcharacters, hpoint⟩ := hdigits.count_point
      exact List.forall_mem_singleton.mpr
        ⟨hcharacters, hpoint, decimal.negative_toDouble, decimal.isNaN_toDouble⟩
  | .paren child before behind _ =>
      obtain ⟨hbefore, hbehind, hline, hchild⟩ := h
      exact List.forall_mem_cons.mpr ⟨⟨hline, hbefore, hbehind⟩, WellFormed.placed hchild⟩
  | .row [] gaps _ => exact absurd h.1 (by simp)
  | .row (head :: arguments) gaps _ =>
      obtain ⟨htwo, hatoms, hspaced, hchildren⟩ := h
      have hcount : gaps.length + 1 = (head :: arguments).length := congrArg (· + 1) hspaced.length_eq
      exact List.forall_mem_cons.mpr
        ⟨⟨htwo, hatoms, hcount, hspaced.isSpaces⟩, AllWellFormed.placed hchildren⟩
  | .block [] indent gaps _ => exact h.2.2.2.2.elim
  | .block (head :: arguments) indent gaps _ =>
      obtain ⟨hindent, htwo, hcount, -, hline, hhead, harguments⟩ := h
      have hshaped : (Node.block (head :: arguments) indent gaps ()).Shaped column := by
        refine ⟨htwo, ?_, hcount, hindent⟩
        rintro _ ⟨⟩
        exact hline
      refine List.forall_mem_cons.mpr ⟨hshaped, List.forall_mem_append.mpr ⟨?_, ?_⟩⟩
      · exact WellFormed.placed (hhead.atColumn hline indent)
      · exact AllWellFormed.placed harguments

theorem AllWellFormed.placed {nodes : List Tree} {column : Nat} (h : AllWellFormed column nodes) :
    ∀ place ∈ allPlaced column nodes, place.2.Shaped place.1 := by
  match nodes with
  | [] => exact fun _ hplace => absurd hplace List.not_mem_nil
  | node :: others =>
      exact List.forall_mem_append.mpr ⟨WellFormed.placed h.1, AllWellFormed.placed h.2⟩

end

end Node

namespace Grammar

/-- Every node of a tree that was read is shaped as its kind asks. Of a program this is said of its expressions:
the block around them has the head `do` and column zero, and a gap for each of them. -/
theorem shaped_of_read (text : String) :
    (∀ document, readExpression text = .ok document →
      ∀ place ∈ document.tree.placed 0, place.2.Shaped place.1) ∧
    ∀ document, readProgram text = .ok document →
      ∃ expressions gaps, document.tree = .block (.name "do" () :: expressions) 0 gaps () ∧
        expressions ≠ [] ∧ gaps.length = expressions.length ∧
        ∀ place ∈ Node.allPlaced 0 expressions, place.2.Shaped place.1 := by
  constructor
  · intro document hread
    exact Node.WellFormed.placed (readExpression_eq_ok hread).1.1
  · rintro ⟨tree, trailing⟩ hread
    have hprogram := (readProgram_eq_ok hread).1.1
    match tree, hprogram with
    | .block (.name _ _ :: first :: others) _ (leading :: gaps) _,
      ⟨rfl, rfl, _, hcount, _, hfirst, hothers⟩ =>
        have hall : Node.AllWellFormed 0 (first :: others) := ⟨hfirst, hothers⟩
        have hgaps : (leading :: gaps).length = (first :: others).length := congrArg (· + 1) hcount
        exact ⟨first :: others, leading :: gaps, rfl, List.cons_ne_nil _ _, hgaps, hall.placed⟩

/-- Blocks in blocks, one of them below a row, with a numeral and a parenthesis that nothing separates. -/
def stairs : String := "stack # two\n  alt( .5 )7 1.25\n    do\n        m\n  note (add 2)\n"

theorem shaped_of_read_stairs :
    (∃ document, readExpression stairs = .ok document ∧
      ∀ place ∈ document.tree.placed 0, place.2.Shaped place.1) ∧
    ∃ document, readProgram stairs = .ok document ∧
      ∃ expressions gaps, document.tree = .block (.name "do" () :: expressions) 0 gaps () ∧
        expressions ≠ [] ∧ gaps.length = expressions.length ∧
        ∀ place ∈ Node.allPlaced 0 expressions, place.2.Shaped place.1 := by
  have hexpression : (readExpression stairs).toOption.map (fun _ => ()) = some () := by decide +kernel
  have hprogram : (readProgram stairs).toOption.map (fun _ => ()) = some () := by decide +kernel
  obtain ⟨expression, hexpression, -⟩ := exists_ok_of_map hexpression
  obtain ⟨program, hprogram, -⟩ := exists_ok_of_map hprogram
  exact ⟨⟨expression, hexpression, (shaped_of_read stairs).1 expression hexpression⟩,
    ⟨program, hprogram, (shaped_of_read stairs).2 program hprogram⟩⟩

end Grammar

end Cadence
