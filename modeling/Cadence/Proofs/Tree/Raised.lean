import Cadence.Proofs.Source.Inset
import Cadence.Proofs.Tree.WellFormed

/-! Trees that are moved to the right. Nothing but blocks knows of columns: their lines begin further to the
right, and the lines of their gaps too. The text of the moved tree is the moved text of the tree, and a tree of
the grammar stays one, in a block that is moved with it. -/

namespace Cadence.Node

section

variable {P : Type} (columns : Nat)

mutual

/-- A tree whose blocks are moved to the right. The heads of blocks stand in one line. -/
def raised : Node P → Node P
  | .block (head :: arguments) indent gaps payload =>
    .block (head :: raisedAll arguments) (indent + columns) (gaps.map (insetRest columns)) payload
  | .block [] indent gaps payload => .block [] indent gaps payload
  | .name value payload => .name value payload
  | .numeral value digits payload => .numeral value digits payload
  | .paren child before behind payload => .paren child before behind payload
  | .row children gaps payload => .row children gaps payload

def raisedAll : List (Node P) → List (Node P)
  | [] => []
  | node :: nodes => node.raised :: raisedAll nodes

end

@[simp] theorem length_raisedAll (nodes : List (Node P)) : (raisedAll columns nodes).length = nodes.length := by
  induction nodes with
  | nil => rfl
  | cons node nodes ih => rw [raisedAll, List.length_cons, List.length_cons, ih]

theorem raised_of_isLine {tree : Tree} (h : tree.isLine = true) : tree.raised columns = tree := by
  cases tree with
  | name | numeral | paren | row => rw [raised]
  | block => cases h

end

mutual

/-- The column does not matter to what stands in one line. -/
theorem WellFormed.atColumn {column : Nat} {tree : Tree} (h : tree.WellFormed column)
    (hline : tree.isLine = true) (target : Nat) : tree.WellFormed target := by
  match tree with
  | .name .. | .numeral .. => exact h
  | .paren child before behind _ =>
      obtain ⟨hbefore, hbehind, hchild, hinside⟩ := h
      exact ⟨hbefore, hbehind, hchild, hinside.atColumn hchild target⟩
  | .row children gaps _ =>
      obtain ⟨htwo, hatoms, hspaced, hchildren⟩ := h
      exact ⟨htwo, hatoms, hspaced, AllWellFormed.atColumn hchildren hatoms target⟩
  | .block .. => cases hline

theorem AllWellFormed.atColumn {column : Nat} {trees : List Tree} (h : AllWellFormed column trees)
    (hatoms : ∀ tree ∈ trees, tree.isAtom = true) (target : Nat) : AllWellFormed target trees := by
  match trees with
  | [] => trivial
  | tree :: others =>
      obtain ⟨hatom, hothers⟩ := List.forall_mem_cons.mp hatoms
      exact ⟨WellFormed.atColumn h.1 (isLine_of_isAtom hatom) target,
        AllWellFormed.atColumn h.2 hothers target⟩

end

mutual

/-- What stands in one line has no line end. -/
theorem WellFormed.noNewline {column : Nat} {tree : Tree} (h : tree.WellFormed column)
    (hline : tree.isLine = true) : '\n' ∉ tree.written.toList := by
  match tree with
  | .name _ _ => exact Lexeme.IsName.noNewline h
  | .numeral _ _ _ =>
      obtain ⟨_, hdigits, -⟩ := h
      exact hdigits.noNewline
  | .paren child before behind _ =>
      obtain ⟨hbefore, hbehind, hchild, hinside⟩ := h
      have hnone := hinside.noNewline hchild
      simp [written, hbefore.noNewline, hbehind.noNewline, hnone]
  | .row [] _ _ =>
      obtain ⟨htwo, -⟩ := h
      exact absurd htwo (by simp)
  | .row (head :: arguments) gaps _ =>
      obtain ⟨-, hatoms, hspaced, hhead, harguments⟩ := h
      obtain ⟨hatom, hothers⟩ := List.forall_mem_cons.mp hatoms
      have hnone := hhead.noNewline (isLine_of_isAtom hatom)
      have hrest := AllWellFormed.noNewline harguments hothers hspaced
      simp [written, hnone, hrest]
  | .block .. => cases hline

theorem AllWellFormed.noNewline {column : Nat} {trees : List Tree} (h : AllWellFormed column trees)
    (hatoms : ∀ tree ∈ trees, tree.isAtom = true) {first : Tree} {gaps : List String}
    (hspaced : Spaced (first :: trees) gaps) : '\n' ∉ (writtenRow trees gaps).toList := by
  match trees, gaps with
  | [], _ => simp [writtenRow]
  | tree :: others, [] => exact hspaced.elim
  | tree :: others, gap :: gaps =>
      obtain ⟨hatom, hothers⟩ := List.forall_mem_cons.mp hatoms
      obtain ⟨hgap, -, hspaced⟩ := hspaced
      have hnone := WellFormed.noNewline h.1 (isLine_of_isAtom hatom)
      have hrest := AllWellFormed.noNewline h.2 hothers hspaced
      simp [writtenRow, hgap.noNewline, hnone, hrest]

end

theorem WellFormed.endsInside_of_isLine {column : Nat} {tree : Tree} (h : tree.WellFormed column)
    (hline : tree.isLine = true) : Lexeme.EndsInside tree.written.toList := by
  apply Lexeme.endsInside_of_noNewline _ (h.noNewline hline)
  obtain ⟨first, rest, hwritten, -⟩ := h.starts
  rw [hwritten]
  exact List.cons_ne_nil first rest

mutual

/-- No tree of the grammar ends in a line end. -/
theorem WellFormed.endsInside {column : Nat} {tree : Tree} (h : tree.WellFormed column) :
    Lexeme.EndsInside tree.written.toList := by
  match tree with
  | .name .. | .numeral .. | .paren .. | .row .. => exact h.endsInside_of_isLine rfl
  | .block [] _ _ _ =>
      obtain ⟨-, -, -, -, hnone⟩ := h
      exact hnone.elim
  | .block (head :: arguments) indent gaps _ =>
      obtain ⟨-, -, -, -, hline, hhead, harguments⟩ := h
      rw [written, String.toList_append]
      exact AllWellFormed.endsInside harguments (hhead.endsInside_of_isLine hline) indent gaps

theorem AllWellFormed.endsInside {column : Nat} {trees : List Tree} (h : AllWellFormed column trees)
    {front : List Char} (hfront : Lexeme.EndsInside front) (indent : Nat) (gaps : List String) :
    Lexeme.EndsInside (front ++ (writtenBlock trees indent gaps).toList) := by
  match trees with
  | [] => simpa [writtenBlock] using hfront
  | tree :: others =>
      have hline : Lexeme.EndsInside (front ++ (gaps.head?.getD "" ++ "\n" ++ indentation indent ++
          tree.written).toList) := by
        rw [String.toList_append, ← List.append_assoc]
        exact (WellFormed.endsInside h.1).append _
      rw [writtenBlock, String.toList_append, ← List.append_assoc]
      exact AllWellFormed.endsInside h.2 hline indent gaps.tail

end

section

variable (columns : Nat)

mutual

theorem WellFormed.raised {column : Nat} {tree : Tree} (h : tree.WellFormed column) :
    (tree.raised columns).WellFormed (column + columns) := by
  match tree with
  | .name .. | .numeral .. | .paren .. | .row .. =>
      rw [raised_of_isLine columns rfl]
      exact h.atColumn rfl _
  | .block [] _ _ _ =>
      obtain ⟨-, -, -, -, hnone⟩ := h
      exact hnone.elim
  | .block (head :: arguments) indent gaps _ =>
      obtain ⟨hindent, htwo, hcount, hgaps, hline, hhead, harguments⟩ := h
      rw [Node.raised]
      exact ⟨Nat.add_lt_add_right hindent columns, by simpa using htwo, by simpa using hcount,
        Lexeme.isGap_insetRest columns hgaps, hline, hhead.atColumn hline _, AllWellFormed.raisedAll harguments⟩

theorem AllWellFormed.raisedAll {column : Nat} {trees : List Tree} (h : AllWellFormed column trees) :
    AllWellFormed (column + columns) (raisedAll columns trees) := by
  match trees with
  | [] => trivial
  | tree :: others => exact ⟨WellFormed.raised h.1, AllWellFormed.raisedAll h.2⟩

end

mutual

/-- The text of a moved tree is the moved text of the tree. -/
theorem WellFormed.written_raised {column : Nat} {tree : Tree} (h : tree.WellFormed column) :
    (tree.raised columns).written = insetRest columns tree.written := by
  match tree with
  | .name .. | .numeral .. | .paren .. | .row .. =>
      rw [raised_of_isLine columns rfl, insetRest_eq_self columns (h.noNewline rfl)]
  | .block [] _ _ _ =>
      obtain ⟨-, -, -, -, hnone⟩ := h
      exact hnone.elim
  | .block (head :: arguments) indent gaps _ =>
      obtain ⟨-, -, -, -, hline, hhead, harguments⟩ := h
      rw [Node.raised, written, written, insetRest_append, AllWellFormed.written_raisedAll harguments,
        insetRest_eq_self columns (hhead.noNewline hline)]

theorem AllWellFormed.written_raisedAll {column : Nat} {trees : List Tree} (h : AllWellFormed column trees)
    (indent : Nat) (gaps : List String) :
    writtenBlock (Node.raisedAll columns trees) (indent + columns) (gaps.map (insetRest columns)) =
      insetRest columns (writtenBlock trees indent gaps) := by
  match trees with
  | [] => rfl
  | tree :: others =>
      have hgap : (gaps.map (insetRest columns)).head?.getD "" = insetRest columns (gaps.head?.getD "") := by
        cases gaps <;> rfl
      simp only [Node.raisedAll, writtenBlock, insetRest_append, insetRest_newline, insetRest_indentation, hgap,
        ← List.map_tail, WellFormed.written_raised h.1, AllWellFormed.written_raisedAll h.2,
        ← indentation_append columns indent, String.append_assoc]

end

end

end Cadence.Node
