import Cadence.Proofs.Source.Blank
import Cadence.Tree.Written

/-! The trees of the grammar: what names, numerals and gaps may look like, which kinds of nodes stand where,
and how far blocks are indented. The text of such a tree is one that reads as this tree, and every tree
that is read is one of them. -/

namespace Cadence

theorem toList_indentation (column : Nat) : (indentation column).toList = List.replicate column ' ' :=
  String.toList_ofList

namespace Node

/-- A node that reads without looking at what stands behind it. -/
def isAtom : Tree → Bool
  | .name .. | .numeral .. | .paren .. => true
  | .row .. | .block .. => false

def isLine : Tree → Bool
  | .block .. => false
  | .name .. | .numeral .. | .paren .. | .row .. => true

/-- Whether a token would take the next character too, if no gap stood before it. -/
def goesOn : Tree → Char → Bool
  | .name .., character => character.isAlphanum
  | .numeral _ digits _, character => Lexeme.goesOn digits.toList character
  | .paren .., _ | .row .., _ | .block .., _ => false

/-- One gap of spaces between every two neighbours, which is empty only where the first of them does not
go on with the second. -/
def Spaced : List Tree → List String → Prop
  | child :: next :: others, gap :: gaps =>
    Lexeme.IsSpaces gap.toList ∧
      (gap = "" → ∀ character ∈ next.written.toList.head?, child.goesOn character = false) ∧
      Spaced (next :: others) gaps
  | [_], [] => True
  | _, _ => False

mutual

/-- The trees of the grammar, in a block whose lines begin at `column`. -/
def WellFormed (column : Nat) : Tree → Prop
  | .name value _ => Lexeme.IsName value.toList
  | .numeral value digits _ =>
    ∃ decimal, Lexeme.Denotes digits.toList decimal ∧ value = decimal.toDouble false
  | .paren child before behind _ =>
    Lexeme.IsSpaces before.toList ∧ Lexeme.IsSpaces behind.toList ∧ child.isLine = true ∧
      child.WellFormed column
  | .row children gaps _ =>
    2 ≤ children.length ∧ (∀ child ∈ children, child.isAtom = true) ∧ Spaced children gaps ∧
      AllWellFormed column children
  | .block children indent gaps _ =>
    column < indent ∧ 2 ≤ children.length ∧ gaps.length + 1 = children.length ∧
      (∀ gap ∈ gaps, Lexeme.IsGap gap.toList) ∧
      match children with
      | [] => False
      | head :: arguments => head.isLine = true ∧ head.WellFormed column ∧ AllWellFormed indent arguments

def AllWellFormed (column : Nat) : List Tree → Prop
  | [] => True
  | node :: nodes => node.WellFormed column ∧ AllWellFormed column nodes

end

/-- A program: a block at column zero whose head `do` is understood, and whose first gap is the blank lines
before the first expression. -/
def WellFormedProgram : Tree → Prop
  | .block (.name head _ :: first :: others) indent (leading :: gaps) _ =>
    head = "do" ∧ indent = 0 ∧
      (leading = "" ∨ ∃ lines, leading.toList = lines ++ ['\n'] ∧ Lexeme.BlankRun lines) ∧
      gaps.length = others.length ∧ (∀ gap ∈ gaps, Lexeme.IsGap gap.toList) ∧
      first.WellFormed 0 ∧ AllWellFormed 0 others
  | _ => False

theorem Spaced.length_eq {first : Tree} {children : List Tree} {gaps : List String}
    (h : Spaced (first :: children) gaps) : gaps.length = children.length := by
  induction children generalizing first gaps with
  | nil =>
      cases gaps with
      | nil => rfl
      | cons => exact h.elim
  | cons child children ih =>
      cases gaps with
      | nil => exact h.elim
      | cons gap gaps => rw [List.length_cons, List.length_cons, ih h.2.2]

theorem allWellFormed_iff {column : Nat} {nodes : List Tree} :
    AllWellFormed column nodes ↔ ∀ node ∈ nodes, node.WellFormed column := by
  induction nodes with
  | nil => simp [AllWellFormed]
  | cons node nodes ih => rw [AllWellFormed, ih, List.forall_mem_cons]

theorem isLine_of_isAtom {tree : Tree} (h : tree.isAtom = true) : tree.isLine = true := by
  cases tree <;> first | rfl | cases h

/-- Where no atom begins, no token goes on. -/
theorem goesOn_eq_false {character : Char} (h : Lexeme.startsAtom character = false) (tree : Tree) :
    tree.goesOn character = false := by
  have hdigit : isDecimalDigit character = false := by
    rw [Bool.eq_false_iff]
    intro hdigit
    rw [Lexeme.startsAtom_of_isDecimalDigit hdigit] at h
    cases h
  have hpoint : (character == '.') = false := by
    rw [beq_eq_false_iff_ne]
    rintro rfl
    exact absurd h (by decide)
  cases tree with
  | name =>
      rw [goesOn, Char.isAlphanum, Bool.or_eq_false_iff, Bool.eq_false_iff, Bool.eq_false_iff]
      refine ⟨fun halpha => ?_, fun hascii => ?_⟩
      · rw [Lexeme.startsAtom_of_isAlpha halpha] at h
        cases h
      · rw [isDecimalDigit_of_isDigit hascii] at hdigit
        cases hdigit
  | numeral => simp [goesOn, Lexeme.goesOn, hdigit, hpoint]
  | paren => rfl
  | row => rfl
  | block => rfl

/-- The text of a tree of the grammar begins as an atom does. -/
theorem WellFormed.starts {column : Nat} {tree : Tree} (h : tree.WellFormed column) :
    ∃ first rest, tree.written.toList = first :: rest ∧ Lexeme.startsAtom first = true := by
  match tree with
  | .name value _ =>
      obtain ⟨first, rest, hvalue, hfirst, -⟩ := h
      exact ⟨first, rest, hvalue, Lexeme.startsAtom_of_isAlpha hfirst⟩
  | .numeral value digits _ =>
      obtain ⟨decimal, hdigits, -⟩ := h
      obtain ⟨first, rest, hwritten, hfirst | rfl⟩ := hdigits.starts
      · exact ⟨first, rest, hwritten, Lexeme.startsAtom_of_isDecimalDigit (isDecimalDigit_of_isDigit hfirst)⟩
      · exact ⟨'.', rest, hwritten, by decide⟩
  | .paren child before behind _ =>
      refine ⟨'(', (before ++ child.written ++ behind ++ ")").toList, ?_, by decide⟩
      simp [written]
  | .row [] gaps _ =>
      obtain ⟨hlength, -⟩ := h
      simp at hlength
  | .row (head :: arguments) gaps _ =>
      obtain ⟨-, -, -, hhead, -⟩ := h
      obtain ⟨first, rest, hwritten, hstarts⟩ := hhead.starts
      refine ⟨first, rest ++ (writtenRow arguments gaps).toList, ?_, hstarts⟩
      rw [written, String.toList_append, hwritten, List.cons_append]
  | .block [] indent gaps _ =>
      obtain ⟨-, hlength, -⟩ := h
      simp at hlength
  | .block (head :: arguments) indent gaps _ =>
      obtain ⟨-, -, -, -, -, hhead, -⟩ := h
      obtain ⟨first, rest, hwritten, hstarts⟩ := hhead.starts
      refine ⟨first, rest ++ (writtenBlock arguments indent gaps).toList, ?_, hstarts⟩
      rw [written, String.toList_append, hwritten, List.cons_append]

theorem WellFormed.noBlank {column : Nat} {tree : Tree} (h : tree.WellFormed column) (rest : List Char) :
    Lexeme.NoBlank (tree.written.toList ++ rest) := by
  obtain ⟨first, others, hwritten, hfirst⟩ := h.starts
  rw [hwritten]
  exact Lexeme.noBlank_of_startsAtom hfirst _

theorem toList_writtenBlock_cons (child : Tree) (children : List Tree) (column : Nat) (gap : String)
    (gaps : List String) (tail : List Char) :
    (writtenBlock (child :: children) column (gap :: gaps)).toList ++ tail =
      gap.toList ++ '\n' :: (List.replicate column ' ' ++
        (child.written.toList ++ ((writtenBlock children column gaps).toList ++ tail))) := by
  simp [writtenBlock, toList_indentation]

end Node

namespace Document

/-- A whole text of the grammar: an expression, and the white space and comments behind it. -/
def WellFormed (document : Document Unit) : Prop :=
  document.tree.WellFormed 0 ∧ Lexeme.BlankRun document.trailing.toList

def WellFormedProgram (document : Document Unit) : Prop :=
  document.tree.WellFormedProgram ∧ Lexeme.BlankRun document.trailing.toList

end Document

end Cadence
