import Cadence.CommandLine.Run
import Cadence.Proofs.Tree.Accepted

/-! The canonical layout. It takes trees of the grammar to trees of the grammar, at whatever column they
stood, and what it gives depends on nothing that it changes itself. Programs that were laid out therefore
read as they are and stay as they are. -/

namespace Cadence

namespace Node

variable {P : Type}

theorem canonicalsAt_eq_map (column : Nat) (nodes : List (Node P)) :
    canonicalsAt column nodes = nodes.map (canonicalAt column) := by
  induction nodes with
  | nil => rfl
  | cons node nodes ih => rw [canonicalsAt, ih, List.map_cons]

@[simp] theorem length_canonicalsAt (column : Nat) (nodes : List (Node P)) :
    (canonicalsAt column nodes).length = nodes.length := by
  rw [canonicalsAt_eq_map, List.length_map]

theorem gapsBetween_canonicalsAt (column : Nat) (nodes : List (Node P)) (gap : String) :
    gapsBetween (canonicalsAt column nodes) gap = gapsBetween nodes gap := by
  rw [gapsBetween, length_canonicalsAt, gapsBetween]

theorem isAtom_canonicalAt (column : Nat) (tree : Tree) :
    (tree.canonicalAt column).isAtom = tree.isAtom := by
  match tree with
  | .name .. | .numeral .. | .paren .. | .row .. => rfl
  | .block [] .. | .block (_ :: _) .. => rfl

theorem isLine_canonicalAt (column : Nat) (tree : Tree) :
    (tree.canonicalAt column).isLine = tree.isLine := by
  match tree with
  | .name .. | .numeral .. | .paren .. | .row .. => rfl
  | .block [] .. | .block (_ :: _) .. => rfl

/-- Single spaces keep any children apart. -/
theorem spaced_gapsBetween {children : List Tree} (h : children ≠ []) :
    Spaced children (gapsBetween children " ") := by
  induction children with
  | nil => exact absurd rfl h
  | cons child others ih =>
      cases others with
      | nil => trivial
      | cons next others =>
          have hspace : Lexeme.IsSpaces " ".toList := Lexeme.isSpaces_replicate 1
          exact ⟨hspace, fun hempty => absurd hempty (by decide), ih (List.cons_ne_nil _ _)⟩

theorem isGap_empty {gap : String} {count : Nat} (h : gap ∈ List.replicate count "") :
    Lexeme.IsGap gap.toList := by
  rw [List.eq_of_mem_replicate h]
  exact Or.inl ⟨[], [], rfl, Lexeme.isSpaces_replicate 0, Or.inl rfl⟩

mutual

theorem WellFormed.canonicalAt {column : Nat} {tree : Tree} (h : tree.WellFormed column) (target : Nat) :
    (tree.canonicalAt target).WellFormed target := by
  match tree with
  | .name value _ => exact h
  | .numeral value digits _ => exact h
  | .paren child before behind _ =>
      obtain ⟨-, -, hline, hchild⟩ := h
      have hnone : Lexeme.IsSpaces "".toList := Lexeme.isSpaces_replicate 0
      exact ⟨hnone, hnone, (isLine_canonicalAt target child).trans hline, hchild.canonicalAt target⟩
  | .row children gaps _ =>
      obtain ⟨htwo, hatoms, -, hchildren⟩ := h
      rw [Node.canonicalAt]
      refine ⟨by rwa [length_canonicalsAt], ?_, ?_, hchildren.canonicalsAt target⟩
      · rw [canonicalsAt_eq_map]
        intro child hmem
        obtain ⟨child, hchild, rfl⟩ := List.mem_map.mp hmem
        exact (isAtom_canonicalAt target child).trans (hatoms child hchild)
      · rw [← gapsBetween_canonicalsAt target]
        refine spaced_gapsBetween fun hempty => ?_
        rw [← length_canonicalsAt target, hempty] at htwo
        exact absurd htwo (by decide)
  | .block [] indent gaps _ =>
      obtain ⟨-, -, -, -, hchildren⟩ := h
      exact hchildren.elim
  | .block (head :: arguments) indent gaps _ =>
      obtain ⟨-, htwo, -, -, hline, hhead, harguments⟩ := h
      rw [Node.canonicalAt]
      refine ⟨by omega, ?_, ?_, fun gap => isGap_empty, (isLine_canonicalAt target head).trans hline,
        hhead.canonicalAt target, harguments.canonicalsAt (target + 2)⟩
      · rwa [List.length_cons, length_canonicalsAt]
      · simp [gapsBetween]

theorem AllWellFormed.canonicalsAt {column : Nat} {trees : List Tree} (h : AllWellFormed column trees)
    (target : Nat) : AllWellFormed target (canonicalsAt target trees) := by
  match trees with
  | [] => trivial
  | tree :: trees => exact ⟨WellFormed.canonicalAt h.1 target, AllWellFormed.canonicalsAt h.2 target⟩

end

theorem WellFormedProgram.canonicalProgram {tree : Tree} (h : tree.WellFormedProgram) :
    tree.canonicalProgram.WellFormedProgram := by
  match tree, h with
  | .block (.name _ _ :: first :: others) _ (_ :: gaps) _, ⟨rfl, _, _, _, _, hfirst, hothers⟩ =>
      refine ⟨rfl, rfl, Or.inl rfl, ?_, fun gap => isGap_empty, hfirst.canonicalAt 0,
        hothers.canonicalsAt 0⟩
      simp

mutual

theorem canonicalAt_canonicalAt (column target : Nat) (node : Node P) :
    (node.canonicalAt column).canonicalAt target = node.canonicalAt target := by
  match node with
  | .name .. => rfl
  | .numeral .. => rfl
  | .paren child before behind payload =>
      simp only [canonicalAt, canonicalAt_canonicalAt column target child]
  | .row children gaps payload =>
      simp only [canonicalAt, canonicalsAt_canonicalsAt column target children, gapsBetween_canonicalsAt]
  | .block [] indent gaps payload => rfl
  | .block (head :: arguments) indent gaps payload =>
      simp only [canonicalAt, canonicalAt_canonicalAt column target head,
        canonicalsAt_canonicalsAt (column + 2) (target + 2) arguments, gapsBetween, List.length_cons,
        length_canonicalsAt]

theorem canonicalsAt_canonicalsAt (column target : Nat) (nodes : List (Node P)) :
    canonicalsAt target (canonicalsAt column nodes) = canonicalsAt target nodes := by
  match nodes with
  | [] => rfl
  | node :: nodes =>
      simp only [canonicalsAt, canonicalAt_canonicalAt column target node,
        canonicalsAt_canonicalsAt column target nodes]

end

theorem canonicalProgram_canonicalProgram (node : Node P) :
    node.canonicalProgram.canonicalProgram = node.canonicalProgram := by
  match node with
  | .block children _ _ payload =>
      simp only [canonicalProgram, canonicalsAt_canonicalsAt, gapsBetween_canonicalsAt]
  | .name .. => rfl
  | .numeral .. => rfl
  | .paren child before behind payload => exact canonicalAt_canonicalAt 0 0 (.paren child before behind payload)
  | .row children gaps payload => exact canonicalAt_canonicalAt 0 0 (.row children gaps payload)

end Node

namespace Grammar

theorem blankRun_newline : Lexeme.BlankRun "\n".toList := .blank (by decide) .nil

/-- A program that was laid out reads as it is, also with a line end behind it. -/
theorem readProgram_canonical {tree : Tree} (h : tree.WellFormedProgram) {trailing : String}
    (htrailing : Lexeme.BlankRun trailing.toList) :
    readProgram ((⟨tree.canonicalProgram, ""⟩ : Document Unit).writtenProgram ++ trailing) =
      .ok ⟨tree.canonicalProgram, trailing⟩ := by
  refine readProgram_iff.mpr ⟨⟨h.canonicalProgram, htrailing⟩, ?_⟩
  match tree, h with
  | .block (.name _ _ :: _ :: _) _ (_ :: _) _, _ =>
      simp [Document.writtenProgram, Node.canonicalProgram, Node.canonicalsAt, String.append_assoc]

theorem readExpression_canonical {tree : Tree} {column : Nat} (h : tree.WellFormed column) :
    readExpression (⟨tree.canonical, ""⟩ : Document Unit).written = .ok ⟨tree.canonical, ""⟩ :=
  readExpression_iff.mpr ⟨⟨h.canonicalAt 0, .nil⟩, rfl⟩

theorem format_of_read {text : String} {document : Document Unit} (h : readProgram text = .ok document)
    (path : String) (write : Bool) :
    CommandLine.format path write text =
      let formatted := (⟨document.tree.canonicalProgram, ""⟩ : Document Unit).writtenProgram ++ "\n"
      if write then .finished ⟨0, "", "", some (path, formatted)⟩ else .success formatted := by
  rw [CommandLine.format, h]

/-- Formatting is safe and stable: what is written reads as the tree that was laid out, and formatting it
once more gives the same text, in the same place. -/
theorem format_stable (text : String) :
    (∀ document, readProgram text = .ok document →
      let laidOut := document.tree.canonicalProgram
      let written := (⟨laidOut, ""⟩ : Document Unit).writtenProgram
      readProgram written = .ok ⟨laidOut, ""⟩ ∧
        readProgram (written ++ "\n") = .ok ⟨laidOut, "\n"⟩ ∧
        ∀ path, ∀ formatted ∈ [text, written ++ "\n"],
          CommandLine.format path false formatted = .success (written ++ "\n") ∧
            CommandLine.format path true formatted =
              .finished ⟨0, "", "", some (path, written ++ "\n")⟩) ∧
      ∀ document, readExpression text = .ok document →
        readExpression (⟨document.tree.canonical, ""⟩ : Document Unit).written =
          .ok ⟨document.tree.canonical, ""⟩ := by
  constructor
  · intro document hread laidOut written
    have htree := (readProgram_eq_ok hread).1.1
    have hplain : readProgram (written ++ "") = .ok ⟨laidOut, ""⟩ := readProgram_canonical htree .nil
    rw [String.append_empty] at hplain
    have hline := readProgram_canonical htree blankRun_newline
    refine ⟨hplain, hline, fun path formatted hmem => ?_⟩
    have hagain : ∀ write, CommandLine.format path write (written ++ "\n") =
        CommandLine.format path write text := by
      intro write
      rw [format_of_read hline, format_of_read hread, Node.canonicalProgram_canonicalProgram]
    simp only [List.mem_cons, List.not_mem_nil, or_false] at hmem
    rcases hmem with rfl | rfl
    · exact ⟨format_of_read hread path false, format_of_read hread path true⟩
    · rw [hagain, hagain]
      exact ⟨format_of_read hread path false, format_of_read hread path true⟩
  · intro document hread
    exact readExpression_canonical (readExpression_eq_ok hread).1.1

/-- Text in another layout: numerals without a space between them, and a block further in. -/
def tightText : String := "alt  # odd\n      1.5.5(i)\n\n      s\n"

theorem format_stable_tight :
    (∃ document, readProgram tightText = .ok document ∧
      (⟨document.tree.canonicalProgram, ""⟩ : Document Unit).writtenProgram = "alt\n  1.5 .5 (i)\n  s" ∧
      readProgram "alt\n  1.5 .5 (i)\n  s\n" = .ok ⟨document.tree.canonicalProgram, "\n"⟩) ∧
      ∃ document, readExpression tightText = .ok document ∧
        readExpression (⟨document.tree.canonical, ""⟩ : Document Unit).written =
          .ok ⟨document.tree.canonical, ""⟩ := by
  have hprogram : (readProgram tightText).toOption.map
      (fun document => (⟨document.tree.canonicalProgram, ""⟩ : Document Unit).writtenProgram) =
        some "alt\n  1.5 .5 (i)\n  s" := by decide +kernel
  have hexpression : (readExpression tightText).toOption.map (fun _ => ()) = some () := by decide +kernel
  obtain ⟨program, hread, hwritten⟩ := exists_ok_of_map hprogram
  obtain ⟨expression, hexpression, -⟩ := exists_ok_of_map hexpression
  refine ⟨⟨program, hread, hwritten, ?_⟩, ⟨expression, hexpression, ?_⟩⟩
  · have hline := ((format_stable tightText).1 program hread).2.1
    rw [hwritten] at hline
    exact hline
  · exact (format_stable tightText).2 expression hexpression

end Grammar

end Cadence
