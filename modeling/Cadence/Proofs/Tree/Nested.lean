import Cadence.Proofs.Tree.Accepted
import Cadence.Proofs.Tree.Raised

/-! A program under its own `do`: a line with `do` stands in front of the text of a program whose lines are all
moved to the right. What is read is one expression, the block of `do` with the expressions of the program below
it; the blank lines before the first of them have become the gap behind `do`. -/

namespace Cadence

namespace Node

/-- A program of some expressions, with the blank lines before the first one and the gaps between them. -/
def programOf (expressions : List Tree) (leading : String) (gaps : List String) : Tree :=
  .block (.name "do" () :: expressions) 0 (leading :: gaps) ()

/-- The gap between the line of `do` and a text that is moved to the right: the blank lines of the text, without
their last line end. -/
def openGap (columns : Nat) (leading : String) : String :=
  if leading = "" then "" else "\n" ++ inset columns (.ofList leading.toList.dropLast)

/-- The program of one expression, which applies `do` to the expressions of another program, moved to the
right. -/
def nestedProgram (columns : Nat) (expressions : List Tree) (leading : String) (gaps : List String) : Tree :=
  programOf [.block (.name "do" () :: raisedAll columns expressions) columns
    (openGap columns leading :: gaps.map (insetRest columns)) ()] "" []

section

open Lexeme

variable {columns : Nat} {expressions : List Tree} {leading : String} {gaps : List String}

theorem exists_lines (h : leading = "" ∨ ∃ lines, leading.toList = lines ++ ['\n'] ∧ BlankRun lines) :
    leading = "" ∨ ∃ lines, leading = .ofList lines ++ "\n" ∧ BlankRun lines := by
  rcases h with rfl | ⟨lines, hlines, hrun⟩
  · exact Or.inl rfl
  · refine Or.inr ⟨lines, ?_, hrun⟩
    rw [← String.toList_inj, hlines, String.toList_append, String.toList_ofList]
    rfl

theorem openGap_lines (columns : Nat) (lines : List Char) :
    openGap columns (.ofList lines ++ "\n") = "\n" ++ inset columns (.ofList lines) := by
  have hlines : (String.ofList lines ++ "\n").toList = lines ++ ['\n'] := by simp
  have hnonempty : String.ofList lines ++ "\n" ≠ "" := by
    intro hempty
    rw [hempty] at hlines
    simp at hlines
  rw [openGap, if_neg hnonempty, hlines, List.dropLast_concat]

theorem isGap_openGap (columns : Nat)
    (h : leading = "" ∨ ∃ lines, leading.toList = lines ++ ['\n'] ∧ BlankRun lines) :
    IsGap (openGap columns leading).toList := by
  have hnone : IsFiller [] := ⟨[], [], rfl, isSpaces_replicate 0, Or.inl rfl⟩
  rcases exists_lines h with rfl | ⟨lines, rfl, hrun⟩
  · exact Or.inl hnone
  · rw [openGap_lines]
    refine Or.inr ⟨[], (inset columns (.ofList lines)).toList, by simp, hnone, ?_⟩
    rw [inset, String.toList_append, toList_indentation, toList_insetRest, String.toList_ofList]
    exact (blankRun_replicate columns).append (hrun.inset columns)

/-- The line end behind `do` and the spaces of the next line stand before the blank lines of the text as well as
behind them. -/
theorem openGap_append (columns : Nat)
    (h : leading = "" ∨ ∃ lines, leading.toList = lines ++ ['\n'] ∧ BlankRun lines) :
    openGap columns leading ++ "\n" ++ indentation columns = "\n" ++ inset columns leading := by
  rcases exists_lines h with rfl | ⟨lines, rfl, -⟩
  · simp [openGap, inset, insetRest]
  · rw [openGap_lines, inset, inset, insetRest_append, insetRest_newline]
    simp only [String.append_assoc]

theorem exists_programOf {tree : Tree} (h : tree.WellFormedProgram) :
    ∃ expressions leading gaps, tree = programOf expressions leading gaps := by
  match tree, h with
  | .block (.name _ _ :: first :: others) _ (leading :: gaps) _, ⟨rfl, rfl, _⟩ =>
      exact ⟨first :: others, leading, gaps, rfl⟩

theorem wellFormed_nestedProgram (hcolumns : 0 < columns)
    (h : (programOf expressions leading gaps).WellFormedProgram) :
    (nestedProgram columns expressions leading gaps).WellFormedProgram := by
  match expressions, h with
  | first :: others, ⟨_, _, hleading, hcount, hgaps, hfirst, hothers⟩ =>
      have harguments : AllWellFormed 0 (first :: others) := ⟨hfirst, hothers⟩
      have hraised := harguments.raisedAll columns
      rw [Nat.zero_add] at hraised
      refine ⟨rfl, rfl, Or.inl rfl, rfl, by simp, ?_, trivial⟩
      refine ⟨hcolumns, by simp [raisedAll], by simp [hcount], ?_, rfl, ?_, hraised⟩
      · rw [List.forall_mem_cons]
        exact ⟨isGap_openGap columns hleading, isGap_insetRest columns hgaps⟩
      · exact ⟨'d', ['o'], rfl, rfl, List.forall_mem_singleton.mpr rfl⟩

/-- The text of the program under its own `do`. -/
theorem written_nestedProgram (columns : Nat) (h : (programOf expressions leading gaps).WellFormedProgram)
    (trailing : String) :
    (⟨nestedProgram columns expressions leading gaps, insetRest columns trailing⟩ :
        Document Unit).writtenProgram =
      "do\n" ++ inset columns
        (⟨programOf expressions leading gaps, trailing⟩ : Document Unit).writtenProgram := by
  match expressions, h with
  | first :: others, ⟨_, _, hleading, hcount, hgaps, hfirst, hothers⟩ =>
      have hwritten := AllWellFormed.written_raisedAll columns hothers 0 gaps
      rw [Nat.zero_add] at hwritten
      calc "" ++ ("do" ++ (openGap columns leading ++ "\n" ++ indentation columns ++
              (first.raised columns).written ++
              writtenBlock (raisedAll columns others) columns (gaps.map (insetRest columns)))) ++
            "" ++ insetRest columns trailing
          = "do" ++ (openGap columns leading ++ "\n" ++ indentation columns) ++
              insetRest columns first.written ++ insetRest columns (writtenBlock others 0 gaps) ++
              insetRest columns trailing := by
            rw [hfirst.written_raised, hwritten]
            simp only [String.append_assoc, String.append_empty, String.empty_append]
        _ = "do\n" ++ (indentation columns ++
              insetRest columns (leading ++ first.written ++ writtenBlock others 0 gaps ++ trailing)) := by
            rw [openGap_append columns hleading, inset]
            simp only [insetRest_append, ← String.append_assoc]
            rfl

/-- The trailing text stands at the end of what is written. -/
theorem writtenProgram_append (tree : Tree) (trailing behind : String) :
    (⟨tree, trailing ++ behind⟩ : Document Unit).writtenProgram =
      (⟨tree, trailing⟩ : Document Unit).writtenProgram ++ behind := by
  match tree with
  | .block (_ :: _ :: _) _ _ _ => simp only [Document.writtenProgram, String.append_assoc]
  | .block [_] _ _ _ | .block [] _ _ _ => rfl
  | .name .. | .numeral .. | .paren .. | .row .. =>
      simp only [Document.writtenProgram, Document.written, String.append_assoc]

/-- A line end at the end of a program stands behind the last expression. -/
theorem exists_trailing (h : (programOf expressions leading gaps).WellFormedProgram) {trailing front : String}
    (htext : (⟨programOf expressions leading gaps, trailing⟩ : Document Unit).writtenProgram = front ++ "\n") :
    ∃ before, trailing = before ++ "\n" := by
  match expressions, h with
  | first :: others, ⟨_, _, _, _, _, hfirst, hothers⟩ =>
      have hinside : EndsInside (leading ++ first.written ++ writtenBlock others 0 gaps).toList := by
        rw [String.toList_append, String.toList_append]
        exact AllWellFormed.endsInside hothers (hfirst.endsInside.append _) 0 gaps
      have hwhole : (leading ++ first.written ++ writtenBlock others 0 gaps).toList ++ trailing.toList =
          front.toList ++ ['\n'] := by
        rw [← String.toList_append]
        exact (congrArg String.toList htext).trans String.toList_append
      obtain ⟨before, hbefore⟩ := hinside.exists_newline hwhole
      refine ⟨.ofList before, ?_⟩
      rw [← String.toList_inj, hbefore, String.toList_append, String.toList_ofList]
      rfl

end

end Node

namespace Grammar

open Node

variable {columns : Nat} {expressions : List Tree} {leading : String} {gaps : List String}

/-- The text of a program reads under its own `do`. -/
theorem readProgram_nested (hcolumns : 0 < columns) {text trailing : String}
    (hread : readProgram text = .ok ⟨programOf expressions leading gaps, trailing⟩) :
    readProgram ("do\n" ++ inset columns text) =
      .ok ⟨nestedProgram columns expressions leading gaps, insetRest columns trailing⟩ := by
  obtain ⟨⟨htree, htrailing⟩, htext⟩ := readProgram_iff.mp hread
  refine readProgram_iff.mpr ⟨⟨wellFormed_nestedProgram hcolumns htree, ?_⟩, ?_⟩
  · rw [toList_insetRest]
    exact htrailing.inset columns
  · rw [written_nestedProgram columns htree, htext]

/-- If the text ends in a line end, no spaces are needed behind it. -/
theorem readProgram_nested_newline (hcolumns : 0 < columns) {front trailing : String}
    (hread : readProgram (front ++ "\n") = .ok ⟨programOf expressions leading gaps, trailing⟩) :
    ∃ before, trailing = before ++ "\n" ∧ readProgram ("do\n" ++ inset columns front ++ "\n") =
      .ok ⟨nestedProgram columns expressions leading gaps, insetRest columns before ++ "\n"⟩ := by
  obtain ⟨⟨htree, htrailing⟩, htext⟩ := readProgram_iff.mp hread
  obtain ⟨before, rfl⟩ := exists_trailing htree htext
  refine ⟨before, rfl, readProgram_iff.mpr ⟨⟨wellFormed_nestedProgram hcolumns htree, ?_⟩, ?_⟩⟩
  · rw [String.toList_append] at htrailing
    have hbefore := (Lexeme.BlankRun.split htrailing).1.inset columns
    rw [← toList_insetRest] at hbefore
    rw [String.toList_append]
    exact hbefore.append (.blank (by decide) .nil)
  · rw [writtenProgram_append] at htext ⊢
    rw [written_nestedProgram columns htree, (String.append_left_inj "\n").mp htext]

end Grammar

end Cadence
