import Cadence.Proofs.Source.Blank
import Cadence.Proofs.Source.Outcome

/-! How the gaps of a program are read: the spaces between two tokens of a line, blank lines, and what stands
between two lines. What was read is put together again from the text of the gap and the column of the line
behind it; and a gap that is followed by code is read as it is. -/

namespace Cadence.Grammar

open Lexeme Cadence.Parser

section Read

variable {cursor after : Cursor}

theorem optionalSpaces_eq_ok {text : String} (h : optionalSpaces cursor = (.ok text, after)) :
    cursor.Moved after text.toList ∧ IsSpaces text.toList := by
  rcases withDefault_eq_ok h with hspaces | ⟨rfl, failed, rfl⟩
  · obtain ⟨count, hcount, htext, -, hmoved⟩ := lexeme_eq_ok hspaces
    refine ⟨hmoved, ?_⟩
    rw [htext]
    exact isSpaces_of_spaces hcount
  · exact ⟨Cursor.Moved.restore failed cursor, fun _ hmem => by simp at hmem⟩

theorem blankLines_eq_ok {text : String} (h : blankLines cursor = (.ok text, after)) :
    cursor.Moved after text.toList ∧
      (text = "" ∨ ∃ lines, text.toList = lines ++ ['\n'] ∧ BlankRun lines) := by
  rcases withDefault_eq_ok h with hblank | ⟨rfl, failed, rfl⟩
  · obtain ⟨count, hcount, htext, -, hmoved⟩ := lexeme_eq_ok hblank
    obtain ⟨lines, hlines, hrun⟩ := blankRun_of_blankLines hcount
    exact ⟨hmoved, Or.inr ⟨lines, htext.trans hlines, hrun⟩⟩
  · exact ⟨Cursor.Moved.restore failed cursor, Or.inl rfl⟩

/-- The text of a gap, whose last line end is not kept. -/
def gapText (filler blank : String) : String :=
  if blank.isEmpty then filler else filler ++ "\n" ++ String.ofList blank.toList.dropLast

theorem toList_gapText (filler : String) {blank : String} {lines : List Char}
    (hblank : blank.toList = lines ++ ['\n']) :
    (gapText filler blank).toList = filler.toList ++ '\n' :: lines := by
  have hnonempty : blank.isEmpty = false := by
    rw [Bool.eq_false_iff]
    intro hempty
    rw [String.isEmpty_iff] at hempty
    simp [hempty] at hblank
  rw [gapText, hnonempty, if_neg Bool.false_ne_true, hblank, List.dropLast_concat, String.toList_append,
    String.toList_append, String.toList_ofList]
  simp

theorem gap_eq_ok {read : Gap} (h : gap cursor = (.ok read, after)) :
    cursor.Moved after (read.text.toList ++ '\n' :: List.replicate read.indent ' ') ∧
      IsGap read.text.toList := by
  obtain ⟨filler, first, hfiller, h⟩ := bind_eq_ok.mp h
  obtain ⟨newline, second, hnewline, h⟩ := bind_eq_ok.mp h
  obtain ⟨blank, third, hblank, h⟩ := bind_eq_ok.mp h
  obtain ⟨spaces, fourth, hspaces, h⟩ := bind_eq_ok.mp h
  obtain ⟨rfl, rfl⟩ := pure_eq_ok.mp h
  obtain ⟨count, hcount, htext, -, hfirst⟩ := lexeme_eq_ok hfiller
  have hsecond := moved_of_literal hnewline
  obtain ⟨hthird, hlines⟩ := blankLines_eq_ok hblank
  obtain ⟨hfourth, hindent⟩ := optionalSpaces_eq_ok hspaces
  have hisFiller : IsFiller filler.toList := htext ▸ isFiller_of_filler hcount
  have hmoved := ((hfirst.trans hsecond).trans hthird).trans hfourth
  rw [isSpaces_eq_replicate hindent, String.length_toList] at hmoved
  rcases hlines with rfl | ⟨lines, hlines, hrun⟩
  · exact ⟨by simpa [List.append_assoc] using hmoved, Or.inl hisFiller⟩
  · change cursor.Moved fourth ((gapText filler blank).toList ++ _) ∧ IsGap (gapText filler blank).toList
    rw [toList_gapText filler hlines]
    rw [hlines] at hmoved
    exact ⟨by simpa [List.append_assoc] using hmoved, Or.inr ⟨filler.toList, lines, rfl, hisFiller, hrun⟩⟩

theorem openingGap_eq_ok {read : Gap} (h : openingGap cursor = (.ok read, after)) :
    ∃ column outer middle, cursor.indents = column :: outer ∧ column < read.indent ∧
      gap cursor = (.ok read, middle) ∧ after = { middle with indents := read.indent :: middle.indents } := by
  obtain ⟨column, first, hcolumn, hbehind⟩ := bind_eq_ok.mp h
  obtain ⟨⟨outer, hindents⟩, rfl⟩ := indent_eq_ok hcolumn
  obtain ⟨read', middle, hgap, hcheck⟩ := bind_eq_ok.mp hbehind
  dsimp only at hcheck
  split at hcheck
  case isTrue =>
    obtain ⟨_, failed, hfail, -⟩ := bind_eq_ok.mp hcheck
    exact absurd hfail (fail_ne_ok _ _)
  case isFalse hindent =>
    obtain ⟨_, opened, hopen, hread⟩ := bind_eq_ok.mp hcheck
    obtain ⟨rfl, rfl⟩ := pure_eq_ok.mp hread
    obtain ⟨-, rfl⟩ := Prod.mk.inj hopen
    exact ⟨column, outer, middle, hindents, Nat.lt_of_not_le hindent, hgap, rfl⟩

theorem innerGap_eq_ok {text : String} (h : innerGap cursor = (.ok text, after)) :
    ∃ column outer read, cursor.indents = column :: outer ∧ gap cursor = (.ok read, after) ∧
      read.indent = column ∧ text = read.text := by
  obtain ⟨column, first, hcolumn, hbehind⟩ := bind_eq_ok.mp h
  obtain ⟨⟨outer, hindents⟩, rfl⟩ := indent_eq_ok hcolumn
  obtain ⟨read, middle, hgap, hcheck⟩ := bind_eq_ok.mp hbehind
  dsimp only at hcheck
  split at hcheck
  case isTrue =>
    obtain ⟨_, failed, hfail, -⟩ := bind_eq_ok.mp hcheck
    exact absurd hfail (fail_ne_ok _ _)
  case isFalse hindent =>
    obtain ⟨rfl, rfl⟩ := pure_eq_ok.mp hcheck
    exact ⟨column, outer, read, hindents, hgap, Decidable.not_not.mp hindent, rfl⟩

end Read

/-! ### What will be read -/

section Foretold

variable {text : String} {rest code : List Char} {indents : List Nat}

/-- Spaces are taken off the front of every text. -/
theorem gives_optionalSpaces_dropWhile (rest : List Char) (indents : List Nat) :
    optionalSpaces.Gives ⟨rest, indents⟩ (String.ofList (rest.takeWhile (· == ' ')))
      ⟨rest.dropWhile (· == ' '), indents⟩ := by
  rw [← take_span, ← drop_span]
  by_cases hnone : span (· == ' ') rest = 0
  · rw [hnone, List.take_zero, List.drop_zero]
    refine Refuses.withDefault (refuses_lexeme _ ?_ indents) ""
    rw [spaces, hnone]
    rfl
  · refine Gives.withDefault (gives_lexeme_take _ ?_ indents) ""
    rw [spaces, nonempty, if_neg hnone]

theorem gives_optionalSpaces (h : IsSpaces text.toList) (hend : ' ' ∉ code.head?) :
    optionalSpaces.Gives ⟨text.toList ++ code, indents⟩ text ⟨code, indents⟩ := by
  have hspan := span_isSpaces h hend
  have hgives := gives_optionalSpaces_dropWhile (text.toList ++ code) indents
  rwa [← take_span, ← drop_span, hspan, List.take_left, List.drop_left, String.ofList_toList] at hgives

theorem gives_blankLines {lines blank : List Char} (htext : text.toList = lines ++ ['\n'])
    (hlines : BlankRun lines) (hblank : IsSpaces blank) (hcode : NoBlank code) :
    blankLines.Gives ⟨text.toList ++ (blank ++ code), indents⟩ text ⟨blank ++ code, indents⟩ := by
  refine Gives.withDefault (gives_lexeme _ ?_ indents) ""
  rw [htext]
  exact blankLines_of_blankRun hlines hblank hcode

theorem gives_no_blankLines {blank : List Char} (hblank : IsSpaces blank) (hcode : NoBlank code) :
    blankLines.Gives ⟨blank ++ code, indents⟩ "" ⟨blank ++ code, indents⟩ :=
  (refuses_lexeme _ (blankLines_eq_none hblank hcode) indents).withDefault ""

theorem space_not_head (hcode : NoBlank code) : ' ' ∉ code.head? := by
  intro hhead
  exact absurd (hcode ' ' hhead).1 (by decide)

/-- A gap is read part by part. -/
theorem gives_gap_parts {filler blank : String} {indent : Nat} (hfiller : IsFiller filler.toList)
    (hcode : NoBlank code)
    (hblank : blankLines.Gives ⟨rest, indents⟩ blank ⟨List.replicate indent ' ' ++ code, indents⟩) :
    gap.Gives ⟨filler.toList ++ '\n' :: rest, indents⟩ ⟨gapText filler blank, indent⟩ ⟨code, indents⟩ := by
  have hcolumn : (String.ofList (List.replicate indent ' ')).toList = List.replicate indent ' ' :=
    String.toList_ofList
  have hspaces : IsSpaces (String.ofList (List.replicate indent ' ')).toList := by
    rw [hcolumn]
    exact isSpaces_replicate indent
  rw [← hcolumn] at hblank
  have hfirst := gives_lexeme "expected end of line" (filler_of_isFiller hfiller rest) indents
  refine hfirst.bind ((gives_literal "\n" rest indents).bind (hblank.bind ?_))
  refine (gives_optionalSpaces hspaces (space_not_head hcode)).bind ?_
  rw [String.length_ofList, List.length_replicate]
  exact gives_pure _ _

/-- A gap between two lines of code is read as it is. -/
theorem gives_gap (h : IsGap text.toList) (indent : Nat) (hcode : NoBlank code) :
    gap.Gives ⟨text.toList ++ '\n' :: (List.replicate indent ' ' ++ code), indents⟩ ⟨text, indent⟩
      ⟨code, indents⟩ := by
  have hspaces := isSpaces_replicate indent
  rcases h with hfiller | ⟨filler, lines, htext, hfiller, hlines⟩
  · exact gives_gap_parts hfiller hcode (gives_no_blankLines hspaces hcode)
  · have hblank : (String.ofList (lines ++ ['\n'])).toList = lines ++ ['\n'] := String.toList_ofList
    have hfillerText : (String.ofList filler).toList = filler := String.toList_ofList
    rw [← hfillerText] at hfiller
    have hgap : gap.Gives ⟨_, indents⟩ ⟨_, indent⟩ ⟨code, indents⟩ :=
      gives_gap_parts hfiller hcode (gives_blankLines hblank hlines hspaces hcode)
    have hsame : gapText (String.ofList filler) (String.ofList (lines ++ ['\n'])) = text := by
      rw [← String.toList_inj, toList_gapText _ hblank, String.toList_ofList, htext]
    rw [hsame, hblank, hfillerText] at hgap
    rw [htext]
    simpa [List.append_assoc] using hgap

variable {column : Nat} {outer : List Nat} {read : Gap}

theorem gives_openingGap (hgap : gap.Gives ⟨rest, column :: outer⟩ read ⟨code, column :: outer⟩)
    (h : column < read.indent) :
    openingGap.Gives ⟨rest, column :: outer⟩ read ⟨code, read.indent :: column :: outer⟩ := by
  refine (gives_indent rest column outer).bind (hgap.bind ?_)
  rw [if_neg (Nat.not_le_of_lt h)]
  exact (gives_openBlock read.indent code (column :: outer)).bind (gives_pure read _)

theorem refuses_openingGap (hgap : gap.Gives ⟨rest, column :: outer⟩ read ⟨code, column :: outer⟩)
    (h : read.indent ≤ column) : openingGap.Refuses ⟨rest, column :: outer⟩ := by
  refine (gives_indent rest column outer).bind_refuses (hgap.bind_refuses ?_)
  rw [if_pos h]
  exact (refuses_fail _ _).bind

theorem gives_innerGap (hgap : gap.Gives ⟨rest, column :: outer⟩ read ⟨code, column :: outer⟩)
    (h : read.indent = column) :
    innerGap.Gives ⟨rest, column :: outer⟩ read.text ⟨code, column :: outer⟩ := by
  refine (gives_indent rest column outer).bind (hgap.bind ?_)
  rw [if_neg (not_not_intro h)]
  exact gives_pure read.text _

theorem refuses_innerGap (hgap : gap.Gives ⟨rest, column :: outer⟩ read ⟨code, column :: outer⟩)
    (h : read.indent ≠ column) : innerGap.Refuses ⟨rest, column :: outer⟩ := by
  refine (gives_indent rest column outer).bind_refuses (hgap.bind_refuses ?_)
  rw [if_pos h]
  exact (refuses_fail _ _).bind

end Foretold

/-- A text that is no more of a line: behind its spaces no atom begins. -/
def EndsLine (text : List Char) : Prop := NoAtom (text.dropWhile (· == ' '))

theorem EndsLine.noAtom {text : List Char} (h : EndsLine text) : NoAtom text := by
  cases text with
  | nil => exact h
  | cons character rest =>
      by_cases hspace : character = ' '
      · subst hspace
        rintro other hhead
        cases hhead
        decide
      · rwa [EndsLine, List.dropWhile_cons_of_neg (by simpa using hspace)] at h

/-- A text that does not go on with a block whose lines begin at `column` or further right: there is no
next line of code in it, or one that begins further left. -/
structure Stops (column : Nat) (text : List Char) : Prop where
  line : EndsLine text
  gap : (∀ indents, gap.Refuses ⟨text, indents⟩) ∨
    ∃ read rest, (∀ indents, gap.Gives ⟨text, indents⟩ read ⟨rest, indents⟩) ∧
      (read.indent < column ∨ NoAtom rest)

theorem Stops.mono {column further : Nat} {text : List Char} (h : Stops column text) (hle : column ≤ further) :
    Stops further text := by
  refine ⟨h.line, ?_⟩
  rcases h.gap with hrefuses | ⟨read, rest, hgives, hindent | hnone⟩
  · exact Or.inl hrefuses
  · exact Or.inr ⟨read, rest, hgives, Or.inl (Nat.lt_of_lt_of_le hindent hle)⟩
  · exact Or.inr ⟨read, rest, hgives, Or.inr hnone⟩

theorem endsLine_of_blankRun {run : List Char} (h : BlankRun run) : EndsLine run := by
  rw [← List.takeWhile_append_dropWhile (p := (· == ' ')) (l := run)] at h
  refine (BlankRun.of_spaces_append (fun character hmem => ?_) h).noAtom
  exact eq_of_beq (List.all_eq_true.mp List.all_takeWhile character hmem)

/-- Over white space and comments, what is left behind blank lines is white space and comments again. -/
theorem gives_blankLines_of_blankRun {run : List Char} (h : BlankRun run) :
    ∃ text behind, BlankRun behind ∧ ∀ indents, blankLines.Gives ⟨run, indents⟩ text ⟨behind, indents⟩ := by
  cases hlines : Lexeme.blankLines run with
  | none => exact ⟨"", run, h, fun indents => (refuses_lexeme _ hlines indents).withDefault ""⟩
  | some count =>
      obtain ⟨lines, htake, -⟩ := blankRun_of_blankLines hlines
      rw [← List.take_append_drop count run, htake, List.append_assoc] at h
      exact ⟨_, _, h.split.2, fun indents => (gives_lexeme_take _ hlines indents).withDefault ""⟩

theorem gap_of_blankRun {run : List Char} (h : BlankRun run) :
    (∀ indents, gap.Refuses ⟨run, indents⟩) ∨
      ∃ read rest, (∀ indents, gap.Gives ⟨run, indents⟩ read ⟨rest, indents⟩) ∧ NoAtom rest := by
  obtain ⟨count, hfiller⟩ : ∃ count, filler run = some count := ⟨_, rfl⟩
  have hfirst := fun indents => gives_lexeme_take "expected end of line" hfiller indents
  by_cases hline : "\n".toList <+: run.drop count
  · obtain ⟨behind, hbehind⟩ := hline
    have hcut : BlankRun behind := by
      rw [← List.take_append_drop count run, ← hbehind] at h
      exact h.split.2
    obtain ⟨blank, left, hleft, hblank⟩ := gives_blankLines_of_blankRun hcut
    rw [← hbehind] at hfirst
    exact Or.inr ⟨_, _, fun indents => (hfirst indents).bind ((gives_literal "\n" behind indents).bind
      ((hblank indents).bind ((gives_optionalSpaces_dropWhile left indents).bind (gives_pure _ _)))),
      endsLine_of_blankRun hleft⟩
  · exact Or.inl fun indents => (hfirst indents).bind_refuses (refuses_literal hline indents).bind

/-- White space and comments at the end of a text stop every block. -/
theorem stops_of_blankRun {run : List Char} (h : BlankRun run) (column : Nat) : Stops column run := by
  refine ⟨endsLine_of_blankRun h, ?_⟩
  rcases gap_of_blankRun h with hrefuses | ⟨read, rest, hgives, hnone⟩
  · exact Or.inl hrefuses
  · exact Or.inr ⟨read, rest, hgives, Or.inr hnone⟩

theorem endsLine_of_filler {filler : List Char} (h : IsFiller filler) (rest : List Char) :
    EndsLine (filler ++ '\n' :: rest) := by
  obtain ⟨blank, comment, rfl, hblank, hcomment⟩ := h
  have hdrop : (blank ++ (comment ++ '\n' :: rest)).dropWhile (· == ' ') =
      (comment ++ '\n' :: rest).dropWhile (· == ' ') :=
    List.dropWhile_append_of_pos fun character hmem => beq_iff_eq.mpr (hblank character hmem)
  rw [EndsLine, List.append_assoc, hdrop]
  rcases hcomment with rfl | ⟨body, rfl, -⟩
  · rintro character hhead
    cases hhead
    decide
  · rintro character hhead
    cases hhead
    decide

theorem endsLine_of_gap {text : List Char} (h : IsGap text) (rest : List Char) :
    EndsLine (text ++ '\n' :: rest) := by
  rcases h with hfiller | ⟨filler, lines, rfl, hfiller, -⟩
  · exact endsLine_of_filler hfiller rest
  · rw [List.append_assoc]
    exact endsLine_of_filler hfiller _

/-- A line of code stops the blocks that stand further right. -/
theorem stops_of_gap {text : String} {code : List Char} {indent column : Nat} (h : IsGap text.toList)
    (hcode : NoBlank code) (hindent : indent < column) :
    Stops column (text.toList ++ '\n' :: (List.replicate indent ' ' ++ code)) :=
  ⟨endsLine_of_gap h _, Or.inr ⟨_, _, fun _ => gives_gap h indent hcode, Or.inl hindent⟩⟩

end Cadence.Grammar
