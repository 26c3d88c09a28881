import Cadence.Proofs.Source.Blank
import Cadence.Tree.Written

/-! Text that is moved to the right, by spaces in front of its lines. A text that begins inside of a line is
moved by spaces behind its line ends. White space and comments stay what they are; tokens have no line ends and
do not change. -/

namespace Cadence

/-- A character as it stands in text that is moved to the right, with spaces behind it if it ends a line. -/
def insetChar (columns : Nat) (character : Char) : List Char :=
  if character = '\n' then '\n' :: List.replicate columns ' ' else [character]

/-- A text with spaces in front of every line but the first. -/
def insetRest (columns : Nat) (text : String) : String := .ofList (text.toList.flatMap (insetChar columns))

/-- A text with spaces in front of every line. -/
def inset (columns : Nat) (text : String) : String := indentation columns ++ insetRest columns text

section

variable (columns : Nat)

theorem flatMap_insetChar {text : List Char} (h : '\n' ∉ text) : text.flatMap (insetChar columns) = text := by
  induction text with
  | nil => rfl
  | cons character text ih =>
      rw [List.mem_cons, not_or] at h
      obtain ⟨hcharacter, htext⟩ := h
      rw [List.flatMap_cons, ih htext, insetChar, if_neg fun hline => hcharacter hline.symm]
      rfl

theorem toList_insetRest (text : String) :
    (insetRest columns text).toList = text.toList.flatMap (insetChar columns) := String.toList_ofList

@[simp] theorem insetRest_append (text other : String) :
    insetRest columns (text ++ other) = insetRest columns text ++ insetRest columns other := by
  rw [← String.toList_inj, toList_insetRest, String.toList_append, String.toList_append, List.flatMap_append,
    toList_insetRest, toList_insetRest]

theorem insetRest_eq_self {text : String} (h : '\n' ∉ text.toList) : insetRest columns text = text := by
  rw [← String.toList_inj, toList_insetRest, flatMap_insetChar columns h]

@[simp] theorem insetRest_newline : insetRest columns "\n" = "\n" ++ indentation columns := by
  rw [← String.toList_inj, toList_insetRest]
  simp [insetChar, indentation]

@[simp] theorem insetRest_indentation (column : Nat) :
    insetRest columns (indentation column) = indentation column := by
  apply insetRest_eq_self
  rw [indentation, String.toList_ofList, List.mem_replicate]
  simp

theorem indentation_append (column : Nat) :
    indentation columns ++ indentation column = indentation (column + columns) := by
  rw [indentation, indentation, indentation, ← String.ofList_append, List.replicate_append_replicate,
    Nat.add_comm]

end

namespace Lexeme

theorem BlankRun.append {run others : List Char} (h : BlankRun run) (hothers : BlankRun others) :
    BlankRun (run ++ others) := by
  induction h with
  | nil => exact hothers
  | blank hblank _ ih => exact .blank hblank ih
  | comment hline _ ih =>
      rw [List.cons_append, List.append_assoc]
      exact .comment hline ih

theorem blankRun_replicate (columns : Nat) : BlankRun (List.replicate columns ' ') := by
  induction columns with
  | zero => exact .nil
  | succ columns ih => exact .blank (by decide) ih

variable (columns : Nat)

theorem BlankRun.inset {run : List Char} (h : BlankRun run) : BlankRun (run.flatMap (insetChar columns)) := by
  induction h with
  | nil => exact .nil
  | @blank character rest hblank _ ih =>
      rw [List.flatMap_cons, insetChar]
      split
      case isTrue => exact .blank (by decide) ((blankRun_replicate columns).append ih)
      case isFalse => exact .blank hblank ih
  | @comment body rest hline _ ih =>
      rw [List.flatMap_cons, List.flatMap_append, flatMap_insetChar columns hline]
      show BlankRun ('#' :: (body ++ rest.flatMap (insetChar columns)))
      exact .comment hline ih

theorem IsSpaces.noNewline {text : List Char} (h : IsSpaces text) : '\n' ∉ text :=
  fun hmem => absurd (h '\n' hmem) (by decide)

theorem IsFiller.noNewline {text : List Char} (h : IsFiller text) : '\n' ∉ text := by
  obtain ⟨blank, comment, rfl, hblank, rfl | ⟨body, rfl, hbody⟩⟩ := h
  · rw [List.append_nil]
    exact hblank.noNewline
  · rw [List.mem_append, List.mem_cons]
    rintro (hmem | hmem | hmem)
    · exact hblank.noNewline hmem
    · exact absurd hmem (by decide)
    · exact hbody hmem

theorem IsGap.inset {text : List Char} (h : IsGap text) : IsGap (text.flatMap (insetChar columns)) := by
  rcases h with hfiller | ⟨filler, lines, rfl, hfiller, hlines⟩
  · rw [flatMap_insetChar columns hfiller.noNewline]
    exact Or.inl hfiller
  · rw [List.flatMap_append, flatMap_insetChar columns hfiller.noNewline, List.flatMap_cons]
    exact Or.inr ⟨filler, _, rfl, hfiller, (blankRun_replicate columns).append (hlines.inset columns)⟩

theorem isGap_insetRest {gaps : List String} (h : ∀ gap ∈ gaps, IsGap gap.toList) :
    ∀ gap ∈ gaps.map (insetRest columns), IsGap gap.toList := by
  rw [List.forall_mem_map]
  intro gap hgap
  rw [toList_insetRest]
  exact (h gap hgap).inset columns

theorem IsName.noNewline {text : List Char} (h : IsName text) : '\n' ∉ text := by
  obtain ⟨first, rest, rfl, hfirst, hrest⟩ := h
  rw [List.mem_cons]
  rintro (rfl | hmem)
  · exact absurd hfirst (by decide)
  · exact absurd (hrest '\n' hmem) (by decide)

theorem Denotes.noNewline {digits : List Char} {decimal : Decimal} (h : Denotes digits decimal) :
    '\n' ∉ digits := by
  cases h with
  | whole _ hdigits => exact fun hmem => absurd (hdigits '\n' hmem) (by decide)
  | pointed _ hdigits =>
      rw [List.mem_append, List.mem_cons]
      rintro (hmem | hmem | hmem)
      · exact absurd (hdigits '\n' (List.mem_append_left _ hmem)) (by decide)
      · exact absurd hmem (by decide)
      · exact absurd (hdigits '\n' (List.mem_append_right _ hmem)) (by decide)

/-- Whether a text ends inside of a line, with a character of the line. -/
def EndsInside (text : List Char) : Prop := ∃ last ∈ text.getLast?, last ≠ '\n'

theorem EndsInside.append {text : List Char} (h : EndsInside text) (front : List Char) :
    EndsInside (front ++ text) := by
  obtain ⟨last, hlast, hne⟩ := h
  refine ⟨last, ?_, hne⟩
  rw [List.getLast?_append, Option.mem_def.mp hlast]
  rfl

theorem endsInside_of_noNewline {text : List Char} (hnonempty : text ≠ []) (h : '\n' ∉ text) :
    EndsInside text := by
  refine ⟨text.getLast hnonempty, List.getLast?_eq_some_getLast hnonempty, fun hlast => h ?_⟩
  rw [← hlast]
  exact List.getLast_mem hnonempty

/-- A line end behind a text that ends inside of a line is no part of this text. -/
theorem EndsInside.exists_newline {text behind front : List Char} (h : EndsInside text)
    (hwhole : text ++ behind = front ++ ['\n']) : ∃ before, behind = before ++ ['\n'] := by
  obtain ⟨last, hlast, hne⟩ := h
  have hend : behind.getLast?.or text.getLast? = some '\n' := by
    rw [← List.getLast?_append, hwhole, List.getLast?_concat]
  rw [Option.mem_def.mp hlast] at hend
  cases hbehind : behind.getLast? with
  | none =>
      rw [hbehind] at hend
      exact absurd (Option.some.inj hend) hne
  | some character =>
      rw [hbehind] at hend
      rw [Option.some.inj hend] at hbehind
      exact List.getLast?_eq_some_iff.mp hbehind

end Lexeme

end Cadence
