import Cadence.Proofs.Source.Lexeme

/-! White space and comments between the tokens of a program: the spaces between two tokens of a line, what
may follow the last token of a line, and whole runs of white space and comments. A run that is followed
by a line end can be cut there into two runs, since a line end closes every comment. -/

namespace Cadence.Lexeme

def IsSpaces (text : List Char) : Prop := ∀ character ∈ text, character = ' '

theorem isSpaces_take_span (text : List Char) : IsSpaces (text.take (span (· == ' ') text)) := by
  intro character hmem
  have hspace := of_mem_take_span hmem
  exact eq_of_beq hspace

theorem isSpaces_of_spaces {text : List Char} {count : Nat} (h : spaces text = some count) :
    IsSpaces (text.take count) := by
  rw [spaces, nonempty] at h
  split at h
  case isTrue => cases h
  case isFalse =>
    cases h
    exact isSpaces_take_span text

theorem span_isSpaces {blank tail : List Char} (h : IsSpaces blank) (hend : ' ' ∉ tail.head?) :
    span (· == ' ') (blank ++ tail) = blank.length := by
  refine span_append (fun character hmem => beq_iff_eq.mpr (h character hmem)) fun character hhead => ?_
  rw [beq_eq_false_iff_ne]
  rintro rfl
  exact hend hhead

theorem isSpaces_eq_replicate {text : List Char} (h : IsSpaces text) :
    text = List.replicate text.length ' ' :=
  List.eq_replicate_iff.mpr ⟨rfl, h⟩

theorem isSpaces_replicate (count : Nat) : IsSpaces (List.replicate count ' ') :=
  fun _ hmem => List.eq_of_mem_replicate hmem

/-- Spaces and then perhaps a comment, which reaches to the end of the text. -/
def IsFiller (text : List Char) : Prop :=
  ∃ blank comment, text = blank ++ comment ∧ IsSpaces blank ∧
    (comment = [] ∨ ∃ body, comment = '#' :: body ∧ '\n' ∉ body)

theorem isFiller_of_filler {text : List Char} {count : Nat} (h : filler text = some count) :
    IsFiller (text.take count) := by
  cases h
  refine ⟨_, _, List.take_add, isSpaces_take_span text, ?_⟩
  generalize text.drop (span (· == ' ') text) = behind
  unfold comment
  split
  case h_1 rest =>
    refine Or.inr ⟨rest.take (span (· != '\n') rest), ?_, fun hmem => ?_⟩
    · rw [Nat.add_comm, List.take_succ_cons]
    · have hline := of_mem_take_span hmem
      simp at hline
  case h_2 => exact Or.inl (List.take_zero)

theorem filler_of_isFiller {text : List Char} (h : IsFiller text) (tail : List Char) :
    filler (text ++ '\n' :: tail) = some text.length := by
  obtain ⟨blank, comment', rfl, hblank, hcomment⟩ := h
  rcases hcomment with rfl | ⟨body, rfl, hbody⟩
  · have hspan : span (· == ' ') (blank ++ '\n' :: tail) = blank.length :=
      span_isSpaces hblank (by simp)
    rw [List.append_nil, filler, hspan, List.drop_left]
    rfl
  · have hspan : span (· == ' ') (blank ++ '#' :: (body ++ '\n' :: tail)) = blank.length :=
      span_isSpaces hblank (by simp)
    have hbodySpan : span (· != '\n') (body ++ '\n' :: tail) = body.length := by
      refine span_append (fun character hmem => ?_) (by simp)
      rw [bne_iff_ne]
      rintro rfl
      exact hbody hmem
    rw [List.append_assoc, List.cons_append, filler, hspan, List.drop_left]
    simp only [comment, hbodySpan, List.length_append, List.length_cons]
    rw [Nat.add_comm 1]

/-! ### Runs of white space and comments -/

/-- White space and comments from start to end. A comment may be cut short only where white space or
another comment takes over. -/
inductive BlankRun : List Char → Prop where
  | nil : BlankRun []
  | blank {character : Char} {rest : List Char} (isBlank : isBlank character = true) (others : BlankRun rest) :
      BlankRun (character :: rest)
  | comment {body rest : List Char} (line : '\n' ∉ body) (others : BlankRun rest) :
      BlankRun ('#' :: (body ++ rest))

/-- Whether a run goes on over a character, and if so, whether it is in a comment behind it. -/
def runStep (inComment : Bool) (character : Char) : Option Bool :=
  if inComment then some (character != '\n')
  else if character == '#' then some true
  else if isBlank character then some false
  else none

theorem runLength_cons (inComment : Bool) (character : Char) (text : List Char) :
    runLength inComment (character :: text) =
      match runStep inComment character with
      | some after => 1 + runLength after text
      | none => 0 := by
  rw [runLength, runStep]
  repeat' split
  all_goals simp_all

theorem runStep_newline (inComment : Bool) : runStep inComment '\n' = some false := by
  cases inComment <;> rfl

theorem runStep_sharp (inComment : Bool) : runStep inComment '#' = some true := by
  cases inComment <;> rfl

theorem runStep_of_isBlank {character : Char} (h : isBlank character = true) (inComment : Bool) :
    ∃ after, runStep inComment character = some after := by
  cases inComment with
  | true => exact ⟨_, rfl⟩
  | false =>
      rw [runStep, if_neg Bool.false_ne_true, if_pos h]
      split
      · exact ⟨true, rfl⟩
      · exact ⟨false, rfl⟩

theorem runLength_comment {body : List Char} (h : '\n' ∉ body) (rest : List Char) :
    runLength true (body ++ rest) = body.length + runLength true rest := by
  induction body with
  | nil => simp
  | cons character body ih =>
      rw [List.mem_cons, not_or] at h
      obtain ⟨hfirst, hbody⟩ := h
      have hline : (character != '\n') = true := bne_iff_ne.mpr fun hline => hfirst hline.symm
      rw [List.cons_append, runLength, if_pos rfl, hline, ih hbody, List.length_cons]
      omega

/-- A run is read to its end, in a comment or not, and whatever follows is read on from there. -/
theorem BlankRun.runLength_append {run : List Char} (h : BlankRun run) (inComment : Bool) :
    ∃ after, ∀ tail, runLength inComment (run ++ tail) = run.length + runLength after tail := by
  induction h generalizing inComment with
  | nil => exact ⟨inComment, fun tail => by simp⟩
  | blank hblank _ ih =>
      obtain ⟨next, hnext⟩ := runStep_of_isBlank hblank inComment
      obtain ⟨after, hafter⟩ := ih next
      refine ⟨after, fun tail => ?_⟩
      rw [List.cons_append, runLength_cons, hnext, List.length_cons]
      simp only [hafter]
      omega
  | comment hline _ ih =>
      obtain ⟨after, hafter⟩ := ih true
      refine ⟨after, fun tail => ?_⟩
      rw [List.cons_append, List.append_assoc, runLength_cons, runStep_sharp]
      simp only [runLength_comment hline, hafter, List.length_cons, List.length_append]
      omega

theorem BlankRun.runLength_eq {run : List Char} (h : BlankRun run) : runLength false run = run.length := by
  obtain ⟨after, hafter⟩ := h.runLength_append false
  have hwhole := hafter []
  rwa [List.append_nil] at hwhole

/-- What is read to its end is a run, and inside of a comment it is the rest of the comment and a run. -/
theorem blankRun_of_runLength_eq (text : List Char) :
    (runLength false text = text.length → BlankRun text) ∧
      (runLength true text = text.length →
        ∃ body rest, text = body ++ rest ∧ '\n' ∉ body ∧ BlankRun rest) := by
  induction text with
  | nil => exact ⟨fun _ => .nil, fun _ => ⟨[], [], rfl, by simp, .nil⟩⟩
  | cons character text ih =>
      obtain ⟨ihOutside, ihInside⟩ := ih
      constructor
      · intro h
        rw [runLength, if_neg (by simp)] at h
        split at h
        case isTrue hsharp =>
          obtain ⟨body, rest, rfl, hbody, hrest⟩ := ihInside (by rw [List.length_cons] at h; omega)
          rw [eq_of_beq hsharp]
          exact .comment hbody hrest
        case isFalse =>
          split at h
          case isTrue hblank => exact .blank hblank (ihOutside (by rw [List.length_cons] at h; omega))
          case isFalse => simp at h
      · intro h
        rw [runLength, if_pos rfl, List.length_cons] at h
        by_cases hline : character = '\n'
        · subst hline
          have htext : runLength false text = text.length := by
            have hstate : ('\n' != '\n') = false := rfl
            rw [hstate] at h
            omega
          exact ⟨[], _, rfl, by simp, .blank (by decide) (ihOutside htext)⟩
        · rw [bne_iff_ne.mpr hline] at h
          obtain ⟨body, rest, rfl, hbody, hrest⟩ := ihInside (by omega)
          refine ⟨character :: body, rest, rfl, ?_, hrest⟩
          rw [List.mem_cons, not_or]
          exact ⟨fun hcharacter => hline hcharacter.symm, hbody⟩

theorem blankRun_iff {text : List Char} : BlankRun text ↔ runLength false text = text.length :=
  ⟨BlankRun.runLength_eq, (blankRun_of_runLength_eq text).1⟩

/-- Cut at a line end, a run falls into two. -/
theorem runLength_split {first behind : List Char} {inComment : Bool}
    (h : runLength inComment (first ++ '\n' :: behind) = (first ++ '\n' :: behind).length) :
    runLength inComment first = first.length ∧ runLength false behind = behind.length := by
  induction first generalizing inComment with
  | nil =>
      rw [List.nil_append, runLength_cons, runStep_newline, List.length_cons] at h
      simp only at h
      exact ⟨rfl, by omega⟩
  | cons character first ih =>
      rw [List.cons_append, runLength_cons, List.length_cons] at h
      rw [runLength_cons, List.length_cons]
      cases hstep : runStep inComment character with
      | none => simp [hstep] at h
      | some after =>
          simp only [hstep] at h ⊢
          have hrest : runLength after (first ++ '\n' :: behind) = (first ++ '\n' :: behind).length :=
            Nat.add_left_cancel (h.trans (Nat.add_comm _ 1))
          obtain ⟨hfirst, hbehind⟩ := ih hrest
          exact ⟨by omega, hbehind⟩

theorem BlankRun.split {first behind : List Char} (h : BlankRun (first ++ '\n' :: behind)) :
    BlankRun first ∧ BlankRun behind := by
  obtain ⟨hfirst, hbehind⟩ := runLength_split h.runLength_eq
  exact ⟨blankRun_iff.mpr hfirst, blankRun_iff.mpr hbehind⟩

theorem BlankRun.of_spaces_append {blank rest : List Char} (hblank : IsSpaces blank)
    (h : BlankRun (blank ++ rest)) : BlankRun rest := by
  induction blank with
  | nil => exact h
  | cons character blank ih =>
      obtain ⟨hcharacter, hothers⟩ := List.forall_mem_cons.mp hblank
      subst hcharacter
      refine ih hothers (blankRun_iff.mpr ?_)
      have hlength : 1 + runLength false (blank ++ rest) = (blank ++ rest).length + 1 := h.runLength_eq
      omega

theorem BlankRun.noAtom {run : List Char} (h : BlankRun run) : NoAtom run := by
  intro character hhead
  cases h with
  | nil => simp at hhead
  | blank hblank =>
      cases hhead
      exact startsAtom_of_isBlank hblank
  | comment =>
      cases hhead
      decide

theorem runLength_le (inComment : Bool) (text : List Char) : runLength inComment text ≤ text.length := by
  induction text generalizing inComment with
  | nil => exact Nat.le_refl 0
  | cons character text ih =>
      rw [runLength_cons, List.length_cons]
      cases runStep inComment character with
      | none => exact Nat.zero_le _
      | some after =>
          have hrest := ih after
          simp only
          omega

theorem runLength_take (inComment : Bool) (text : List Char) :
    runLength inComment (text.take (runLength inComment text)) = runLength inComment text := by
  induction text generalizing inComment with
  | nil => rfl
  | cons character text ih =>
      rw [runLength_cons]
      cases hstep : runStep inComment character with
      | none => rfl
      | some after =>
          simp only
          rw [Nat.add_comm, List.take_succ_cons, runLength_cons, hstep]
          simp only [ih, Nat.add_comm]

/-- The longest run at the start of a text. -/
theorem blankRun_take (text : List Char) : BlankRun (text.take (runLength false text)) := by
  rw [blankRun_iff, runLength_take, List.length_take, Nat.min_eq_left (runLength_le false text)]

/-- The last line end of a run cuts off what `blankLines` takes. -/
theorem take_lastLine {run : List Char} (h : run.length - span (· != '\n') run.reverse ≠ 0) :
    ∃ lines, run.take (run.length - span (· != '\n') run.reverse) = lines ++ ['\n'] := by
  have hdrop : (run.reverse.drop (span (· != '\n') run.reverse)).reverse =
      run.take (run.length - span (· != '\n') run.reverse) := by
    rw [List.drop_reverse, List.reverse_reverse]
  cases hlast : run.reverse.drop (span (· != '\n') run.reverse) with
  | nil =>
      have hlength := congrArg List.length hlast
      rw [List.length_drop, List.length_reverse] at hlength
      exact absurd hlength h
  | cons last before =>
      have hhead : last ∈ (run.reverse.drop (span (· != '\n') run.reverse)).head? := by
        rw [hlast]
        rfl
      have hline := head?_drop_span hhead
      have hnewline : last = '\n' := by simpa using hline
      rw [← hdrop, hlast, hnewline, List.reverse_cons]
      exact ⟨before.reverse, rfl⟩

theorem blankRun_of_blankLines {text : List Char} {count : Nat} (h : blankLines text = some count) :
    ∃ lines, text.take count = lines ++ ['\n'] ∧ BlankRun lines := by
  have hrun := blankRun_take text
  have htake : ∀ shorter, shorter ≤ (text.take (runLength false text)).length →
      (text.take (runLength false text)).take shorter = text.take shorter := by
    intro shorter hshorter
    rw [List.length_take] at hshorter
    rw [List.take_take, Nat.min_eq_left (by omega)]
  simp only [blankLines, nonempty] at h
  generalize text.take (runLength false text) = run at h hrun htake
  split at h
  case isTrue => cases h
  case isFalse hcount =>
    cases h
    obtain ⟨lines, hlines⟩ := take_lastLine hcount
    refine ⟨lines, by rw [← htake _ (Nat.sub_le _ _), hlines], ?_⟩
    rw [← List.take_append_drop (run.length - span (· != '\n') run.reverse) run, hlines,
      List.append_assoc] at hrun
    exact hrun.split.1

/-- A text that no white space and no comment begins with. -/
def NoBlank (text : List Char) : Prop :=
  ∀ character ∈ text.head?, isBlank character = false ∧ character ≠ '#'

theorem runLength_noBlank {text : List Char} (h : NoBlank text) : runLength false text = 0 := by
  cases text with
  | nil => rfl
  | cons character text =>
      obtain ⟨hblank, hsharp⟩ := h character rfl
      simp [runLength, hblank, hsharp]

theorem noBlank_of_startsAtom {character : Char} (h : startsAtom character = true) (rest : List Char) :
    NoBlank (character :: rest) := by
  intro other hother
  cases hother
  refine ⟨?_, ?_⟩
  · rw [Bool.eq_false_iff]
    intro hblank
    rw [startsAtom_of_isBlank hblank] at h
    cases h
  · rintro rfl
    exact absurd h (by decide)

theorem runLength_spaces {blank : List Char} (h : IsSpaces blank) (rest : List Char) :
    runLength false (blank ++ rest) = blank.length + runLength false rest := by
  induction blank with
  | nil => simp
  | cons character blank ih =>
      obtain ⟨hcharacter, hothers⟩ := List.forall_mem_cons.mp h
      subst hcharacter
      have hstep : runLength false (' ' :: (blank ++ rest)) = 1 + runLength false (blank ++ rest) := rfl
      rw [List.cons_append, hstep, ih hothers, List.length_cons]
      omega

theorem not_newline_of_isSpaces {blank : List Char} (h : IsSpaces blank) :
    ∀ character ∈ blank.reverse, (character != '\n') = true := by
  intro character hmem
  rw [h character (List.mem_reverse.mp hmem)]
  rfl

theorem blankLines_of_blankRun {lines blank code : List Char} (hlines : BlankRun lines)
    (hblank : IsSpaces blank) (hcode : NoBlank code) :
    blankLines ((lines ++ ['\n']) ++ (blank ++ code)) = some (lines ++ ['\n']).length := by
  have hrun : runLength false ((lines ++ ['\n']) ++ (blank ++ code)) =
      ((lines ++ ['\n']) ++ blank).length := by
    obtain ⟨after, hafter⟩ := hlines.runLength_append false
    rw [List.append_assoc, hafter, List.singleton_append, runLength_cons, runStep_newline]
    simp only [runLength_spaces hblank, runLength_noBlank hcode, List.length_append, List.length_singleton]
    omega
  have hspan : span (· != '\n') ((lines ++ ['\n']) ++ blank).reverse = blank.length := by
    have hlength : blank.length = blank.reverse.length := List.length_reverse.symm
    rw [List.reverse_append, hlength]
    refine span_append (not_newline_of_isSpaces hblank) ?_
    rw [List.reverse_append]
    rintro character hhead
    cases hhead
    rfl
  rw [blankLines]
  simp only [hrun]
  rw [← List.append_assoc, List.take_left, hspan, List.length_append, Nat.add_sub_cancel, nonempty,
    if_neg (by simp)]

theorem blankLines_eq_none {blank code : List Char} (hblank : IsSpaces blank) (hcode : NoBlank code) :
    blankLines (blank ++ code) = none := by
  have hspan : span (· != '\n') blank.reverse = blank.length := by
    have hlength : blank.length = blank.reverse.length := List.length_reverse.symm
    rw [← List.append_nil blank.reverse, hlength]
    exact span_append (not_newline_of_isSpaces hblank) (by simp)
  rw [blankLines]
  simp only [runLength_spaces hblank, runLength_noBlank hcode, Nat.add_zero]
  rw [List.take_left, hspan, Nat.sub_self, nonempty, if_pos rfl]

theorem trailing_of_blankRun {run : List Char} (h : BlankRun run) : trailing run = some run.length :=
  congrArg some h.runLength_eq

/-- What may stand between the code of one line and the line end before the next: the rest of the line,
and perhaps lines with white space and comments, of which the last one has lost its line end. -/
def IsGap (text : List Char) : Prop :=
  IsFiller text ∨ ∃ filler lines, text = filler ++ '\n' :: lines ∧ IsFiller filler ∧ BlankRun lines

end Cadence.Lexeme
