import Cadence.Proofs.Source.Trail

/-! Where parsers leave the cursor. A failure may leave it anywhere; what tries something else goes back first, to the
place and to the open blocks that it began with. Short of that reading only goes ahead: it moves over text, and opens
blocks on top of those that are open. -/

namespace Cadence

namespace Cursor

/-- Whether reading is where it was, with the same blocks open. -/
structure Back (before after : Cursor) : Prop where
  rest : after.rest = before.rest
  position : after.position = before.position
  indents : after.indents = before.indents

/-- Whether reading went over some text, or none, and left all blocks open that were open before. -/
structure Ahead (before after : Cursor) : Prop where
  moved : ∃ text, before.rest = text ++ after.rest ∧ after.position = before.position.afterAll text
  indents : before.indents <:+ after.indents

variable {first second third : Cursor}

theorem Back.refl (cursor : Cursor) : cursor.Back cursor := ⟨rfl, rfl, rfl⟩

theorem back_restore (failed cursor : Cursor) : cursor.Back (failed.restore cursor) := ⟨rfl, rfl, rfl⟩

theorem eq_restore_iff {failed : Cursor} :
    second = failed.restore first ↔ first.Back second ∧ second.furthest = failed.furthest := by
  constructor
  · rintro rfl
    exact ⟨back_restore failed first, rfl⟩
  · rintro ⟨⟨hrest, hposition, hindents⟩, hfurthest⟩
    cases second
    cases hrest
    cases hposition
    cases hindents
    cases hfurthest
    rfl

theorem back_record (cursor : Cursor) (message : String) : cursor.Back (cursor.record message) := ⟨rfl, rfl, rfl⟩

theorem Back.trans (hfirst : first.Back second) (hsecond : second.Back third) : first.Back third :=
  ⟨hsecond.rest.trans hfirst.rest, hsecond.position.trans hfirst.position, hsecond.indents.trans hfirst.indents⟩

theorem Back.ahead (h : first.Back second) : first.Ahead second where
  moved := ⟨[], h.rest.symm, h.position⟩
  indents := h.indents ▸ List.suffix_rfl

theorem Moved.ahead {text : List Char} (h : first.Moved second text) : first.Ahead second where
  moved := ⟨text, h.rest, h.position⟩
  indents := h.indents ▸ List.suffix_rfl

theorem Ahead.trans (hfirst : first.Ahead second) (hsecond : second.Ahead third) : first.Ahead third := by
  obtain ⟨text, hrest, hposition⟩ := hfirst.moved
  obtain ⟨behind, hrest', hposition'⟩ := hsecond.moved
  refine ⟨⟨text ++ behind, ?_, ?_⟩, hfirst.indents.trans hsecond.indents⟩
  · rw [hrest, hrest', List.append_assoc]
  · rw [hposition', hposition, Position.afterAll_append]

end Cursor

namespace Position

theorem offset_le_afterAll (position : Position) (text : List Char) :
    position.offset ≤ (position.afterAll text).offset := by
  induction text generalizing position with
  | nil => exact Nat.le_refl _
  | cons character text ih => exact Nat.le_trans (Nat.le_add_right _ _) (ih (position.after character))

theorem offset_lt_afterAll (position : Position) {text : List Char} (h : text ≠ []) :
    position.offset < (position.afterAll text).offset := by
  cases text with
  | nil => exact absurd rfl h
  | cons character text =>
      have hcharacter : position.offset < (position.after character).offset :=
        Nat.lt_add_of_pos_right character.utf8Size_pos
      exact Nat.lt_of_lt_of_le hcharacter (offset_le_afterAll _ text)

end Position

namespace Cursor

variable {text : List Char} {before after : Cursor}

theorem StandsIn.ahead (h : before.StandsIn text) (hahead : before.Ahead after) : after.StandsIn text := by
  obtain ⟨front, htext, hposition⟩ := h
  obtain ⟨read, hrest, hread⟩ := hahead.moved
  refine ⟨front ++ read, ?_, ?_⟩
  · rw [htext, hrest, List.append_assoc]
  · rw [hread, hposition, Position.afterAll_append]

theorem Ahead.offset_le (h : before.Ahead after) : before.position.offset ≤ after.position.offset := by
  obtain ⟨read, -, hposition⟩ := h.moved
  rw [hposition]
  exact Position.offset_le_afterAll _ read

end Cursor

namespace Parser

variable {α β : Type} {parser : Parser α} {cursor after : Cursor}

/-! ### What leaves no trace -/

theorem FailInTurn.back {options : List (Parser α)} {last : Cursor} (h : FailInTurn options cursor last) :
    cursor.Back last := by
  obtain ⟨failed, rfl⟩ := h.exists_restore
  exact Cursor.back_restore failed cursor

/-- A choice fails as all of its options do, and reports no other failure than its own. -/
theorem firstOf_eq_error_iff {options : List (Parser α)} {error : ParseError} :
    firstOf options cursor = (.error error, after) ↔
      ∃ last, FailInTurn options cursor last ∧ error = last.error "alternation failed" ∧
        after = last.record "alternation failed" := by
  constructor
  · intro h
    induction options generalizing cursor with
    | nil =>
        obtain ⟨herror, rfl⟩ := Prod.mk.inj h
        cases herror
        exact ⟨cursor, .nil cursor, rfl, rfl⟩
    | cons option options ih =>
        simp only [firstOf] at h
        split at h
        case h_1 => cases congrArg Prod.fst h
        case h_2 hoption =>
          obtain ⟨last, hothers, herror, hafter⟩ := ih h
          exact ⟨last, .cons hoption hothers, herror, hafter⟩
  · rintro ⟨last, hoptions, rfl, rfl⟩
    induction hoptions with
    | nil cursor => rfl
    | cons hfirst _ ih =>
        simp only [firstOf, hfirst]
        exact ih

theorem back_of_firstOf {options : List (Parser α)} {error : ParseError}
    (h : firstOf options cursor = (.error error, after)) : cursor.Back after := by
  obtain ⟨last, hoptions, -, rfl⟩ := firstOf_eq_error_iff.mp h
  exact hoptions.back.trans (Cursor.back_record last _)

theorem withDefault_of_ok {value : α} (default : α) (h : parser cursor = (.ok value, after)) :
    withDefault parser default cursor = (.ok value, after) := by
  simp only [withDefault, h]

theorem withDefault_of_error {error : ParseError} (default : α) (h : parser cursor = (.error error, after)) :
    withDefault parser default cursor = (.ok default, after.restore cursor) := by
  simp only [withDefault, h]

theorem maybe_of_ok {value : α} (h : parser cursor = (.ok value, after)) :
    maybe parser cursor = (.ok (some value), after) := by
  apply withDefault_of_ok
  rw [bind_of_ok h]
  rfl

theorem maybe_of_error {error : ParseError} (h : parser cursor = (.error error, after)) :
    maybe parser cursor = (.ok none, after.restore cursor) := withDefault_of_error none (bind_of_error h)

/-- What a choice comes to: the first of its options that succeeds, begun at the place and with the blocks that the choice
began with, whatever the options before it did until they failed. -/
structure Chooses (options : List (Parser α)) (cursor : Cursor) : Prop where
  ok (value : α) (after : Cursor) :
    firstOf options cursor = (.ok value, after) ↔
      ∃ before option behind last, options = before ++ option :: behind ∧ FailInTurn before cursor last ∧
        cursor.Back last ∧ option last = (.ok value, after)
  error (error : ParseError) (after : Cursor) (h : firstOf options cursor = (.error error, after)) :
    (∃ last, FailInTurn options cursor last) ∧ cursor.Back after

theorem chooses (options : List (Parser α)) (cursor : Cursor) : Chooses options cursor where
  ok value after := by
    rw [firstOf_eq_ok_iff]
    constructor
    · rintro ⟨before, option, behind, last, hoptions, hbefore, hoption⟩
      exact ⟨before, option, behind, last, hoptions, hbefore, hbefore.back, hoption⟩
    · rintro ⟨before, option, behind, last, hoptions, hbefore, -, hoption⟩
      exact ⟨before, option, behind, last, hoptions, hbefore, hoption⟩
  error error after h := by
    obtain ⟨last, hoptions, -⟩ := firstOf_eq_error_iff.mp h
    exact ⟨⟨last, hoptions⟩, back_of_firstOf h⟩

/-- What attempts with a parser come to. Where it fails, they are back where they began: a default and an option at once,
a repetition where the application began that failed. -/
structure Attempts (parser : Parser α) (cursor : Cursor) : Prop where
  default_ok (default value : α) (after : Cursor) (h : parser cursor = (.ok value, after)) :
    withDefault parser default cursor = (.ok value, after)
  default_error (default : α) (error : ParseError) (failed : Cursor) (h : parser cursor = (.error error, failed)) :
    ∃ after, withDefault parser default cursor = (.ok default, after) ∧ cursor.Back after
  maybe_ok (value : α) (after : Cursor) (h : parser cursor = (.ok value, after)) :
    maybe parser cursor = (.ok (some value), after)
  maybe_error (error : ParseError) (failed : Cursor) (h : parser cursor = (.error error, failed)) :
    ∃ after, maybe parser cursor = (.ok none, after) ∧ cursor.Back after
  many (values : List α) (after : Cursor) :
    many parser cursor = (.ok values, after) ↔
      values.length < cursor.rest.length + idleLimit ∧ ∃ last error failed, Chain parser cursor values last ∧
        parser last = (.error error, failed) ∧ last.Back after ∧ after.furthest = failed.furthest

theorem attempts (parser : Parser α) (cursor : Cursor) : Attempts parser cursor where
  default_ok default _ _ h := withDefault_of_ok default h
  default_error default _ failed h :=
    ⟨failed.restore cursor, withDefault_of_error default h, Cursor.back_restore failed cursor⟩
  maybe_ok _ _ h := maybe_of_ok h
  maybe_error _ failed h := ⟨failed.restore cursor, maybe_of_error h, Cursor.back_restore failed cursor⟩
  many values after := by
    unfold Parser.many
    simp only [repeated_eq_ok_iff, Cursor.eq_restore_iff]

/-- Whether a parser goes ahead, whether it succeeds or fails. -/
def GoesAhead (parser : Parser α) : Prop := ∀ cursor : Cursor, cursor.Ahead (parser cursor).2

/-- Whether a parser that fails went ahead until it did. -/
def FailsAhead (parser : Parser α) : Prop :=
  ∀ (cursor after : Cursor) (error : ParseError), parser cursor = (.error error, after) → cursor.Ahead after

theorem GoesAhead.of_eq (h : parser.GoesAhead) {outcome : Except ParseError α}
    (hparser : parser cursor = (outcome, after)) : cursor.Ahead after := by
  have hahead := h cursor
  rwa [hparser] at hahead

theorem GoesAhead.failsAhead (h : parser.GoesAhead) : parser.FailsAhead := fun _ _ _ => h.of_eq

theorem goesAhead_pure (value : α) : (pure value : Parser α).GoesAhead :=
  fun cursor => (Cursor.Back.refl cursor).ahead

theorem goesAhead_fail (message : String) : (fail message : Parser α).GoesAhead :=
  fun cursor => (Cursor.back_record cursor message).ahead

/-- A parser whose successes and failures are known to go ahead. -/
theorem goesAhead_of (hok : ∀ {cursor after : Cursor} {value : α}, parser cursor = (.ok value, after) → cursor.Ahead after)
    (herror : parser.FailsAhead) : parser.GoesAhead := by
  intro cursor
  cases hparser : parser cursor with
  | mk outcome after =>
      cases outcome with
      | ok value => exact hok hparser
      | error error => exact herror cursor after error hparser

theorem FailsAhead.bind {next : α → Parser β} (hfirst : parser.GoesAhead)
    (hnext : ∀ value, (next value).FailsAhead) : (parser >>= next).FailsAhead := by
  intro cursor after error h
  cases hparser : parser cursor with
  | mk outcome middle =>
      have hmiddle := hfirst.of_eq hparser
      cases outcome with
      | ok value =>
          rw [bind_of_ok hparser] at h
          exact hmiddle.trans (hnext value middle after error h)
      | error failure =>
          rw [bind_of_error hparser] at h
          cases h
          exact hmiddle

theorem GoesAhead.bind {next : α → Parser β} (hfirst : parser.GoesAhead) (hnext : ∀ value, (next value).GoesAhead) :
    (parser >>= next).GoesAhead := by
  refine goesAhead_of (fun {cursor after value} h => ?_) (FailsAhead.bind hfirst fun value => (hnext value).failsAhead)
  obtain ⟨first, middle, hparser, hbehind⟩ := bind_eq_ok.mp h
  exact (hfirst.of_eq hparser).trans ((hnext first).of_eq hbehind)

theorem goesAhead_literal (text : String) : (literal text).GoesAhead := by
  refine goesAhead_of (fun h => (moved_of_literal h).ahead) (fun cursor after error h => ?_)
  unfold literal at h
  split at h
  case isTrue => cases congrArg Prod.fst h
  case isFalse => exact (goesAhead_fail _).of_eq h

theorem goesAhead_lexeme (measure : List Char → Option Nat) (expected : String) :
    (lexeme measure expected).GoesAhead := by
  refine goesAhead_of (fun h => ?_) (fun cursor after error h => ?_)
  · obtain ⟨-, -, -, -, hmoved⟩ := lexeme_eq_ok h
    exact hmoved.ahead
  · unfold lexeme at h
    split at h
    case h_1 => cases congrArg Prod.fst h
    case h_2 => exact (goesAhead_fail _).of_eq h

theorem GoesAhead.withDefault (h : parser.GoesAhead) (default : α) : (withDefault parser default).GoesAhead := by
  intro cursor
  cases hparser : parser cursor with
  | mk outcome after =>
      cases outcome with
      | ok value =>
          rw [withDefault_of_ok default hparser]
          exact h.of_eq hparser
      | error error =>
          rw [withDefault_of_error default hparser]
          exact (Cursor.back_restore after cursor).ahead

theorem GoesAhead.repeated (h : parser.GoesAhead) (limit : Nat) : (repeated parser limit).GoesAhead := by
  induction limit with
  | zero => exact goesAhead_fail _
  | succ limit ih =>
      intro cursor
      cases hparser : parser cursor with
      | mk outcome middle =>
          cases outcome with
          | error error =>
              simp only [Parser.repeated, hparser]
              exact (Cursor.back_restore middle cursor).ahead
          | ok value =>
              have hmiddle := h.of_eq hparser
              cases hothers : Parser.repeated parser limit middle with
              | mk outcome last =>
                  have hlast := hmiddle.trans (ih.of_eq hothers)
                  cases outcome <;> simp only [Parser.repeated, hparser, hothers] <;> exact hlast

theorem GoesAhead.many (h : parser.GoesAhead) : (many parser).GoesAhead := fun cursor => h.repeated _ cursor

theorem goesAhead_indent : indent.GoesAhead := by
  intro cursor
  unfold indent
  split
  case h_1 => exact (Cursor.Back.refl cursor).ahead
  case h_2 => exact goesAhead_fail _ cursor

theorem goesAhead_openBlock (column : Nat) : (openBlock column).GoesAhead :=
  fun cursor => ⟨⟨[], rfl, rfl⟩, List.suffix_cons column cursor.indents⟩

/-- Where no block is open, none is closed. -/
theorem failsAhead_closeBlock : closeBlock.FailsAhead := by
  intro cursor after error h
  unfold closeBlock at h
  split at h
  case h_1 => cases congrArg Prod.fst h
  case h_2 => exact (goesAhead_fail _).of_eq h

end Parser

end Cadence
