import Cadence.Source.Parser

/-! What parsers do at a cursor. The first half takes a success apart: which smaller successes it is made
of, and over which text the cursor moved. The second half foretells an outcome from what is left of the
text and the open blocks alone: the place and the furthest failure never decide whether a parser succeeds.
Before that stand the same few facts about plain results. -/

namespace Cadence

/-- A success of two steps, taken apart. -/
theorem except_bind_eq_ok {ε α β : Type} {first : Except ε α} {next : α → Except ε β} {value : β} :
    first >>= next = .ok value ↔ ∃ middle, first = .ok middle ∧ next middle = .ok value := by
  cases first with
  | error error =>
      constructor
      · intro h
        cases h
      · rintro ⟨middle, h, -⟩
        cases h
  | ok middle =>
      constructor
      · intro h
        exact ⟨middle, rfl, h⟩
      · rintro ⟨_, hsame, h⟩
        cases hsame
        exact h

/-- A failure of two steps is the failure of one of them. -/
theorem except_bind_eq_error {ε α β : Type} {first : Except ε α} {next : α → Except ε β} {error : ε} :
    first >>= next = .error error ↔ first = .error error ∨ ∃ middle, first = .ok middle ∧ next middle = .error error := by
  cases first with
  | error failure =>
      have hbind : (Except.error failure >>= next : Except ε β) = .error failure := rfl
      simp [hbind]
  | ok middle =>
      have hbind : (Except.ok middle >>= next : Except ε β) = next middle := rfl
      simp [hbind]

theorem error_of_mapError {ε ε' α : Type} {result : Except ε α} {f : ε → ε'} {error : ε'}
    (h : result.mapError f = .error error) : ∃ cause, result = .error cause ∧ f cause = error := by
  cases result with
  | error cause => exact ⟨cause, rfl, Except.error.inj h⟩
  | ok found => cases h

theorem ok_of_mapError {ε ε' α : Type} {result : Except ε α} {f : ε → ε'} {value : α}
    (h : result.mapError f = .ok value) : result = .ok value := by
  cases result with
  | error error => cases h
  | ok found =>
      cases h
      rfl

theorem exists_ok_of_map {ε α β : Type} {result : Except ε α} {f : α → β} {image : β}
    (h : result.toOption.map f = some image) : ∃ value, result = .ok value ∧ f value = image := by
  cases result with
  | error error => cases h
  | ok value => exact ⟨value, rfl, Option.some.inj h⟩

theorem exists_error_of_isOk {ε α : Type} {result : Except ε α} (h : result.isOk = false) :
    ∃ error, result = .error error := by
  cases result with
  | error error => exact ⟨error, rfl⟩
  | ok value => cases h

/-- The failure of a plain result, if it is one. -/
def failureOf? {ε α : Type} : Except ε α → Option ε
  | .ok _ => none
  | .error error => some error

theorem eq_error_of_failureOf {ε α : Type} {result : Except ε α} {error : ε} (h : failureOf? result = some error) :
    result = .error error := by
  cases result with
  | error found => exact congrArg Except.error (Option.some.inj h)
  | ok value => cases h

theorem Position.afterAll_append (position : Position) (first second : List Char) :
    position.afterAll (first ++ second) = (position.afterAll first).afterAll second :=
  List.foldl_append

/-- Reading went from one cursor to another over `text`, and the open blocks are the same again. -/
structure Cursor.Moved (before after : Cursor) (text : List Char) : Prop where
  rest : before.rest = text ++ after.rest
  position : after.position = before.position.afterAll text
  indents : after.indents = before.indents

namespace Cursor.Moved

variable {first second third : Cursor} {text behind : List Char}

theorem refl (cursor : Cursor) : cursor.Moved cursor [] := ⟨rfl, rfl, rfl⟩

theorem trans (hfirst : first.Moved second text) (hsecond : second.Moved third behind) :
    first.Moved third (text ++ behind) where
  rest := by rw [hfirst.rest, hsecond.rest, List.append_assoc]
  position := by rw [hsecond.position, hfirst.position, Position.afterAll_append]
  indents := hsecond.indents.trans hfirst.indents

theorem advance (cursor : Cursor) (count : Nat) :
    cursor.Moved (cursor.advance count) (cursor.rest.take count) :=
  ⟨(List.take_append_drop count cursor.rest).symm, rfl, rfl⟩

/-- An attempt that was given up leaves no trace in where reading stands. -/
theorem of_restore {failed : Cursor} (h : (failed.restore first).Moved second text) :
    first.Moved second text := ⟨h.rest, h.position, h.indents⟩

theorem restore (failed cursor : Cursor) : cursor.Moved (failed.restore cursor) [] := ⟨rfl, rfl, rfl⟩

/-- What was read while one more block was open. -/
theorem inBlock {column closed : Nat} {outer : List Nat}
    (h : { first with indents := column :: first.indents }.Moved second text)
    (houter : second.indents = closed :: outer) :
    first.Moved { second with indents := outer } text where
  rest := h.rest
  position := h.position
  indents := by
    have hindents := h.indents
    rw [houter] at hindents
    exact (List.cons.inj hindents).2

end Cursor.Moved

namespace Parser

variable {α β : Type} {parser : Parser α} {next : α → Parser β} {cursor after : Cursor}

theorem bind_eq_ok {value : β} :
    (parser >>= next) cursor = (.ok value, after) ↔
      ∃ first middle, parser cursor = (.ok first, middle) ∧ next first middle = (.ok value, after) := by
  change Parser.bind parser next cursor = _ ↔ _
  rw [Parser.bind]
  rcases parser cursor with ⟨error | first, middle⟩
  · simp
  · constructor
    · intro h
      exact ⟨first, middle, rfl, h⟩
    · rintro ⟨_, _, hsame, hnext⟩
      cases hsame
      exact hnext

theorem pure_eq_ok {given value : α} :
    (pure given : Parser α) cursor = (.ok value, after) ↔ given = value ∧ cursor = after := by
  change Parser.pure given cursor = _ ↔ _
  simp [Parser.pure]

theorem fail_ne_ok (message : String) (value : α) : fail message cursor ≠ (.ok value, after) := by
  simp [fail]

theorem moved_of_literal {text value : String} (h : literal text cursor = (.ok value, after)) :
    cursor.Moved after text.toList := by
  rw [literal] at h
  split at h
  case isTrue hprefix =>
    obtain ⟨behind, hbehind⟩ := List.isPrefixOf_iff_prefix.mp hprefix
    obtain ⟨-, rfl⟩ := Prod.mk.inj h
    have hmoved := Cursor.Moved.advance cursor text.length
    rwa [← hbehind, ← String.length_toList, List.take_left] at hmoved
  case isFalse => exact absurd h (fail_ne_ok _ _)

theorem lexeme_eq_ok {measure : List Char → Option Nat} {expected value : String}
    (h : lexeme measure expected cursor = (.ok value, after)) :
    ∃ count, measure cursor.rest = some count ∧ value.toList = cursor.rest.take count ∧
      after.rest = cursor.rest.drop count ∧ cursor.Moved after value.toList := by
  rw [lexeme] at h
  split at h
  case h_1 count hcount =>
    obtain ⟨hvalue, rfl⟩ := Prod.mk.inj h
    cases hvalue
    refine ⟨count, hcount, String.toList_ofList, rfl, ?_⟩
    rw [String.toList_ofList]
    exact Cursor.Moved.advance cursor count
  case h_2 => exact absurd h (fail_ne_ok _ _)

/-- Options that fail one after the other. Each of them begins where the first one began; what is held of failures is
handed on. -/
inductive FailInTurn : List (Parser α) → Cursor → Cursor → Prop where
  | nil (cursor : Cursor) : FailInTurn [] cursor cursor
  | cons {option : Parser α} {options : List (Parser α)} {cursor failed last : Cursor} {error : ParseError}
      (first : option cursor = (.error error, failed)) (others : FailInTurn options (failed.restore cursor) last) :
      FailInTurn (option :: options) cursor last

theorem FailInTurn.exists_restore {options : List (Parser α)} {last : Cursor} (h : FailInTurn options cursor last) :
    ∃ failed : Cursor, last = failed.restore cursor := by
  induction h with
  | nil cursor => exact ⟨cursor, rfl⟩
  | cons _ _ ih =>
      obtain ⟨failed, hlast⟩ := ih
      exact ⟨failed, hlast⟩

/-- A choice succeeds as the first of its options that does. -/
theorem firstOf_eq_ok_iff {options : List (Parser α)} {value : α} :
    firstOf options cursor = (.ok value, after) ↔
      ∃ before option behind last, options = before ++ option :: behind ∧ FailInTurn before cursor last ∧
        option last = (.ok value, after) := by
  constructor
  · intro h
    induction options generalizing cursor with
    | nil => exact absurd h (fail_ne_ok _ _)
    | cons option options ih =>
        simp only [firstOf] at h
        split at h
        case h_1 hoption => exact ⟨[], option, options, cursor, rfl, .nil cursor, hoption.trans h⟩
        case h_2 failed hoption =>
          obtain ⟨before, chosen, behind, last, rfl, hbefore, hchosen⟩ := ih h
          exact ⟨option :: before, chosen, behind, last, rfl, .cons hoption hbefore, hchosen⟩
  · rintro ⟨before, option, behind, last, rfl, hbefore, hoption⟩
    induction hbefore with
    | nil cursor => simp only [List.nil_append, firstOf, hoption]
    | cons hfirst _ ih =>
        simp only [List.cons_append, firstOf, hfirst]
        exact ih hoption

/-- A success of a choice is that of one of its options, begun at the same place. -/
theorem firstOf_eq_ok {options : List (Parser α)} {value : α}
    (h : firstOf options cursor = (.ok value, after)) :
    ∃ option ∈ options, ∃ failed : Cursor, option (failed.restore cursor) = (.ok value, after) := by
  obtain ⟨before, option, behind, last, rfl, hbefore, hoption⟩ := firstOf_eq_ok_iff.mp h
  obtain ⟨failed, rfl⟩ := hbefore.exists_restore
  exact ⟨option, List.mem_append_right before List.mem_cons_self, failed, hoption⟩

theorem withDefault_eq_ok {default value : α} (h : withDefault parser default cursor = (.ok value, after)) :
    parser cursor = (.ok value, after) ∨ value = default ∧ ∃ failed : Cursor, after = failed.restore cursor := by
  rw [withDefault] at h
  split at h
  case h_1 hparser => exact Or.inl (by rw [← h]; exact hparser)
  case h_2 failed hparser =>
    obtain ⟨hvalue, rfl⟩ := Prod.mk.inj h
    cases hvalue
    exact Or.inr ⟨rfl, failed, rfl⟩

/-- A parser applied again and again: the values it gives one after the other. -/
inductive Chain (parser : Parser α) : Cursor → List α → Cursor → Prop where
  | nil (cursor : Cursor) : Chain parser cursor [] cursor
  | cons {cursor middle last : Cursor} {value : α} {values : List α}
      (first : parser cursor = (.ok value, middle)) (others : Chain parser middle values last) :
      Chain parser cursor (value :: values) last

/-- A repetition succeeds with the values that come before the first failure, if this comes within the limit, and
where the application that fails begins. -/
theorem repeated_eq_ok_iff {limit : Nat} {values : List α} :
    repeated parser limit cursor = (.ok values, after) ↔
      values.length < limit ∧ ∃ last error failed, Chain parser cursor values last ∧
        parser last = (.error error, failed) ∧ after = failed.restore last := by
  constructor
  · intro h
    induction limit generalizing cursor values after with
    | zero => exact absurd h (fail_ne_ok _ _)
    | succ limit ih =>
        simp only [repeated] at h
        split at h
        case h_1 error failed hparser =>
          obtain ⟨hvalues, rfl⟩ := Prod.mk.inj h
          cases hvalues
          exact ⟨Nat.succ_pos limit, cursor, error, failed, .nil cursor, hparser, rfl⟩
        case h_2 value middle hparser =>
          split at h
          case h_1 others last hothers =>
            obtain ⟨hvalues, rfl⟩ := Prod.mk.inj h
            cases hvalues
            obtain ⟨hlimit, final, error, failed, hchain, hrest⟩ := ih hothers
            exact ⟨Nat.succ_lt_succ hlimit, final, error, failed, .cons hparser hchain, hrest⟩
          case h_2 => exact absurd (congrArg Prod.fst h) (by simp)
  · rintro ⟨hlimit, last, error, failed, hchain, hlast, rfl⟩
    induction hchain generalizing limit with
    | nil cursor =>
        obtain ⟨limit, rfl⟩ := Nat.exists_eq_succ_of_ne_zero (Nat.ne_of_gt hlimit)
        simp only [repeated, hlast]
    | cons hfirst _ ih =>
        obtain ⟨limit, rfl⟩ := Nat.exists_eq_succ_of_ne_zero (Nat.ne_of_gt (Nat.lt_of_le_of_lt (Nat.zero_le _) hlimit))
        simp only [repeated, hfirst, ih (Nat.lt_of_succ_lt_succ hlimit) hlast]

theorem chain_of_many {values : List α} (h : many parser cursor = (.ok values, after)) :
    ∃ last failed : Cursor, Chain parser cursor values last ∧ after = failed.restore last := by
  obtain ⟨-, last, -, failed, hchain, -, hafter⟩ := repeated_eq_ok_iff.mp h
  exact ⟨last, failed, hchain, hafter⟩

theorem indent_eq_ok {column : Nat} (h : indent cursor = (.ok column, after)) :
    (∃ outer, cursor.indents = column :: outer) ∧ after = cursor := by
  simp only [indent] at h
  split at h
  case h_1 column' outer hindents =>
    obtain ⟨hcolumn, rfl⟩ := Prod.mk.inj h
    cases hcolumn
    exact ⟨⟨outer, hindents⟩, rfl⟩
  case h_2 => exact absurd h (fail_ne_ok _ _)

theorem closeBlock_eq_ok (h : closeBlock cursor = (.ok (), after)) :
    ∃ column outer, cursor.indents = column :: outer ∧ after = { cursor with indents := outer } := by
  simp only [closeBlock] at h
  split at h
  case h_1 column outer hindents =>
    obtain ⟨-, rfl⟩ := Prod.mk.inj h
    exact ⟨column, outer, hindents, rfl⟩
  case h_2 => exact absurd h (fail_ne_ok _ _)

end Parser

/-! ### Outcomes foretold -/

/-- What a cursor shows to a parser: the text that is left and the open blocks. -/
structure View where
  rest : List Char
  indents : List Nat

def Cursor.view (cursor : Cursor) : View := ⟨cursor.rest, cursor.indents⟩

namespace Parser

variable {α β : Type}

/-- At every cursor with the first view the parser succeeds, and leaves one with the second view. -/
def Gives (parser : Parser α) (before : View) (value : α) (behind : View) : Prop :=
  ∀ cursor : Cursor, cursor.view = before →
    ∃ after, parser cursor = (.ok value, after) ∧ after.view = behind

/-- At every cursor with this view the parser fails. -/
def Refuses (parser : Parser α) (before : View) : Prop :=
  ∀ cursor : Cursor, cursor.view = before → ∃ error after, parser cursor = (.error error, after)

variable {parser : Parser α} {next : α → Parser β} {first second third : View} {value : α} {result : β}

theorem bind_of_ok {cursor after : Cursor} (h : parser cursor = (.ok value, after)) :
    (parser >>= next) cursor = next value after := by
  change Parser.bind parser next cursor = _
  rw [Parser.bind, h]

theorem bind_of_error {cursor after : Cursor} {error : ParseError}
    (h : parser cursor = (.error error, after)) : (parser >>= next) cursor = (.error error, after) := by
  change Parser.bind parser next cursor = _
  rw [Parser.bind, h]

theorem gives_pure (value : α) (view : View) : (pure value : Parser α).Gives view value view :=
  fun cursor hview => ⟨cursor, rfl, hview⟩

theorem refuses_fail (message : String) (view : View) : (fail message : Parser α).Refuses view :=
  fun cursor _ => ⟨cursor.error message, cursor.record message, rfl⟩

theorem Gives.bind (hfirst : parser.Gives first value second) (hnext : (next value).Gives second result third) :
    (parser >>= next).Gives first result third := by
  intro cursor hview
  obtain ⟨middle, hparser, hmiddle⟩ := hfirst cursor hview
  rw [bind_of_ok hparser]
  exact hnext middle hmiddle

theorem Gives.bind_refuses (hfirst : parser.Gives first value second) (hnext : (next value).Refuses second) :
    (parser >>= next).Refuses first := by
  intro cursor hview
  obtain ⟨middle, hparser, hmiddle⟩ := hfirst cursor hview
  rw [bind_of_ok hparser]
  exact hnext middle hmiddle

theorem Refuses.bind (h : parser.Refuses first) : (parser >>= next).Refuses first := by
  intro cursor hview
  obtain ⟨error, after, hparser⟩ := h cursor hview
  exact ⟨error, after, bind_of_error hparser⟩

theorem gives_literal (text : String) (tail : List Char) (indents : List Nat) :
    (literal text).Gives ⟨text.toList ++ tail, indents⟩ text ⟨tail, indents⟩ := by
  intro cursor hview
  obtain ⟨hrest, hindents⟩ := View.mk.inj hview
  refine ⟨cursor.advance text.length, ?_, ?_⟩
  · rw [literal, hrest, if_pos (List.isPrefixOf_iff_prefix.mpr (List.prefix_append _ _))]
  · rw [Cursor.view, Cursor.advance, hrest, ← String.length_toList, List.drop_left, hindents]

theorem refuses_literal {text : String} {rest : List Char} (h : ¬text.toList <+: rest) (indents : List Nat) :
    (literal text).Refuses ⟨rest, indents⟩ := by
  intro cursor hview
  obtain ⟨hrest, -⟩ := View.mk.inj hview
  rw [literal, hrest, if_neg (fun hprefix => h (List.isPrefixOf_iff_prefix.mp hprefix))]
  exact refuses_fail _ _ cursor hview

theorem gives_lexeme_take {measure : List Char → Option Nat} {rest : List Char} {count : Nat}
    (expected : String) (h : measure rest = some count) (indents : List Nat) :
    (lexeme measure expected).Gives ⟨rest, indents⟩ (String.ofList (rest.take count))
      ⟨rest.drop count, indents⟩ := by
  intro cursor hview
  obtain ⟨hrest, hindents⟩ := View.mk.inj hview
  refine ⟨cursor.advance count, ?_, ?_⟩
  · simp only [lexeme, hrest, h]
  · rw [Cursor.view, Cursor.advance, hrest, hindents]

theorem gives_lexeme {measure : List Char → Option Nat} {text : String} {tail : List Char}
    (expected : String) (h : measure (text.toList ++ tail) = some text.toList.length) (indents : List Nat) :
    (lexeme measure expected).Gives ⟨text.toList ++ tail, indents⟩ text ⟨tail, indents⟩ := by
  have hgives := gives_lexeme_take expected h indents
  rwa [List.take_left, List.drop_left, String.ofList_toList] at hgives

theorem refuses_lexeme {measure : List Char → Option Nat} {rest : List Char} (expected : String)
    (h : measure rest = none) (indents : List Nat) :
    (lexeme measure expected).Refuses ⟨rest, indents⟩ := by
  intro cursor hview
  obtain ⟨hrest, -⟩ := View.mk.inj hview
  simp only [lexeme, hrest, h]
  exact refuses_fail expected _ cursor hview

theorem Gives.firstOf_cons (h : parser.Gives first value second) (options : List (Parser α)) :
    (firstOf (parser :: options)).Gives first value second := by
  intro cursor hview
  obtain ⟨after, hparser, hafter⟩ := h cursor hview
  exact ⟨after, by simp only [firstOf, hparser], hafter⟩

theorem Refuses.firstOf_gives {options : List (Parser α)} (h : parser.Refuses first)
    (hothers : (firstOf options).Gives first value second) :
    (firstOf (parser :: options)).Gives first value second := by
  intro cursor hview
  obtain ⟨error, failed, hparser⟩ := h cursor hview
  obtain ⟨after, hoptions, hafter⟩ := hothers (failed.restore cursor) hview
  exact ⟨after, by simp only [firstOf, hparser, hoptions], hafter⟩

theorem refuses_firstOf_nil (view : View) : (firstOf [] : Parser α).Refuses view := refuses_fail _ _

theorem Refuses.firstOf_cons {options : List (Parser α)} (h : parser.Refuses first)
    (hothers : (firstOf options).Refuses first) : (firstOf (parser :: options)).Refuses first := by
  intro cursor hview
  obtain ⟨error, failed, hparser⟩ := h cursor hview
  obtain ⟨last, after, hoptions⟩ := hothers (failed.restore cursor) hview
  exact ⟨last, after, by simp only [firstOf, hparser, hoptions]⟩

theorem Gives.withDefault (h : parser.Gives first value second) (default : α) :
    (withDefault parser default).Gives first value second := by
  intro cursor hview
  obtain ⟨after, hparser, hafter⟩ := h cursor hview
  exact ⟨after, by simp only [Parser.withDefault, hparser], hafter⟩

theorem Refuses.withDefault (h : parser.Refuses first) (default : α) :
    (withDefault parser default).Gives first default first := by
  intro cursor hview
  obtain ⟨error, failed, hparser⟩ := h cursor hview
  exact ⟨failed.restore cursor, by simp only [Parser.withDefault, hparser], hview⟩

/-- A repetition that comes to its end: the values of a parser applied again and again, each of which takes
some text, up to a view at which it fails. -/
inductive Run (parser : Parser α) : View → List α → View → Prop where
  | stop {view : View} (last : parser.Refuses view) : Run parser view [] view
  | step {view middle behind : View} {value : α} {values : List α}
      (first : parser.Gives view value middle) (shorter : middle.rest.length < view.rest.length)
      (others : Run parser middle values behind) :
      Run parser view (value :: values) behind

theorem Run.repeated {values : List α} {limit : Nat} (h : Run parser first values second)
    (hlimit : values.length < limit) : (repeated parser limit).Gives first values second := by
  induction h generalizing limit with
  | stop hlast =>
      cases limit with
      | zero => exact absurd hlimit (Nat.not_lt_zero _)
      | succ limit =>
          intro cursor hview
          obtain ⟨error, failed, hparser⟩ := hlast cursor hview
          exact ⟨failed.restore cursor, by simp only [Parser.repeated, hparser], hview⟩
  | step hfirst _ _ ih =>
      cases limit with
      | zero => exact absurd hlimit (Nat.not_lt_zero _)
      | succ limit =>
          intro cursor hview
          obtain ⟨middle, hparser, hmiddle⟩ := hfirst cursor hview
          obtain ⟨after, hothers, hafter⟩ := ih (Nat.lt_of_succ_lt_succ hlimit) middle hmiddle
          exact ⟨after, by simp only [Parser.repeated, hparser, hothers], hafter⟩

theorem Run.length_le {values : List α} (h : Run parser first values second) :
    values.length ≤ first.rest.length := by
  induction h with
  | stop => exact Nat.zero_le _
  | step _ hshorter _ ih => exact Nat.succ_le_of_lt (Nat.lt_of_le_of_lt ih hshorter)

/-- The limit of a repetition is never in the way. -/
theorem Run.many {values : List α} (h : Run parser first values second) :
    (many parser).Gives first values second := by
  intro cursor hview
  refine Run.repeated h ?_ cursor hview
  have hrest : cursor.rest = first.rest := congrArg View.rest hview
  have hidle : 0 < idleLimit := by decide
  have hlength := h.length_le
  rw [hrest]
  omega

theorem gives_indent (rest : List Char) (column : Nat) (outer : List Nat) :
    indent.Gives ⟨rest, column :: outer⟩ column ⟨rest, column :: outer⟩ := by
  intro cursor hview
  obtain ⟨-, hindents⟩ := View.mk.inj hview
  exact ⟨cursor, by simp only [indent, hindents], hview⟩

theorem gives_openBlock (column : Nat) (rest : List Char) (indents : List Nat) :
    (openBlock column).Gives ⟨rest, indents⟩ () ⟨rest, column :: indents⟩ := by
  intro cursor hview
  obtain ⟨hrest, hindents⟩ := View.mk.inj hview
  exact ⟨_, rfl, by rw [Cursor.view, hrest, hindents]⟩

theorem gives_closeBlock (rest : List Char) (column : Nat) (outer : List Nat) :
    closeBlock.Gives ⟨rest, column :: outer⟩ () ⟨rest, outer⟩ := by
  intro cursor hview
  obtain ⟨hrest, hindents⟩ := View.mk.inj hview
  refine ⟨{ cursor with indents := outer }, by simp only [closeBlock, hindents], ?_⟩
  rw [Cursor.view, hrest]

end Parser

end Cadence
