import Cadence.Proofs.Tree.Failure
import Cadence.Proofs.Tree.Script

/-! Reading comes to an end. With every level that encloses something some text is read first, and the items of a
repetition read some text whenever they succeed. So a script whose rules call each other never goes deeper, and never
repeats anything more often, than there are characters left; and the bounds of the rules are not what decides. -/

namespace Cadence

namespace Parser

variable {α β : Type} {parser : Parser α} {cursor after : Cursor} {value : α}

/-- Whether a parser reads some text whenever it succeeds. -/
def Consumes (parser : Parser α) : Prop :=
  ∀ ⦃cursor after : Cursor⦄ ⦃value : α⦄, parser cursor = (.ok value, after) →
    ∃ text, text ≠ [] ∧ cursor.Moved after text

/-- Whether a parser that succeeds where fewer than `before` characters are left leaves fewer than `behind`. -/
def Leaves (parser : Parser α) (before behind : Nat) : Prop :=
  ∀ ⦃cursor after : Cursor⦄ ⦃value : α⦄, cursor.rest.length < before → parser cursor = (.ok value, after) →
    after.rest.length < behind

theorem Consumes.length_lt (h : parser.Consumes) (hparser : parser cursor = (.ok value, after)) :
    after.rest.length < cursor.rest.length := by
  obtain ⟨text, htext, hmoved⟩ := h hparser
  rw [hmoved.rest, List.length_append]
  exact Nat.lt_add_of_pos_left (List.length_pos_iff.mpr htext)

theorem Consumes.leaves (h : parser.Consumes) (length : Nat) : parser.Leaves (length + 1) length :=
  fun _ _ _ hcursor hparser => Nat.lt_of_lt_of_le (h.length_lt hparser) (Nat.le_of_lt_succ hcursor)

theorem GoesAhead.leaves (h : parser.GoesAhead) (length : Nat) : parser.Leaves length length := by
  intro cursor after value hcursor hparser
  obtain ⟨text, hrest, -⟩ := (h.of_eq hparser).moved
  rw [hrest, List.length_append] at hcursor
  exact Nat.lt_of_le_of_lt (Nat.le_add_left _ _) hcursor

/-- A parser that reads some text whenever it succeeds fails in the end, once it has succeeded as often as there are
characters or before. -/
theorem Consumes.exists_chain (h : parser.Consumes) (cursor : Cursor) :
    ∃ values last error failed, Chain parser cursor values last ∧ parser last = (.error error, failed) ∧
      values.length ≤ cursor.rest.length := by
  -- every success leaves less text for the next one
  induction hlength : cursor.rest.length using Nat.strongRecOn generalizing cursor with
  | ind length ih =>
      rcases hparser : parser cursor with ⟨error | value, middle⟩
      · exact ⟨[], cursor, error, middle, .nil cursor, hparser, Nat.zero_le _⟩
      · have hshorter := h.length_lt hparser
        rw [hlength] at hshorter
        obtain ⟨values, last, error, failed, hchain, hlast, hvalues⟩ := ih _ hshorter middle rfl
        exact ⟨value :: values, last, error, failed, .cons hparser hchain, hlast,
          Nat.succ_le_of_lt (Nat.lt_of_le_of_lt hvalues hshorter)⟩

/-- The limit of a repetition is never in the way. -/
theorem many_of_chain {values : List α} {last failed : Cursor} {error : ParseError}
    (hchain : Chain parser cursor values last) (hlast : parser last = (.error error, failed))
    (hvalues : values.length ≤ cursor.rest.length) : many parser cursor = (.ok values, failed.restore last) := by
  have hidle : 0 < idleLimit := by decide
  exact repeated_eq_ok_iff.mpr ⟨by omega, last, error, failed, hchain, hlast, rfl⟩

end Parser

namespace Grammar

open Cadence.Parser

/-- No step gives text back. -/
theorem Primitive.leaves {α : Type} (action : Primitive α) (length : Nat) : action.parser.Leaves length length := by
  cases action with
  | fail message => exact (goesAhead_fail message).leaves length
  | literal text => exact (goesAhead_literal text).leaves length
  | lexeme measure expected => exact (goesAhead_lexeme measure expected).leaves length
  | indent => exact goesAhead_indent.leaves length
  | openBlock column => exact (goesAhead_openBlock column).leaves length
  | closeBlock =>
      intro cursor after value hcursor hclose
      obtain ⟨column, outer, -, rfl⟩ := closeBlock_eq_ok hclose
      exact hcursor
  | ending =>
      intro cursor after trailing hcursor hending
      obtain ⟨text, last, htext, hfinish⟩ := bind_eq_ok.mp hending
      split at hfinish
      case isTrue =>
        obtain ⟨-, rfl⟩ := Prod.mk.inj hfinish
        exact (goesAhead_lexeme _ _).leaves length hcursor htext
      case isFalse =>
        split at hfinish
        · split at hfinish
          · cases congrArg Prod.fst hfinish
          · exact absurd hfinish (fail_ne_ok _ _)
        · exact absurd hfinish (fail_ne_ok _ _)

namespace Script

variable {α β : Type} {script : Script α} {parser : Parser α} {length behind : Nat}

/-- Whether a script comes to an end wherever fewer than `length` characters are left, and to what a parser does. -/
def Ends (length : Nat) (script : Script α) (parser : Parser α) : Prop :=
  ∀ cursor : Cursor, cursor.rest.length < length → Run script cursor (parser cursor)

theorem Ends.mono (h : Ends length script parser) (hle : behind ≤ length) : Ends behind script parser :=
  fun cursor hcursor => h cursor (Nat.lt_of_lt_of_le hcursor hle)

theorem ends_pure (value : α) : Ends length (.pure value) (.pure value) := fun cursor _ => .pure value cursor

theorem ends_step (action : Primitive α) : Ends length (.step action) action.parser :=
  fun cursor _ => .step action cursor

theorem Ends.call {kind : RuleKind} {parser : Parser Tree} (h : Ends length kind.script parser) :
    Ends length (.call kind) parser := fun cursor hcursor => .call (h cursor hcursor)

/-- What comes behind a script ends if it does so for the text that the script leaves. -/
theorem Ends.bind {next : α → Script β} {nextParser : α → Parser β} (h : Ends length script parser)
    (hleaves : parser.Leaves length behind) (hnext : ∀ value, Ends behind (next value) (nextParser value)) :
    Ends length (script >>= next) (parser >>= nextParser) := by
  intro cursor hcursor
  have hfirst := h cursor hcursor
  rcases hparser : parser cursor with ⟨error | value, middle⟩
  · rw [hparser] at hfirst
    rw [bind_of_error hparser]
    exact .bind_error hfirst
  · rw [hparser] at hfirst
    rw [bind_of_ok hparser]
    exact .bind_ok hfirst (hnext value middle (hleaves hcursor hparser))

/-- What goes ahead leaves no more text than there was, and what comes behind it ends as far as it does itself. -/
theorem Ends.bind_ahead {next : α → Script β} {nextParser : α → Parser β} (h : Ends length script parser)
    (hahead : parser.GoesAhead) (hnext : ∀ value, Ends length (next value) (nextParser value)) :
    Ends length (script >>= next) (parser >>= nextParser) :=
  h.bind (hahead.leaves length) hnext

theorem ends_step_bind (action : Primitive α) {next : α → Script β} {nextParser : α → Parser β}
    (hnext : ∀ value, Ends length (next value) (nextParser value)) :
    Ends length (.step action >>= next) (action.parser >>= nextParser) :=
  (ends_step action).bind (action.leaves length) hnext

theorem Ends.ite {condition : Prop} [Decidable condition] {other : Script α} {otherParser : Parser α}
    (hyes : Ends length script parser) (hno : Ends length other otherParser) :
    Ends length (if condition then script else other) (if condition then parser else otherParser) := by
  by_cases hcondition : condition
  · rw [if_pos hcondition, if_pos hcondition]
    exact hyes
  · rw [if_neg hcondition, if_neg hcondition]
    exact hno

/-- The options of a choice begin with as much text left as the choice itself. -/
theorem ends_firstOf {scripts : List (Script α)} {parsers : List (Parser α)}
    (h : List.Forall₂ (Ends length) scripts parsers) : Ends length (firstOf scripts) (Parser.firstOf parsers) := by
  induction h with
  | nil => exact ends_step (.fail _)
  | @cons script parser scripts parsers hfirst _ ih =>
      intro cursor hcursor
      have hrun := hfirst cursor hcursor
      rcases hparser : parser cursor with ⟨error | value, after⟩
      · rw [hparser] at hrun
        simp only [Parser.firstOf, hparser]
        exact .orElse_error hrun (ih (after.restore cursor) hcursor)
      · rw [hparser] at hrun
        simp only [Parser.firstOf, hparser]
        exact .orElse_ok hrun

theorem Ends.withDefault (h : Ends length script parser) (default : α) :
    Ends length (withDefault script default) (Parser.withDefault parser default) := by
  intro cursor hcursor
  have hrun := h cursor hcursor
  rcases hparser : parser cursor with ⟨error | value, after⟩
  · rw [hparser] at hrun
    rw [withDefault_of_error default hparser]
    exact .orElse_error hrun (.pure default _)
  · rw [hparser] at hrun
    rw [withDefault_of_ok default hparser]
    exact .orElse_ok hrun

/-- A repetition runs as the chain of its items up to the one that fails. -/
theorem Ends.run_of_chain (h : Ends length script parser) (hconsumes : parser.Consumes) {collect : List α → β}
    {cursor last failed : Cursor} {values : List α} {error : ParseError} (hchain : Chain parser cursor values last)
    (hlast : parser last = (.error error, failed)) (hcursor : cursor.rest.length < length) :
    Run (.many script collect) cursor (.ok (collect values), failed.restore last) := by
  -- for any `collect`, which an item that was read becomes part of
  induction hchain generalizing collect with
  | nil cursor =>
      have hrun := h cursor hcursor
      rw [hlast] at hrun
      exact .many_stop hrun
  | @cons cursor middle last value values hfirst _ ih =>
      have hrun := h cursor hcursor
      rw [hfirst] at hrun
      exact .many_step hrun (ih hlast (Nat.lt_trans (hconsumes.length_lt hfirst) hcursor))

theorem Ends.many (h : Ends length script parser) (hconsumes : parser.Consumes) :
    Ends length (.many script id) (Parser.many parser) := by
  intro cursor hcursor
  obtain ⟨values, last, error, failed, hchain, hlast, hvalues⟩ := hconsumes.exists_chain cursor
  rw [many_of_chain hchain hlast hvalues]
  exact h.run_of_chain hconsumes hchain hlast hcursor

end Script

open Script (Ends ends_pure ends_step ends_step_bind ends_firstOf)

section

variable {length : Nat}

theorem ends_optionalSpaces : Ends length Script.optionalSpaces optionalSpaces := (ends_step _).withDefault _

theorem ends_blankLines : Ends length Script.blankLines blankLines := (ends_step _).withDefault _

theorem ends_gap : Ends length Script.gap gap :=
  ends_step_bind _ fun _ =>
    ends_step_bind _ fun _ =>
      ends_blankLines.bind_ahead goesAhead_blankLines fun _ =>
        ends_optionalSpaces.bind_ahead goesAhead_optionalSpaces fun _ => ends_pure _

theorem ends_openingGap : Ends length Script.openingGap openingGap := by
  refine ends_step_bind _ fun enclosing => ?_
  refine ends_gap.bind_ahead goesAhead_gap fun read => ?_
  have hopen : Ends length (do .step (.openBlock read.indent); return read) (do openBlock read.indent; return read) :=
    ends_step_bind _ fun _ => ends_pure _
  exact .ite (ends_step_bind _ fun _ => hopen) hopen

theorem ends_innerGap : Ends length Script.innerGap innerGap := by
  refine ends_step_bind _ fun column => ?_
  refine ends_gap.bind_ahead goesAhead_gap fun read => ?_
  exact .ite (ends_step_bind _ fun _ => ends_pure _) (ends_pure _)

/-- A gap between two arguments holds a line end. -/
theorem consumes_innerGap : innerGap.Consumes := by
  intro cursor after text h
  obtain ⟨column, outer, read, -, hgap, -, -⟩ := innerGap_eq_ok h
  exact ⟨_, by simp, (gap_eq_ok hgap).1⟩

end

/-! ### Rules -/

section

variable {inner : Rules} {length : Nat}

/-- Whether the rules for what is enclosed do what the scripts come to, wherever fewer than `length` characters are
left. -/
structure Rules.End (length : Nat) (inner : Rules) : Prop where
  sound : inner.Sound
  goAhead : inner.GoAhead
  expression : Ends length (.call .expression) inner.expression
  line : Ends length (.call .line) inner.line

theorem ends_name : Ends length (.call .name) name :=
  .call (ends_step_bind _ fun _ => ends_pure _)

theorem ends_numeral : Ends length (.call .numeral) numeral := by
  refine .call (ends_step_bind _ fun digits => ?_)
  cases decimal? digits.toList with
  | some value => exact ends_pure _
  | none => exact ends_step _

/-- The parenthesis itself is read first, so that what it encloses is shorter. -/
theorem ends_paren (hinner : inner.End length) : Ends (length + 1) (.call .paren) (paren inner) := by
  have hopening : (literal "(").Consumes := fun _ _ _ h => ⟨_, by decide, moved_of_literal h⟩
  exact .call <| (ends_step (.literal "(")).bind (hopening.leaves _) fun _ =>
    ends_optionalSpaces.bind_ahead goesAhead_optionalSpaces fun _ =>
      hinner.line.bind_ahead hinner.goAhead.line fun _ =>
        ends_optionalSpaces.bind_ahead goesAhead_optionalSpaces fun _ =>
          ends_step_bind _ fun _ => ends_pure _

theorem ends_atom (hinner : inner.End length) : Ends (length + 1) (.call .atom) (atom inner) :=
  .call (ends_firstOf (.cons (ends_paren hinner) (.cons ends_name (.cons ends_numeral .nil))))

theorem consumes_rowArgument (hinner : inner.Sound) : (rowArgument inner).Consumes := by
  rintro cursor after ⟨gap, tree⟩ h
  obtain ⟨middle, hgap, -, hread⟩ := rowArgument_eq_ok hinner h
  obtain ⟨text, htext, hmoved⟩ := hread.exists_moved
  exact ⟨_, List.append_ne_nil_of_right_ne_nil _ htext, hgap.trans hmoved⟩

theorem ends_rowArgument (hinner : inner.End length) : Ends (length + 1) Script.rowArgument (rowArgument inner) :=
  ends_optionalSpaces.bind_ahead goesAhead_optionalSpaces fun _ =>
    (ends_atom hinner).bind_ahead (goesAhead_atom hinner.sound) fun _ => ends_pure _

theorem ends_row (hinner : inner.End length) : Ends (length + 1) (.call .row) (row inner) := by
  have hargument := goesAhead_rowArgument hinner.sound
  exact .call <| (ends_atom hinner).bind_ahead (goesAhead_atom hinner.sound) fun _ =>
    (ends_rowArgument hinner).bind_ahead hargument fun _ =>
      ((ends_rowArgument hinner).many (consumes_rowArgument hinner.sound)).bind_ahead hargument.many fun _ =>
        ends_pure _

theorem ends_line (hinner : inner.End length) : Ends (length + 1) (.call .line) (line inner) :=
  .call (ends_firstOf (.cons (ends_row hinner) (.cons (ends_atom hinner) .nil)))

theorem consumes_blockArgument (hinner : inner.Sound) : (blockArgument inner).Consumes := by
  intro cursor after argument h
  obtain ⟨gap, middle, hgap, hbehind⟩ := bind_eq_ok.mp h
  obtain ⟨tree, last, hexpression, hpure⟩ := bind_eq_ok.mp hbehind
  obtain ⟨-, rfl⟩ := pure_eq_ok.mp hpure
  obtain ⟨text, htext, hmoved⟩ := consumes_innerGap hgap
  exact ⟨_, List.append_ne_nil_of_left_ne_nil htext _, hmoved.trans (hinner.expression hexpression).1⟩

theorem ends_blockArgument (hinner : inner.End length) :
    Ends (length + 1) Script.blockArgument (blockArgument inner) :=
  ends_innerGap.bind (consumes_innerGap.leaves _) fun _ =>
    hinner.expression.bind_ahead hinner.goAhead.expression fun _ => ends_pure _

theorem ends_many_blockArgument (hinner : inner.End length) :
    Ends (length + 1) (.many Script.blockArgument id) (many (blockArgument inner)) :=
  (ends_blockArgument hinner).many (consumes_blockArgument hinner.sound)

/-- The head is read first, so that the arguments are shorter. -/
theorem ends_block (hinner : inner.End length) : Ends (length + 1) (.call .block) (block inner) := by
  have hhead : (line inner).Consumes := fun _ _ _ h => exists_moved_of_line (line_eq_ok hinner.sound h)
  have hothers := (goesAhead_blockArgument hinner.goAhead).many
  exact .call <| (ends_line hinner).bind (hhead.leaves _) fun _ =>
    ends_openingGap.bind_ahead goesAhead_openingGap fun _ =>
      hinner.expression.bind_ahead hinner.goAhead.expression fun _ =>
        ((ends_many_blockArgument hinner).mono (Nat.le_succ _)).bind_ahead hothers fun _ =>
          ends_step_bind _ fun _ => ends_pure _

theorem ends_expression (hinner : inner.End length) : Ends (length + 1) (.call .expression) (expression inner) :=
  .call (ends_firstOf (.cons (ends_block hinner) (.cons (ends_line hinner) .nil)))

theorem ends_program (hinner : inner.End length) : Ends (length + 1) Script.program (program inner) := by
  have hothers := (goesAhead_blockArgument hinner.goAhead).many
  exact ends_blankLines.bind_ahead goesAhead_blankLines fun _ =>
    (ends_expression hinner).bind_ahead (goesAhead_expression hinner.sound) fun _ =>
      (ends_many_blockArgument hinner).bind_ahead hothers fun _ => ends_pure _

/-- All rules that the scripts refer to, one level further out. -/
theorem RuleKind.ends (kind : RuleKind) (hinner : inner.End length) :
    Ends (length + 1) (.call kind) (kind.rule inner) := by
  cases kind with
  | name => exact ends_name
  | numeral => exact ends_numeral
  | paren => exact ends_paren hinner
  | row => exact ends_row hinner
  | block => exact ends_block hinner
  | atom => exact ends_atom hinner
  | line => exact ends_line hinner
  | expression => exact ends_expression hinner

end

/-- The induction over the levels: the rules for a depth reach as far as fewer characters than that are left. -/
theorem end_rules (depth : Nat) : (rules depth).End depth := by
  induction depth with
  | zero =>
      exact ⟨sound_rules 0, goAhead_rules 0, fun _ hcursor => absurd hcursor (Nat.not_lt_zero _),
        fun _ hcursor => absurd hcursor (Nat.not_lt_zero _)⟩
  | succ depth ih => exact ⟨sound_rules _, goAhead_rules _, ends_expression ih, ends_line ih⟩

/-! ### Whole runs -/

section

variable {α : Type}

/-- Whether a script ends as a rule does over rules of any depth, with one level more. -/
def Follows (script : Script α) (rule : Rules → Parser α) : Prop :=
  ∀ ⦃length : Nat⦄ ⦃inner : Rules⦄, inner.End length → Ends (length + 1) script (rule inner)

variable {script : Script α} {rule : Rules → Parser α}

theorem Follows.run (h : Follows script rule) (cursor : Cursor) : script.Run cursor (deepEnough rule cursor) :=
  h (end_rules _) cursor (Nat.lt_succ_of_lt (Nat.lt_succ_self _))

/-- How the repetition of an item ends. The item reads at least one byte whenever it succeeds. So it fails in the end,
and before that it succeeds no more often than there are characters left. -/
structure StopsByItself (item : Script α) (rule : Rules → Parser α) (cursor : Cursor) : Prop where
  reads : item.ComesTo cursor (deepEnough rule cursor)
  consumes (value : α) (after : Cursor) (h : deepEnough rule cursor = (.ok value, after)) :
    cursor.position.offset < after.position.offset
  repeats : (Script.many item id).ComesTo cursor (deepEnough (fun inner => many (rule inner)) cursor)
  stops : ∃ values last error failed, Chain (deepEnough rule) cursor values last ∧
    deepEnough rule last = (.error error, failed) ∧ values.length ≤ cursor.rest.length ∧
    deepEnough (fun inner => many (rule inner)) cursor = (.ok values, failed.restore last)

theorem Follows.stops (h : Follows script rule) (hconsumes : ∀ {inner : Rules}, inner.Sound → (rule inner).Consumes)
    (cursor : Cursor) : StopsByItself script rule cursor := by
  have hdeep : (deepEnough rule).Consumes := fun _ _ _ hread => hconsumes (sound_rules _) hread
  have hmany : Follows (.many script id) fun inner => many (rule inner) :=
    fun _ _ hinner => (h hinner).many (hconsumes hinner.sound)
  refine ⟨(h.run cursor).comesTo, ?_, (hmany.run cursor).comesTo, ?_⟩
  · intro value after hread
    obtain ⟨text, htext, hmoved⟩ := hdeep hread
    rw [hmoved.position]
    exact Position.offset_lt_afterAll cursor.position htext
  · obtain ⟨values, last, error, failed, hchain, hlast, hvalues⟩ := hdeep.exists_chain cursor
    have hends : Ends (cursor.rest.length + 1) script (deepEnough rule) := fun other _ => h.run other
    have hrun : (Script.many script id).Run cursor (.ok values, failed.restore last) :=
      hends.run_of_chain hdeep hchain hlast (Nat.lt_succ_self _)
    exact ⟨values, last, error, failed, hchain, hlast, hvalues, hrun.unique (hmany.run cursor)⟩

end

/-- A text is read by the run of a script and of the end of the text behind it. -/
theorem Follows.reads {script : Script Tree} {rule : Rules → Parser Tree} (h : Follows script rule)
    (hahead : ∀ depth, (rule (rules depth)).GoesAhead) (text : String) :
    ∃ outcome, script.whole.ComesTo (.ofText text [0]) outcome ∧ readDocument rule text = reported outcome := by
  have hrule := h (end_rules (text.toList.length + 1))
  have hwhole : Ends (text.toList.length + 1 + 1) script.whole (whole rule (text.toList.length + 1)) :=
    hrule.bind_ahead (hahead _) fun _ => ends_step_bind _ fun _ => ends_pure _
  have hrun := hwhole (.ofText text [0]) (Nat.lt_succ_of_lt (Nat.lt_succ_self _))
  exact ⟨_, hrun.comesTo, readDocument_eq rule text⟩

/-- Reading comes to an end. At every cursor, whatever text is left and whatever blocks are open, each rule and the
program have one finite run, and its outcome is what the rule does with a bound on the depth. Both repetitions of the
grammar stop by themselves, since their items read text whenever they succeed. To read a text, as an expression or as
a program, is to report such a run. -/
theorem reading_ends :
    (∀ (kind : RuleKind) (cursor : Cursor), (Script.call kind).ComesTo cursor (deepEnough kind.rule cursor)) ∧
    (∀ cursor : Cursor, Script.program.ComesTo cursor (deepEnough program cursor)) ∧
    (∀ cursor : Cursor, StopsByItself Script.rowArgument rowArgument cursor ∧
      StopsByItself Script.blockArgument blockArgument cursor) ∧
    ∀ text : String,
      (∃ outcome, (Script.call .expression).whole.ComesTo (.ofText text [0]) outcome ∧
        readExpression text = reported outcome) ∧
      ∃ outcome, Script.program.whole.ComesTo (.ofText text [0]) outcome ∧ readProgram text = reported outcome := by
  have hrule (kind : RuleKind) : Follows (.call kind) kind.rule := fun _ _ => kind.ends
  have hprogram : Follows Script.program program := fun _ _ => ends_program
  have hrow : Follows Script.rowArgument rowArgument := fun _ _ => ends_rowArgument
  have hblock : Follows Script.blockArgument blockArgument := fun _ _ => ends_blockArgument
  refine ⟨fun kind cursor => ((hrule kind).run cursor).comesTo, fun cursor => (hprogram.run cursor).comesTo, ?_, ?_⟩
  · exact fun cursor => ⟨hrow.stops consumes_rowArgument cursor, hblock.stops consumes_blockArgument cursor⟩
  · exact fun text => ⟨(hrule .expression).reads (fun depth => goesAhead_expression (sound_rules depth)) text,
      hprogram.reads (fun depth => goesAhead_program (sound_rules depth) (goAhead_rules depth)) text⟩

/-- A row whose last argument is never closed. -/
def halfRow : String := "do 1 (m ("

/-- The place of its arguments, where no block is open. -/
def atArguments : Cursor := (Cursor.ofText halfRow []).advance 2

theorem reading_ends_halfRow :
    (∃ tree after, (Script.call .expression).ComesTo (.ofText halfRow []) (.ok tree, after) ∧
      after.position.offset = 4) ∧
    (∃ value after, Script.rowArgument.ComesTo atArguments (.ok value, after) ∧ 2 < after.position.offset) ∧
    (∃ values after, (Script.many Script.rowArgument id).ComesTo atArguments (.ok values, after) ∧
      values.length = 1) ∧
    ∃ outcome error, (Script.call .expression).whole.ComesTo (.ofText halfRow [0]) outcome ∧
      reported outcome = .error error := by
  have hrow := (reading_ends.2.2.1 atArguments).1
  refine ⟨?_, ?_, ?_, ?_⟩
  · have hexpression : (Script.call .expression).ComesTo _ (deepEnough expression (.ofText halfRow [])) :=
      reading_ends.1 .expression (.ofText halfRow [])
    have hread : (deepEnough expression (.ofText halfRow [])).1.isOk = true ∧
        (deepEnough expression (.ofText halfRow [])).2.position.offset = 4 := by decide +kernel
    rcases houtcome : deepEnough expression (.ofText halfRow []) with ⟨error | tree, after⟩
    · rw [houtcome] at hread
      cases hread.1
    · rw [houtcome] at hread
      rw [houtcome] at hexpression
      exact ⟨tree, after, hexpression, hread.2⟩
  · have hread : (deepEnough rowArgument atArguments).1.isOk = true := by decide +kernel
    rcases houtcome : deepEnough rowArgument atArguments with ⟨error | value, after⟩
    · rw [houtcome] at hread
      cases hread
    · exact ⟨value, after, houtcome ▸ hrow.reads, hrow.consumes value after houtcome⟩
  · have hread : (deepEnough (fun inner => many (rowArgument inner)) atArguments).1.toOption.map List.length =
        some 1 := by decide +kernel
    obtain ⟨values, last, error, failed, -, -, -, houtcome⟩ := hrow.stops
    rw [houtcome] at hread
    exact ⟨values, _, houtcome ▸ hrow.repeats, Option.some.inj hread⟩
  · obtain ⟨⟨outcome, hcomes, hreported⟩, -⟩ := reading_ends.2.2.2 halfRow
    obtain ⟨error, herror⟩ : ∃ error, readExpression halfRow = .error error :=
      exists_error_of_isOk (by decide +kernel)
    exact ⟨outcome, error, hcomes, hreported.symm.trans herror⟩

end Grammar

end Cadence
