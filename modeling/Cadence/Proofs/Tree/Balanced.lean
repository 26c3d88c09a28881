import Cadence.Proofs.Source.Backtracking
import Cadence.Proofs.Tree.Reading

/-! How the rules of the grammar leave the cursor. A block is opened before it is known whether its arguments can be
read, and it is closed again only where they can; so a rule that succeeds leaves the blocks that it found, a rule that
fails may leave more of them, and the choices between rules put them back. -/

namespace Cadence

namespace Grammar

open Cadence.Parser

theorem goesAhead_optionalSpaces : optionalSpaces.GoesAhead := (goesAhead_lexeme _ _).withDefault _

theorem goesAhead_blankLines : blankLines.GoesAhead := (goesAhead_lexeme _ _).withDefault _

theorem goesAhead_name : name.GoesAhead := (goesAhead_lexeme _ _).bind fun _ => goesAhead_pure _

theorem goesAhead_numeral : numeral.GoesAhead := by
  refine (goesAhead_lexeme _ _).bind fun digits => ?_
  cases decimal? digits.toList with
  | some value => exact goesAhead_pure _
  | none => exact goesAhead_fail _

theorem goesAhead_gap : gap.GoesAhead :=
  (goesAhead_lexeme _ _).bind fun _ =>
    (goesAhead_literal _).bind fun _ =>
      goesAhead_blankLines.bind fun _ => goesAhead_optionalSpaces.bind fun _ => goesAhead_pure _

theorem goesAhead_openingGap : openingGap.GoesAhead := by
  refine goesAhead_indent.bind fun enclosing => goesAhead_gap.bind fun read => ?_
  have hopen : (do openBlock read.indent; return read : Parser Gap).GoesAhead :=
    (goesAhead_openBlock _).bind fun _ => goesAhead_pure _
  by_cases hindent : read.indent ≤ enclosing
  · rw [if_pos hindent]
    exact (goesAhead_fail _).bind fun _ => hopen
  · rw [if_neg hindent]
    exact hopen

theorem goesAhead_innerGap : innerGap.GoesAhead := by
  refine goesAhead_indent.bind fun column => goesAhead_gap.bind fun read => ?_
  by_cases hindent : read.indent ≠ column
  · rw [if_pos hindent]
    exact (goesAhead_fail _).bind fun _ => goesAhead_pure _
  · rw [if_neg hindent]
    exact goesAhead_pure _

section

variable {inner : Rules}

/-- What an enclosing rule may rely on about places and blocks. -/
structure Rules.GoAhead (inner : Rules) : Prop where
  expression : inner.expression.GoesAhead
  line : inner.line.GoesAhead

theorem goesAhead_atom (hinner : inner.Sound) : (atom inner).GoesAhead :=
  goesAhead_of (fun h => (atom_eq_ok hinner h).moved.ahead) fun _ _ _ h => (back_of_firstOf h).ahead

theorem goesAhead_line (hinner : inner.Sound) : (line inner).GoesAhead :=
  goesAhead_of (fun h => (line_eq_ok hinner h).1.ahead) fun _ _ _ h => (back_of_firstOf h).ahead

theorem goesAhead_expression (hinner : inner.Sound) : (expression inner).GoesAhead :=
  goesAhead_of (fun h => (expression_eq_ok hinner h).1.ahead) fun _ _ _ h => (back_of_firstOf h).ahead

theorem goAhead_rules (depth : Nat) : (rules depth).GoAhead := by
  cases depth with
  | zero => exact ⟨goesAhead_fail _, goesAhead_fail _⟩
  | succ depth => exact ⟨goesAhead_expression (sound_rules depth), goesAhead_line (sound_rules depth)⟩

theorem goesAhead_rowArgument (hinner : inner.Sound) : (rowArgument inner).GoesAhead :=
  goesAhead_optionalSpaces.bind fun _ => (goesAhead_atom hinner).bind fun _ => goesAhead_pure _

theorem goesAhead_blockArgument (hahead : inner.GoAhead) : (blockArgument inner).GoesAhead :=
  goesAhead_innerGap.bind fun _ => hahead.expression.bind fun _ => goesAhead_pure _

theorem goesAhead_program (hsound : inner.Sound) (hahead : inner.GoAhead) : (program inner).GoesAhead :=
  goesAhead_blankLines.bind fun _ =>
    (goesAhead_expression hsound).bind fun _ => (goesAhead_blockArgument hahead).many.bind fun _ => goesAhead_pure _

theorem failsAhead_paren (hahead : inner.GoAhead) : (paren inner).FailsAhead :=
  FailsAhead.bind (goesAhead_literal _) fun _ =>
    .bind goesAhead_optionalSpaces fun _ =>
      .bind hahead.line fun _ =>
        .bind goesAhead_optionalSpaces fun _ =>
          .bind (goesAhead_literal _) fun _ => (goesAhead_pure _).failsAhead

theorem failsAhead_row (hinner : inner.Sound) : (row inner).FailsAhead :=
  FailsAhead.bind (goesAhead_atom hinner) fun _ =>
    .bind (goesAhead_rowArgument hinner) fun _ =>
      .bind (goesAhead_rowArgument hinner).many fun _ => (goesAhead_pure _).failsAhead

/-- A block that is closed has been read to its end. -/
theorem failsAhead_closed (tree : Tree) : (do closeBlock; return tree : Parser Tree).FailsAhead := by
  intro cursor after error h
  cases hclose : closeBlock cursor with
  | mk outcome middle =>
      cases outcome with
      | ok _ =>
          rw [bind_of_ok hclose] at h
          cases congrArg Prod.fst h
      | error failure =>
          rw [bind_of_error hclose] at h
          cases h
          exact failsAhead_closeBlock cursor _ _ hclose

theorem failsAhead_block (hinner : inner.Sound) (hahead : inner.GoAhead) : (block inner).FailsAhead :=
  FailsAhead.bind (goesAhead_line hinner) fun _ =>
    .bind goesAhead_openingGap fun _ =>
      .bind hahead.expression fun _ =>
        .bind (goesAhead_blockArgument hahead).many fun _ => failsAhead_closed _

/-- Where no block is open, none can be opened. -/
theorem indents_of_block (hinner : inner.Sound) {cursor after : Cursor} {tree : Tree}
    (h : block inner cursor = (.ok tree, after)) : ∃ column outer, cursor.indents = column :: outer := by
  obtain ⟨head, middle, hhead, hbehind⟩ := bind_eq_ok.mp h
  obtain ⟨read, second, hgap, -⟩ := bind_eq_ok.mp hbehind
  obtain ⟨column, outer, -, hindents, -⟩ := openingGap_eq_ok hgap
  exact ⟨column, outer, (line_eq_ok hinner hhead).1.indents.symm.trans hindents⟩

theorem written_ne_nil {column : Nat} {tree : Tree} (h : tree.WellFormed column) : tree.written.toList ≠ [] := by
  obtain ⟨first, rest, hwritten, -⟩ := h.starts
  rw [hwritten]
  exact List.cons_ne_nil first rest

theorem AtomRead.exists_moved {cursor after : Cursor} {tree : Tree} (h : AtomRead cursor after tree) :
    ∃ text, text ≠ [] ∧ cursor.Moved after text :=
  ⟨_, written_ne_nil (h.wellFormed 0), h.moved⟩

theorem exists_moved_of_line {cursor after : Cursor} {tree : Tree}
    (h : cursor.Moved after tree.written.toList ∧ tree.isLine = true ∧ ∀ column, tree.WellFormed column) :
    ∃ text, text ≠ [] ∧ cursor.Moved after text :=
  ⟨_, written_ne_nil (h.2.2 0), h.1⟩

theorem exists_moved_of_block (hinner : inner.Sound) {cursor after : Cursor} {tree : Tree}
    (h : block inner cursor = (.ok tree, after)) : ∃ text, text ≠ [] ∧ cursor.Moved after text := by
  obtain ⟨column, outer, hindents⟩ := indents_of_block hinner h
  obtain ⟨hmoved, hwellFormed⟩ := block_eq_ok hinner h
  exact ⟨_, written_ne_nil (hwellFormed column outer hindents), hmoved⟩

end

/-- The rules of the grammar, by what they read. -/
inductive RuleKind where
  | name
  | numeral
  | paren
  | row
  | block
  | atom
  | line
  | expression

namespace RuleKind

def rule : RuleKind → Rules → Parser Tree
  | .name, _ => Grammar.name
  | .numeral, _ => Grammar.numeral
  | .paren, inner => Grammar.paren inner
  | .row, inner => Grammar.row inner
  | .block, inner => Grammar.block inner
  | .atom, inner => Grammar.atom inner
  | .line, inner => Grammar.line inner
  | .expression, inner => Grammar.expression inner

/-- Whether a rule is a choice between others. -/
def isChoice : RuleKind → Bool
  | .atom | .line | .expression => true
  | .name | .numeral | .paren | .row | .block => false

variable {inner : Rules} (kind : RuleKind) {cursor after : Cursor}

/-- What is read is not empty, and all blocks are closed that were opened for it. -/
theorem moved_of_ok (hinner : inner.Sound) {tree : Tree} (h : kind.rule inner cursor = (.ok tree, after)) :
    ∃ text, text ≠ [] ∧ cursor.Moved after text := by
  cases kind with
  | name => exact (name_eq_ok h).exists_moved
  | numeral => exact (numeral_eq_ok h).exists_moved
  | paren => exact (paren_eq_ok hinner h).exists_moved
  | row => exact exists_moved_of_line (row_eq_ok hinner h)
  | block => exact exists_moved_of_block hinner h
  | atom => exact (atom_eq_ok hinner h).exists_moved
  | line => exact exists_moved_of_line (line_eq_ok hinner h)
  | expression =>
      obtain ⟨option, hoption, failed, hread⟩ := firstOf_eq_ok h
      simp only [List.mem_cons, List.not_mem_nil, or_false] at hoption
      have hmoved : ∃ text, text ≠ [] ∧ (failed.restore cursor).Moved after text := by
        rcases hoption with rfl | rfl
        · exact exists_moved_of_block hinner hread
        · exact exists_moved_of_line (line_eq_ok hinner hread)
      obtain ⟨text, htext, hmoved⟩ := hmoved
      exact ⟨text, htext, hmoved.of_restore⟩

/-- A failure leaves no fewer blocks open than there were. -/
theorem failsAhead (hinner : inner.Sound) (hahead : inner.GoAhead) : (kind.rule inner).FailsAhead := by
  cases kind with
  | name => exact goesAhead_name.failsAhead
  | numeral => exact goesAhead_numeral.failsAhead
  | paren => exact failsAhead_paren hahead
  | row => exact failsAhead_row hinner
  | block => exact failsAhead_block hinner hahead
  | atom => exact (goesAhead_atom hinner).failsAhead
  | line => exact (goesAhead_line hinner).failsAhead
  | expression => exact (goesAhead_expression hinner).failsAhead

theorem back_of_error (hchoice : kind.isChoice = true) {error : ParseError}
    (h : kind.rule inner cursor = (.error error, after)) : cursor.Back after := by
  cases kind with
  | name | numeral | paren | row | block => cases hchoice
  | atom | line | expression => exact back_of_firstOf h

end RuleKind

/-! ### Balance -/

/-- Whether a cursor stands between two characters of a text, with the rest of it to be read. -/
def AtPlace (text : String) (cursor : Cursor) : Prop :=
  cursor.StandsIn text.toList ∧ cursor.position.Marks text

/-- What a rule makes of the place and of the open blocks. -/
structure Balanced (text : String) (kind : RuleKind) (cursor : Cursor) : Prop where
  ok (tree : Tree) (after : Cursor) (h : deepEnough kind.rule cursor = (.ok tree, after)) :
    after.indents = cursor.indents ∧ cursor.position.offset < after.position.offset ∧ AtPlace text after
  error (error : ParseError) (after : Cursor) (h : deepEnough kind.rule cursor = (.error error, after)) :
    cursor.indents <:+ after.indents ∧ cursor.position.offset ≤ after.position.offset ∧ AtPlace text after
  choice (hchoice : kind.isChoice = true) (error : ParseError) (after : Cursor)
    (h : deepEnough kind.rule cursor = (.error error, after)) : cursor.Back after

theorem atPlace_of_ahead {text : String} {cursor after : Cursor} (h : cursor.StandsIn text.toList)
    (hahead : cursor.Ahead after) : AtPlace text after :=
  ⟨h.ahead hahead, (h.ahead hahead).isIn.marks⟩

theorem balanced {text : String} {cursor : Cursor} (h : cursor.StandsIn text.toList) (kind : RuleKind) :
    Balanced text kind cursor where
  ok tree after hread := by
    obtain ⟨read, hnonempty, hmoved⟩ := kind.moved_of_ok (sound_rules _) hread
    refine ⟨hmoved.indents, ?_, atPlace_of_ahead h hmoved.ahead⟩
    rw [hmoved.position]
    exact Position.offset_lt_afterAll cursor.position hnonempty
  error error after hfailed := by
    have hahead := kind.failsAhead (sound_rules _) (goAhead_rules _) cursor after error hfailed
    exact ⟨hahead.indents, hahead.offset_le, atPlace_of_ahead h hahead⟩
  choice hchoice error after hfailed := kind.back_of_error hchoice hfailed

/-- Backtracking leaves no trace. A rule that succeeds goes on in the text and closes the blocks that it opened; one that
fails does not go back, and a choice between rules is back where it began. This takes no more of the parsers that are
tried than that they are parsers: a choice is the first of its options that succeeds where it began itself, and what fails
in an attempt or at the end of a repetition moves nothing and opens or closes no block. -/
theorem backtracking_traceless :
    (∀ (text : String) (cursor : Cursor), cursor.StandsIn text.toList → ∀ kind, Balanced text kind cursor) ∧
      (∀ (α : Type) (options : List (Parser α)) (cursor : Cursor), Chooses options cursor) ∧
      ∀ (α : Type) (parser : Parser α) (cursor : Cursor), Attempts parser cursor :=
  ⟨fun _ _ => balanced, fun _ => chooses, fun _ => attempts⟩

/-- Behind a character of two bytes a block is opened inside of another one, and the parenthesis in it is never closed. -/
def unclosedBlock : String := "édo\n     (m"

/-- The place of that block, whose line begins at column 2. -/
def atUnclosedBlock : Cursor := (Cursor.ofText unclosedBlock [2, 0]).advance 1

/-- Opens a block and reads a text. -/
def openedLiteral (column : Nat) (text : String) : Parser String := do
  openBlock column
  literal text

theorem backtracking_traceless_unclosedBlock :
    atUnclosedBlock.StandsIn unclosedBlock.toList ∧
      (∃ error after, deepEnough block atUnclosedBlock = (.error error, after) ∧ after.indents = [5, 2, 0] ∧
        [2, 0] <:+ after.indents ∧ 2 ≤ after.position.offset ∧ AtPlace unclosedBlock after) ∧
      (∃ tree after, deepEnough expression atUnclosedBlock = (.ok tree, after) ∧ after.indents = [2, 0] ∧
        2 < after.position.offset ∧ AtPlace unclosedBlock after) ∧
      (∃ after, firstOf [openedLiteral 7 "x", openedLiteral 9 "do"] atUnclosedBlock = (.ok "do", after) ∧
        after.indents = [9, 2, 0]) ∧
      ∃ after, maybe (openedLiteral 7 "x") atUnclosedBlock = (.ok none, after) ∧ atUnclosedBlock.Back after := by
  have hstands : atUnclosedBlock.StandsIn unclosedBlock.toList := (Cursor.standsIn_ofText unclosedBlock [2, 0]).advance 1
  have hbalanced := backtracking_traceless.1 unclosedBlock atUnclosedBlock hstands
  refine ⟨hstands, ?_, ?_, ?_, ?_⟩
  · have hfailed : (deepEnough block atUnclosedBlock).1.isOk = false ∧
        (deepEnough block atUnclosedBlock).2.indents = [5, 2, 0] := by decide +kernel
    rcases hblock : deepEnough block atUnclosedBlock with ⟨error | tree, after⟩
    · rw [hblock] at hfailed
      exact ⟨error, after, rfl, hfailed.2, (hbalanced .block).error error after hblock⟩
    · rw [hblock] at hfailed
      cases hfailed.1
  · have hread : (deepEnough expression atUnclosedBlock).1.isOk = true := by decide +kernel
    rcases hexpression : deepEnough expression atUnclosedBlock with ⟨error | tree, after⟩
    · rw [hexpression] at hread
      cases hread
    · exact ⟨tree, after, rfl, (hbalanced .expression).ok tree after hexpression⟩
  · have hfirst : FailInTurn [openedLiteral 7 "x"] atUnclosedBlock _ := .cons rfl (.nil _)
    have hchosen := (backtracking_traceless.2.1 String [openedLiteral 7 "x", openedLiteral 9 "do"] atUnclosedBlock).ok
    exact ⟨_, (hchosen "do" _).mpr ⟨[openedLiteral 7 "x"], openedLiteral 9 "do", [], _, rfl, hfirst, hfirst.back, rfl⟩, rfl⟩
  · exact (backtracking_traceless.2.2 String (openedLiteral 7 "x") atUnclosedBlock).maybe_error _ _ rfl

end Grammar

end Cadence
