import Cadence.Proofs.Source.Recipe
import Cadence.Tree.Grammar

/-! Where reading fails. Every rule of the grammar has its recipe, so that the failures of a whole run are known,
those of all attempts that were given up among them. A text is rejected with the furthest of them, and this failure
points at a place of the text. -/

namespace Cadence.Grammar

open Cadence.Parser

/-- Recipes of the rules that enclosing rules refer to. -/
structure Rules.Recipes (inner : Rules) where
  expression : Recipe inner.expression
  line : Recipe inner.line

def nameRecipe : Recipe name := .bind (.lexeme _ _) fun _ => .pure _

/-- What a numeral does, once the value of its digits is known. -/
def readNumeral (digits : String) : Option Decimal → Parser Tree
  | some value => pure (.numeral (value.toDouble false) digits ())
  | none => fail "not a number"

def numeralRecipe : Recipe numeral :=
  .bind (.lexeme _ _) fun digits =>
    .look (fun _ => readNumeral digits (decimal? digits.toList)) (fun cursor => by cases decimal? digits.toList <;> rfl)
    fun _ =>
      match decimal? digits.toList with
      | some _ => .pure _
      | none => .fail _

def optionalSpacesRecipe : Recipe optionalSpaces := .withDefault (.lexeme _ _) _

def blankLinesRecipe : Recipe blankLines := .withDefault (.lexeme _ _) _

def gapRecipe : Recipe gap :=
  .bind (.lexeme _ _) fun _ =>
    .bind (.literal _) fun _ => .bind blankLinesRecipe fun _ => .bind optionalSpacesRecipe fun _ => .pure _

def openingGapRecipe : Recipe openingGap :=
  .bind .indent fun _ =>
    .bind gapRecipe fun _ =>
      .choose (.bind (.fail _) fun _ => .bind (.openBlock _) fun _ => .pure _) (.bind (.openBlock _) fun _ => .pure _)

def innerGapRecipe : Recipe innerGap :=
  .bind .indent fun _ =>
    .bind gapRecipe fun _ => .choose (.bind (.fail _) fun _ => .pure _) (.pure _)

section

variable {inner : Rules} (recipes : inner.Recipes)

def parenRecipe : Recipe (paren inner) :=
  .bind (.literal _) fun _ =>
    .bind optionalSpacesRecipe fun _ =>
      .bind recipes.line fun _ =>
        .bind optionalSpacesRecipe fun _ => .bind (.literal _) fun _ => .pure _

def atomRecipe : Recipe (atom inner) :=
  .option (parenRecipe recipes) (.option nameRecipe (.option numeralRecipe .noOption))

def rowArgumentRecipe : Recipe (rowArgument inner) :=
  .bind optionalSpacesRecipe fun _ => .bind (atomRecipe recipes) fun _ => .pure _

def rowRecipe : Recipe (row inner) :=
  .bind (atomRecipe recipes) fun _ =>
    .bind (rowArgumentRecipe recipes) fun _ => .bind (.many (rowArgumentRecipe recipes)) fun _ => .pure _

def lineRecipe : Recipe (line inner) := .option (rowRecipe recipes) (.option (atomRecipe recipes) .noOption)

def blockArgumentRecipe : Recipe (blockArgument inner) :=
  .bind innerGapRecipe fun _ => .bind recipes.expression fun _ => .pure _

def blockRecipe : Recipe (block inner) :=
  .bind (lineRecipe recipes) fun _ =>
    .bind openingGapRecipe fun _ =>
      .bind recipes.expression fun _ =>
        .bind (.many (blockArgumentRecipe recipes)) fun _ => .bind .closeBlock fun _ => .pure _

def expressionRecipe : Recipe (expression inner) :=
  .option (blockRecipe recipes) (.option (lineRecipe recipes) .noOption)

def programRecipe : Recipe (program inner) :=
  .bind blankLinesRecipe fun _ =>
    .bind (expressionRecipe recipes) fun _ => .bind (.many (blockArgumentRecipe recipes)) fun _ => .pure _

end

def rulesRecipes : (depth : Nat) → (rules depth).Recipes
  | 0 => ⟨.fail _, .fail _⟩
  | depth + 1 => ⟨expressionRecipe (rulesRecipes depth), lineRecipe (rulesRecipes depth)⟩

/-- What is done behind the white space and comments that may end a text. -/
def finish (trailing : String) (cursor : Cursor) : Parser String :=
  if cursor.isAtEnd then pure trailing
  else
    match cursor.furthest with
    | some error =>
      if cursor.position.offset < error.position.offset then report "unexpected trailing input"
      else fail "unexpected trailing input"
    | none => fail "unexpected trailing input"

theorem finish_eq (trailing : String) (cursor : Cursor) :
    (if cursor.isAtEnd then (.ok trailing, cursor)
    else
      match cursor.furthest with
      | some error =>
        if cursor.position.offset < error.position.offset then (.error error, cursor)
        else fail "unexpected trailing input" cursor
      | none => fail "unexpected trailing input" cursor) = finish trailing cursor cursor := by
  rw [finish]
  by_cases hend : cursor.isAtEnd = true
  · rw [if_pos hend, if_pos hend]
    rfl
  · rw [if_neg hend, if_neg hend]
    cases hfurthest : cursor.furthest with
    | none => rfl
    | some error =>
        by_cases hfar : cursor.position.offset < error.position.offset
        · simp only [if_pos hfar, report, hfurthest]
        · simp only [if_neg hfar]

def endingRecipe : Recipe ending :=
  .bind (.lexeme _ _) fun trailing =>
    .look (finish trailing) (finish_eq trailing) fun cursor =>
      .choose (.pure _)
        (match cursor.furthest with
        | some _ => .choose (.report _) (.fail _)
        | none => .fail _)

/-- A rule and the end of the text, as one parser. -/
def whole (rule : Rules → Parser Tree) (depth : Nat) : Parser (Document Unit) := do
  let tree ← rule (rules depth)
  let trailing ← ending
  return ⟨tree, trailing⟩

def wholeRecipe {rule : Rules → Parser Tree} (recipe : {inner : Rules} → inner.Recipes → Recipe (rule inner))
    (depth : Nat) : Recipe (whole rule depth) :=
  .bind (recipe (rulesRecipes depth)) fun _ => .bind endingRecipe fun _ => .pure _

/-- A text that does not end where it should is rejected with the failure that is held then. -/
theorem furthest_of_finish {trailing : String} {cursor after : Cursor} {error : ParseError}
    (h : finish trailing cursor cursor = (.error error, after)) : after.furthest = some error := by
  rw [finish] at h
  by_cases hend : cursor.isAtEnd = true
  · rw [if_pos hend] at h
    cases h
  · rw [if_neg hend] at h
    cases hfurthest : cursor.furthest with
    | none =>
        simp only [hfurthest] at h
        cases h
        show some (ParseError.furthest cursor.furthest _) = _
        rw [hfurthest]
        rfl
    | some known =>
        simp only [hfurthest] at h
        by_cases hfar : cursor.position.offset < known.position.offset
        · rw [if_pos hfar, report, hfurthest] at h
          cases h
          exact hfurthest
        · rw [if_neg hfar] at h
          cases h
          show some (ParseError.furthest cursor.furthest _) = _
          rw [hfurthest, ParseError.furthest]
          exact congrArg some (if_pos (Nat.le_of_not_lt hfar))

theorem furthest_of_ending {cursor after : Cursor} {error : ParseError} (h : ending cursor = (.error error, after)) :
    after.furthest = some error := by
  have hstep : ending cursor = finish _ (cursor.advance _) (cursor.advance _) := finish_eq _ _
  exact furthest_of_finish (hstep.symm.trans h)

/-- What is reported of a whole run: the document, or the failure that got furthest. -/
def reported : Except ParseError (Document Unit) × Cursor → Except ParseError (Document Unit)
  | (.ok document, _) => .ok document
  | (.error error, after) => .error (after.furthest.getD error)

theorem readDocument_eq (rule : Rules → Parser Tree) (text : String) :
    readDocument rule text = reported (whole rule (text.toList.length + 1) (.ofText text [0])) := by
  have hlength : (Cursor.ofText text [0]).rest.length = text.toList.length := rfl
  simp only [readDocument, deepEnough, hlength, whole]
  rcases hrule : rule (rules (text.toList.length + 1)) (.ofText text [0]) with ⟨failure | tree, after⟩
  · rw [bind_of_error hrule]
    rfl
  · rw [bind_of_ok hrule]
    rcases hending : ending after with ⟨failure | trailing, last⟩
    · rw [bind_of_error hending, reported, furthest_of_ending hending]
      simp only [hending]
      rfl
    · rw [bind_of_ok hending]
      simp only [hending]
      rfl

/-- A rejected text is rejected with the failure that the whole run holds in the end. -/
theorem furthest_of_readDocument {rule : Rules → Parser Tree}
    (recipe : {inner : Rules} → inner.Recipes → Recipe (rule inner)) {text : String} {error : ParseError}
    (h : readDocument rule text = .error error) :
    (whole rule (text.toList.length + 1) (.ofText text [0])).2.furthest = some error := by
  rw [readDocument_eq] at h
  rcases hwhole : whole rule (text.toList.length + 1) (.ofText text [0]) with ⟨failure | document, after⟩
  · obtain ⟨known, hknown⟩ := (wholeRecipe recipe _).noted hwhole
    rw [hwhole, reported, hknown] at h
    rw [hknown, ← Except.error.inj h, Option.getD_some]
  · rw [hwhole] at h
    cases h

/-- What a text is rejected with: the failure that the whole run holds in the end. Of all failures of the run, those of
attempts that were given up included, it is the furthest, and it points at a place of the text. -/
structure RejectedAtFurthest {rule : Rules → Parser Tree}
    (recipe : {inner : Rules} → inner.Recipes → Recipe (rule inner)) (text : String) (error : ParseError) : Prop where
  held : (whole rule (text.toList.length + 1) (.ofText text [0])).2.furthest = some error
  furthest : ParseError.IsFurthest ((wholeRecipe recipe (text.toList.length + 1)).failures (.ofText text [0])) error
  place : error.position.Marks text

theorem rejectedAtFurthest {rule : Rules → Parser Tree}
    (recipe : {inner : Rules} → inner.Recipes → Recipe (rule inner)) {text : String} {error : ParseError}
    (h : readDocument rule text = .error error) : RejectedAtFurthest recipe text error := by
  have hheld := furthest_of_readDocument recipe h
  have hstart : Trail (.ofText text [0]) [] (.ofText text [0]) := .start
  have htrail := (wholeRecipe recipe (text.toList.length + 1)).trail hstart
  have hfurthest := htrail.holds rfl
  rw [hheld, List.nil_append] at hfurthest
  have hstands := htrail.standsIn (Cursor.standsIn_ofText text [0])
  exact ⟨hheld, hfurthest, (hstands.2 error hfurthest.mem).marks⟩

/-- In every session the failure that is held is the latest of those that were noted furthest in the text, and it
never moves back. A text is rejected with the furthest failure of its whole run, at a place of the text. -/
theorem furthest_failure :
    (∀ (text : String) (indents : List Nat) (session later : Session),
      Relation.ReflTransGen Session.Step (.ofText text indents) session →
      Relation.ReflTransGen Session.Step session later →
      ParseError.Holds session.cursor.furthest session.failures ∧
        ∀ known ∈ session.cursor.furthest,
          ∃ found ∈ later.cursor.furthest, known.position.offset ≤ found.position.offset) ∧
    (∀ (text : String) (error : ParseError), readExpression text = .error error →
      RejectedAtFurthest expressionRecipe text error) ∧
    ∀ (text : String) (error : ParseError), readProgram text = .error error →
      RejectedAtFurthest programRecipe text error := by
  refine ⟨?_, fun text error => rejectedAtFurthest expressionRecipe,
    fun text error => rejectedAtFurthest programRecipe⟩
  intro text indents session later hrun hmore
  have htrail := (Session.onTrail_ofText text indents).run hrun
  have hheld := htrail.cursor.holds rfl
  have hlater := (htrail.run hmore).cursor.holds rfl
  obtain ⟨new, hnew⟩ := Session.failures_of_run hmore
  rw [hnew] at hlater
  exact ⟨hheld, hheld.le_of_append hlater⟩

/-- The parenthesis is never closed: the attempts to read it as a row and as an atom are given up one after the
other, at a character of two bytes. -/
def unclosed : String := "do\n  (m é)"

theorem furthest_failure_unclosed :
    (∃ session later,
      Relation.ReflTransGen Session.Step (.ofText unclosed [0]) session ∧
      Relation.ReflTransGen Session.Step session later ∧
      ParseError.Holds session.cursor.furthest session.failures ∧
      ∀ known ∈ session.cursor.furthest,
        ∃ found ∈ later.cursor.furthest, known.position.offset ≤ found.position.offset) ∧
    (∃ error, readExpression unclosed = .error error ∧ RejectedAtFurthest expressionRecipe unclosed error) ∧
    ∃ error, readProgram unclosed = .error error ∧ RejectedAtFurthest programRecipe unclosed error := by
  have htaken := Session.Step.checkpoint (.ofText unclosed [0])
  have htried := Session.Step.parse { Session.ofText unclosed [0] with checkpoints := [.ofText unclosed [0]] }
    (atomRecipe (rulesRecipes 2))
  have hmem : Cursor.ofText unclosed [0] ∈ [Cursor.ofText unclosed [0]] := List.mem_singleton_self _
  have hrun := (Relation.ReflTransGen.single htaken).tail htried
  obtain ⟨expression, hexpression⟩ : ∃ error, readExpression unclosed = .error error :=
    exists_error_of_isOk (by decide +kernel)
  obtain ⟨program, hprogram⟩ : ∃ error, readProgram unclosed = .error error :=
    exists_error_of_isOk (by decide +kernel)
  refine ⟨⟨_, _, hrun, .single (.restore _ hmem), ?_⟩, ?_, ?_⟩
  · exact furthest_failure.1 unclosed [0] _ _ hrun (.single (.restore _ hmem))
  · exact ⟨expression, hexpression, furthest_failure.2.1 unclosed expression hexpression⟩
  · exact ⟨program, hprogram, furthest_failure.2.2 unclosed program hprogram⟩

end Cadence.Grammar
