import Cadence.Proofs.Source.Trail
import Mathlib.Logic.Relation

/-! How parsers are made. A recipe builds a parser from the single steps of a trail, from sequences, from attempts
that are given up after a failure, and from looks at the cursor; so it tells which failures the parser notes at a
cursor, those of given-up attempts included. Whatever a recipe makes goes on with a trail. -/

namespace Cadence

namespace Parser

/-- Applies a parser and goes on with its value, or gives the attempt up and does something else. -/
def attempt {α β : Type} (parser : Parser α) (next : α → Parser β) (otherwise : Parser β) : Parser β :=
  fun cursor =>
    match parser cursor with
    | (.ok value, after) => next value after
    | (.error _, after) => otherwise (after.restore cursor)

/-- Fails with the failure that got furthest. If there was none yet, it is the one here. -/
def report {α : Type} (message : String) : Parser α := fun cursor =>
  match cursor.furthest with
  | some known => (.error known, cursor)
  | none => fail message cursor

/-- Goes over so many characters. -/
def skip (count : Nat) : Parser Unit := fun cursor => (.ok (), cursor.advance count)

/-- Sets the columns of the open blocks. -/
def setBlocks (columns : List Nat) : Parser Unit := fun cursor => (.ok (), { cursor with indents := columns })

/-- A way to make a parser. What a parser does next may depend on all that it sees at its cursor. -/
inductive Recipe : {α : Type} → Parser α → Type 1 where
  | pure {α : Type} (value : α) : Recipe (Pure.pure value : Parser α)
  | fail {α : Type} (message : String) : Recipe (Parser.fail message : Parser α)
  | report {α : Type} (message : String) : Recipe (Parser.report message : Parser α)
  | skip (count : Nat) : Recipe (Parser.skip count)
  | setBlocks (columns : List Nat) : Recipe (Parser.setBlocks columns)
  | bind {α β : Type} {parser : Parser α} {next : α → Parser β} (first : Recipe parser)
      (others : (value : α) → Recipe (next value)) : Recipe (parser >>= next)
  | attempt {α β : Type} {parser : Parser α} {next : α → Parser β} {otherwise : Parser β}
      (first : Recipe parser) (others : (value : α) → Recipe (next value)) (last : Recipe otherwise) :
      Recipe (parser.attempt next otherwise)
  | look {α : Type} {parser : Parser α} (choice : Cursor → Parser α)
      (same : ∀ cursor, parser cursor = choice cursor cursor)
      (recipe : (cursor : Cursor) → Recipe (choice cursor)) : Recipe parser

namespace Recipe

variable {α β : Type}

/-- The failures that a parser notes at a cursor, in the order of time. -/
def failures : {α : Type} → {parser : Parser α} → Recipe parser → Cursor → List ParseError
  | _, _, .pure _, _ => []
  | _, _, .fail message, cursor => [cursor.error message]
  | _, _, .report message, cursor => if cursor.furthest.isSome then [] else [cursor.error message]
  | _, _, .skip _, _ => []
  | _, _, .setBlocks _, _ => []
  | _, _, @bind _ _ parser _ first others, cursor =>
    first.failures cursor ++
      match parser cursor with
      | (.ok value, after) => (others value).failures after
      | (.error _, _) => []
  | _, _, @attempt _ _ parser _ _ first others last, cursor =>
    first.failures cursor ++
      match parser cursor with
      | (.ok value, after) => (others value).failures after
      | (.error _, after) => last.failures (after.restore cursor)
  | _, _, .look _ _ recipe, cursor => (recipe cursor).failures cursor

/-- What a recipe makes goes on with a trail. -/
theorem trail {parser : Parser α} (recipe : Recipe parser) {start cursor : Cursor} {known : List ParseError}
    (h : Trail start known cursor) : Trail start (known ++ recipe.failures cursor) (parser cursor).2 := by
  induction recipe generalizing cursor known with
  | pure value => rwa [failures, List.append_nil]
  | fail message => exact h.record message
  | report message =>
      rw [failures, Parser.report]
      cases cursor.furthest with
      | some known => rwa [Option.isSome_some, if_pos rfl, List.append_nil]
      | none => exact h.record message
  | skip count =>
      rw [failures, List.append_nil]
      exact h.advance count
  | setBlocks columns =>
      rw [failures, List.append_nil]
      exact h.blocks columns
  | @bind _ _ parser next first others ihFirst ihOthers =>
      have hfirst := ihFirst h
      rw [failures, ← List.append_assoc]
      cases hparser : parser cursor with
      | mk outcome after =>
          rw [hparser] at hfirst
          cases outcome with
          | ok value =>
              rw [bind_of_ok hparser]
              exact ihOthers value hfirst
          | error error =>
              rw [bind_of_error hparser, List.append_nil]
              exact hfirst
  | @attempt _ _ parser next otherwise first others last ihFirst ihOthers ihLast =>
      have hfirst := ihFirst h
      rw [failures, Parser.attempt, ← List.append_assoc]
      cases hparser : parser cursor with
      | mk outcome after =>
          rw [hparser] at hfirst
          cases outcome with
          | ok value => exact ihOthers value hfirst
          | error error => exact ihLast (hfirst.restore h)
  | look choice same recipe ih =>
      rw [failures, same]
      exact ih cursor h

/-- Whoever fails has taken note of a failure. -/
theorem noted {parser : Parser α} (recipe : Recipe parser) {cursor after : Cursor} {error : ParseError}
    (h : parser cursor = (.error error, after)) : ∃ known, after.furthest = some known := by
  induction recipe generalizing cursor after with
  | pure => cases h
  | skip => cases h
  | setBlocks => cases h
  | fail =>
      cases h
      exact ⟨_, rfl⟩
  | report message =>
      rw [Parser.report] at h
      cases hfurthest : cursor.furthest with
      | some known =>
          rw [hfurthest] at h
          cases h
          exact ⟨_, hfurthest⟩
      | none =>
          rw [hfurthest] at h
          cases h
          exact ⟨_, rfl⟩
  | @bind _ _ parser next first others ihFirst ihOthers =>
      rcases hparser : parser cursor with ⟨failure | value, middle⟩
      · rw [bind_of_error hparser] at h
        cases h
        exact ihFirst hparser
      · rw [bind_of_ok hparser] at h
        exact ihOthers value h
  | @attempt _ _ parser next otherwise first others last ihFirst ihOthers ihLast =>
      rw [Parser.attempt] at h
      rcases hparser : parser cursor with ⟨failure | value, middle⟩
      · rw [hparser] at h
        exact ihLast h
      · rw [hparser] at h
        exact ihOthers value h
  | look choice same recipe ih =>
      rw [same] at h
      exact ih cursor h

/-- A parser that is chosen by a condition. -/
def choose {condition : Prop} [decision : Decidable condition] {parser other : Parser α} (yes : Recipe parser)
    (no : Recipe other) : Recipe (if condition then parser else other) :=
  match decision with
  | .isTrue _ => yes
  | .isFalse _ => no

def literal (text : String) : Recipe (Parser.literal text) :=
  .look
    (fun cursor =>
      if text.toList.isPrefixOf cursor.rest then do
        Parser.skip text.length
        return text
      else Parser.fail ("could not find constant " ++ Quoted.encode text))
    (fun cursor => by rw [Parser.literal]; split <;> rfl)
    fun _ => choose (.bind (.skip _) fun _ => .pure _) (.fail _)

/-- What a lexeme does, once its length is known. -/
def readLexeme (expected : String) (rest : List Char) : Option Nat → Parser String
  | some count => do
    Parser.skip count
    return String.ofList (rest.take count)
  | none => Parser.fail expected

def lexeme (measure : List Char → Option Nat) (expected : String) : Recipe (Parser.lexeme measure expected) :=
  .look (fun cursor => readLexeme expected cursor.rest (measure cursor.rest))
    (fun cursor => by rw [Parser.lexeme]; cases measure cursor.rest <;> rfl)
    fun cursor =>
      match measure cursor.rest with
      | some _ => .bind (.skip _) fun _ => .pure _
      | none => .fail _

def noOption : Recipe (Parser.firstOf [] : Parser α) := .fail _

def option {parser : Parser α} {options : List (Parser α)} (first : Recipe parser)
    (others : Recipe (Parser.firstOf options)) : Recipe (Parser.firstOf (parser :: options)) :=
  .look (fun _ => parser.attempt Pure.pure (Parser.firstOf options)) (fun _ => rfl)
    fun _ => .attempt first .pure others

def withDefault {parser : Parser α} (recipe : Recipe parser) (default : α) :
    Recipe (Parser.withDefault parser default) :=
  .look (fun _ => parser.attempt Pure.pure (Pure.pure default)) (fun _ => rfl)
    fun _ => .attempt recipe .pure (.pure default)

def maybe {parser : Parser α} (recipe : Recipe parser) : Recipe (Parser.maybe parser) :=
  withDefault (.bind recipe fun _ => .pure _) none

/-- What a repetition does after its first value. -/
def repeatMore (parser : Parser α) (limit : Nat) (value : α) : Parser (List α) := do
  let values ← Parser.repeated parser limit
  return value :: values

theorem repeated_succ (parser : Parser α) (limit : Nat) (cursor : Cursor) :
    Parser.repeated parser (limit + 1) cursor =
      parser.attempt (repeatMore parser limit) (Pure.pure []) cursor := by
  simp only [Parser.repeated, Parser.attempt]
  rcases parser cursor with ⟨error | value, after⟩
  · rfl
  · simp only [repeatMore]
    rcases hothers : Parser.repeated parser limit after with ⟨error | values, last⟩
    · rw [bind_of_error hothers]
    · rw [bind_of_ok hothers]
      rfl

def repeated {parser : Parser α} (recipe : Recipe parser) : (limit : Nat) → Recipe (Parser.repeated parser limit)
  | 0 => .fail _
  | limit + 1 =>
    .look (fun _ => parser.attempt (repeatMore parser limit) (Pure.pure [])) (repeated_succ parser limit)
      fun _ => .attempt recipe (fun _ => .bind (repeated recipe limit) fun _ => .pure _) (.pure [])

def many {parser : Parser α} (recipe : Recipe parser) : Recipe (Parser.many parser) :=
  .look (fun cursor => Parser.repeated parser (cursor.rest.length + idleLimit)) (fun _ => rfl)
    fun _ => repeated recipe _

/-- What is read of the open blocks: the column of the innermost. -/
def readIndent : List Nat → Parser Nat
  | column :: _ => Pure.pure column
  | [] => Parser.fail "indentation stack is empty"

/-- What is done to leave the innermost block. -/
def leaveBlock : List Nat → Parser Unit
  | _ :: outer => Parser.setBlocks outer
  | [] => Parser.fail "indentation stack is empty"

def indent : Recipe Parser.indent :=
  .look (fun cursor => readIndent cursor.indents)
    (fun cursor => by rw [Parser.indent]; cases cursor.indents <;> rfl)
    fun cursor =>
      match cursor.indents with
      | _ :: _ => .pure _
      | [] => .fail _

def openBlock (column : Nat) : Recipe (Parser.openBlock column) :=
  .look (fun cursor => Parser.setBlocks (column :: cursor.indents)) (fun _ => rfl) fun _ => .setBlocks _

def closeBlock : Recipe Parser.closeBlock :=
  .look (fun cursor => leaveBlock cursor.indents)
    (fun cursor => by rw [Parser.closeBlock]; cases cursor.indents <;> rfl)
    fun cursor =>
      match cursor.indents with
      | _ :: _ => .setBlocks _
      | [] => .fail _

end Recipe

end Parser

/-! ### Sessions -/

/-- One cursor to which parsers are applied, the checkpoints that were taken of it, and all failures that were
noted, in the order of time. -/
structure Session where
  cursor : Cursor
  checkpoints : List Cursor
  failures : List ParseError

namespace Session

def ofText (text : String) (indents : List Nat) : Session := ⟨.ofText text indents, [], []⟩

/-- What is done in a session: a parser is applied, whether it succeeds or fails; a checkpoint is taken; reading
goes back to a checkpoint. -/
inductive Step : Session → Session → Prop where
  | parse (session : Session) {α : Type} {parser : Parser α} (recipe : parser.Recipe) :
      Step session
        { session with
          cursor := (parser session.cursor).2
          failures := session.failures ++ recipe.failures session.cursor }
  | checkpoint (session : Session) :
      Step session { session with checkpoints := session.cursor :: session.checkpoints }
  | restore (session : Session) {checkpoint : Cursor} (taken : checkpoint ∈ session.checkpoints) :
      Step session { session with cursor := session.cursor.restore checkpoint }

/-- The invariant: the cursor and the checkpoints all lie on one trail. -/
structure OnTrail (start : Cursor) (session : Session) : Prop where
  cursor : Trail start session.failures session.cursor
  checkpoints : ∀ checkpoint ∈ session.checkpoints, ∃ earlier, Trail start earlier checkpoint

theorem onTrail_ofText (text : String) (indents : List Nat) :
    (ofText text indents).OnTrail (.ofText text indents) :=
  ⟨.start, fun _ hmem => absurd hmem List.not_mem_nil⟩

variable {start : Cursor} {session later : Session}

theorem OnTrail.step (h : session.OnTrail start) (hstep : Step session later) : later.OnTrail start := by
  cases hstep with
  | parse recipe => exact ⟨recipe.trail h.cursor, h.checkpoints⟩
  | checkpoint => exact ⟨h.cursor, List.forall_mem_cons.mpr ⟨⟨_, h.cursor⟩, h.checkpoints⟩⟩
  | restore taken =>
      obtain ⟨earlier, htaken⟩ := h.checkpoints _ taken
      exact ⟨h.cursor.restore htaken, h.checkpoints⟩

theorem OnTrail.run (h : session.OnTrail start) (hrun : Relation.ReflTransGen Step session later) :
    later.OnTrail start := by
  induction hrun with
  | refl => exact h
  | tail _ hstep ih => exact ih.step hstep

/-- No failure is forgotten. -/
theorem failures_of_run (hrun : Relation.ReflTransGen Step session later) :
    ∃ new, later.failures = session.failures ++ new := by
  induction hrun with
  | refl => exact ⟨[], (List.append_nil _).symm⟩
  | tail _ hstep ih =>
      obtain ⟨new, hnew⟩ := ih
      cases hstep with
      | @parse _ parser recipe => exact ⟨new ++ recipe.failures _, by rw [hnew, List.append_assoc]⟩
      | checkpoint => exact ⟨new, hnew⟩
      | restore _ => exact ⟨new, hnew⟩

end Session

end Cadence
