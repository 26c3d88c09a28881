import Cadence.Proofs.Tree.Balanced

/-! The grammar without a bound. A rule is a script: what it does step by step, where it refers to other rules by
their names, to itself by way of them, and repeats without a limit. A script may never come to an end. What it comes to
if it does is given by the finite runs of it, of which there is one at most. -/

namespace Cadence.Grammar

/-- The steps of a script. None of them refers to a rule or repeats anything. -/
inductive Primitive : Type → Type 1 where
  | fail {α : Type} (message : String) : Primitive α
  | literal (text : String) : Primitive String
  | lexeme (measure : List Char → Option Nat) (expected : String) : Primitive String
  | indent : Primitive Nat
  | openBlock (column : Nat) : Primitive Unit
  | closeBlock : Primitive Unit
  | ending : Primitive String

def Primitive.parser {α : Type} : Primitive α → Parser α
  | .fail message => Parser.fail message
  | .literal text => Parser.literal text
  | .lexeme measure expected => Parser.lexeme measure expected
  | .indent => Parser.indent
  | .openBlock column => Parser.openBlock column
  | .closeBlock => Parser.closeBlock
  | .ending => Grammar.ending

/-- What a rule does. A call stands for all that the rule of this name does, which is not unfolded here. -/
inductive Script : Type → Type 1 where
  | pure {α : Type} (value : α) : Script α
  | step {α : Type} (action : Primitive α) : Script α
  | bind {α β : Type} (script : Script α) (next : α → Script β) : Script β
  | orElse {α : Type} (script other : Script α) : Script α
  | many {α β : Type} (item : Script α) (collect : List α → β) : Script β
  | call (kind : RuleKind) : Script Tree

namespace Script

instance : Monad Script where
  pure := Script.pure
  bind := Script.bind

def fail {α : Type} (message : String) : Script α := .step (.fail message)

def firstOf {α : Type} : List (Script α) → Script α
  | [] => fail "alternation failed"
  | option :: options => .orElse option (firstOf options)

def withDefault {α : Type} (script : Script α) (default : α) : Script α := .orElse script (.pure default)

def name : Script Tree := do
  return .name (← .step (.lexeme Lexeme.name "not a name")) ()

def numeral : Script Tree := do
  let digits ← .step (.lexeme Lexeme.number "not a number")
  match decimal? digits.toList with
  | some value => return .numeral (value.toDouble false) digits ()
  | none => fail "not a number"

def optionalSpaces : Script String := withDefault (.step (.lexeme Lexeme.spaces "expected spaces")) ""

def blankLines : Script String := withDefault (.step (.lexeme Lexeme.blankLines "expected blank lines")) ""

def gap : Script Gap := do
  let filler ← .step (.lexeme Lexeme.filler "expected end of line")
  let _ ← .step (.literal "\n")
  let blank ← blankLines
  let indent := (← optionalSpaces).length
  return ⟨if blank.isEmpty then filler else filler ++ "\n" ++ String.ofList blank.toList.dropLast, indent⟩

def openingGap : Script Gap := do
  let enclosing ← .step .indent
  let gap ← gap
  if gap.indent ≤ enclosing then fail "no increased indentation"
  .step (.openBlock gap.indent)
  return gap

def innerGap : Script String := do
  let column ← .step .indent
  let gap ← gap
  if gap.indent ≠ column then fail "not same indentation"
  return gap.text

def paren : Script Tree := do
  let _ ← .step (.literal "(")
  let before ← optionalSpaces
  let child ← .call .line
  let behind ← optionalSpaces
  let _ ← .step (.literal ")")
  return .paren child before behind ()

def rowArgument : Script (String × Tree) := do
  let gap ← optionalSpaces
  return (gap, ← .call .atom)

def row : Script Tree := do
  let head ← .call .atom
  let first ← rowArgument
  let others ← .many rowArgument id
  return .row (head :: first.2 :: others.map (·.2)) (first.1 :: others.map (·.1)) ()

def blockArgument : Script (String × Tree) := do
  let gap ← innerGap
  return (gap, ← .call .expression)

def block : Script Tree := do
  let head ← .call .line
  let gap ← openingGap
  let first ← .call .expression
  let others ← .many blockArgument id
  .step .closeBlock
  return .block (head :: first :: others.map (·.2)) gap.indent (gap.text :: others.map (·.1)) ()

def program : Script Tree := do
  let leading ← blankLines
  let first ← .call .expression
  let others ← .many blockArgument id
  return .block (.name "do" () :: first :: others.map (·.2)) 0 (leading :: others.map (·.1)) ()

/-- A script and the end of the text. -/
def whole (script : Script Tree) : Script (Document Unit) := do
  let tree ← script
  let trailing ← .step .ending
  return ⟨tree, trailing⟩

end Script

/-- What a reference to a rule stands for. -/
def RuleKind.script : RuleKind → Script Tree
  | .name => Script.name
  | .numeral => Script.numeral
  | .paren => Script.paren
  | .row => Script.row
  | .block => Script.block
  | .atom => Script.firstOf [.call .paren, .call .name, .call .numeral]
  | .line => Script.firstOf [.call .row, .call .atom]
  | .expression => Script.firstOf [.call .block, .call .line]

namespace Script

/-- A run of a script from a cursor to the outcome that the script comes to. It is finite, and no bound is set on how
deep it goes or on how often it repeats something. -/
inductive Run : {α : Type} → Script α → Cursor → Except ParseError α × Cursor → Prop where
  | pure {α : Type} (value : α) (cursor : Cursor) : Run (.pure value) cursor (.ok value, cursor)
  | step {α : Type} (action : Primitive α) (cursor : Cursor) : Run (.step action) cursor (action.parser cursor)
  | bind_ok {α β : Type} {script : Script α} {next : α → Script β} {cursor middle : Cursor} {value : α}
      {outcome : Except ParseError β × Cursor} (first : Run script cursor (.ok value, middle))
      (behind : Run (next value) middle outcome) : Run (.bind script next) cursor outcome
  | bind_error {α β : Type} {script : Script α} {next : α → Script β} {cursor after : Cursor} {error : ParseError}
      (first : Run script cursor (.error error, after)) : Run (.bind script next) cursor (.error error, after)
  | orElse_ok {α : Type} {script other : Script α} {cursor after : Cursor} {value : α}
      (first : Run script cursor (.ok value, after)) : Run (.orElse script other) cursor (.ok value, after)
  | orElse_error {α : Type} {script other : Script α} {cursor failed : Cursor} {error : ParseError}
      {outcome : Except ParseError α × Cursor} (first : Run script cursor (.error error, failed))
      (second : Run other (failed.restore cursor) outcome) : Run (.orElse script other) cursor outcome
  | many_stop {α β : Type} {item : Script α} {collect : List α → β} {cursor failed : Cursor} {error : ParseError}
      (last : Run item cursor (.error error, failed)) :
      Run (.many item collect) cursor (.ok (collect []), failed.restore cursor)
  | many_step {α β : Type} {item : Script α} {collect : List α → β} {cursor middle : Cursor} {value : α}
      {outcome : Except ParseError β × Cursor} (first : Run item cursor (.ok value, middle))
      (others : Run (.many item fun values => collect (value :: values)) middle outcome) :
      Run (.many item collect) cursor outcome
  | call {kind : RuleKind} {cursor : Cursor} {outcome : Except ParseError Tree × Cursor}
      (body : Run kind.script cursor outcome) : Run (.call kind) cursor outcome

variable {α β : Type} {cursor : Cursor}

/-- There is no choice in a run. -/
theorem Run.unique {script : Script α} {outcome other : Except ParseError α × Cursor} (h : Run script cursor outcome)
    (hother : Run script cursor other) : other = outcome := by
  induction h with
  | pure value cursor =>
      cases hother
      rfl
  | step action cursor =>
      cases hother
      rfl
  | bind_ok _ _ ihFirst ihBehind =>
      cases hother with
      | bind_ok first behind =>
          cases ihFirst first
          exact ihBehind behind
      | bind_error first => cases ihFirst first
  | bind_error _ ih =>
      cases hother with
      | bind_ok first _ => cases ih first
      | bind_error first =>
          cases ih first
          rfl
  | orElse_ok _ ih =>
      cases hother with
      | orElse_ok first => exact ih first
      | orElse_error first _ => cases ih first
  | orElse_error _ _ ihFirst ihSecond =>
      cases hother with
      | orElse_ok first => cases ihFirst first
      | orElse_error first second =>
          cases ihFirst first
          exact ihSecond second
  | many_stop _ ih =>
      cases hother with
      | many_stop last =>
          cases ih last
          rfl
      | many_step first _ => cases ih first
  | many_step _ _ ihFirst ihOthers =>
      cases hother with
      | many_stop last => cases ihFirst last
      | many_step first others =>
          cases ihFirst first
          exact ihOthers others
  | call _ ih =>
      cases hother with
      | call body => exact ih body

/-- A repetition comes to an end only where its item fails. -/
theorem Run.exists_error_of_many {item : Script α} {collect : List α → β} {outcome : Except ParseError β × Cursor}
    (h : Run (.many item collect) cursor outcome) : ∃ last error failed, Run item last (.error error, failed) := by
  generalize hrepetition : Script.many item collect = script at h
  induction h with
  | many_stop last =>
      cases hrepetition
      exact ⟨_, _, _, last⟩
  | many_step _ _ _ ih =>
      cases hrepetition
      exact ih rfl
  | _ => cases hrepetition

/-- The outcome of a script: it has a run to this outcome, and to no other. -/
def ComesTo (script : Script α) (cursor : Cursor) (outcome : Except ParseError α × Cursor) : Prop :=
  ∀ other, Run script cursor other ↔ other = outcome

theorem Run.comesTo {script : Script α} {outcome : Except ParseError α × Cursor} (h : Run script cursor outcome) :
    script.ComesTo cursor outcome := by
  intro other
  constructor
  · exact h.unique
  · rintro rfl
    exact h

/-- Not every script comes to an end: what reads nothing and never fails is repeated for ever. -/
theorem not_comesTo_many_pure (value : α) (collect : List α → β) (outcome : Except ParseError β × Cursor) :
    ¬(Script.many (.pure value) collect).ComesTo cursor outcome := by
  intro h
  obtain ⟨last, error, failed, hitem⟩ := ((h outcome).mpr rfl).exists_error_of_many
  cases hitem

end Script

end Cadence.Grammar
