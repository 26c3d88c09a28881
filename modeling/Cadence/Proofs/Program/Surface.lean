import Cadence.Proofs.Program.Soundness
import Cadence.Proofs.Tree.Erased
import Cadence.Proofs.Tree.Layout

/-! What a program means apart from how it is written. Parentheses, gaps, columns, comments and the digits
of numerals are taken off a tree, and every application put on one line; binding, checking and evaluating
what is left come to the same end as for the tree itself. Two texts with the same remainder therefore have
the same outcome, and so have a text and its canonical layout. -/

namespace Cadence

namespace Node

section Meaning

variable {F R P : Type} {dialect : Dialect F R} {names : String → Scope R → Except EvalError (Value F R)}

mutual

theorem meaning_erased (node : Node P) (scope : Scope R) :
    node.erased.meaning dialect names scope = node.meaning dialect names scope := by
  match node with
  | .name .. | .numeral .. => rfl
  | .paren child _ _ _ => exact meaning_erased child scope
  | .row children _ _ => exact applicationMeaning_erasedAll children scope
  | .block children _ _ _ => exact applicationMeaning_erasedAll children scope

theorem applicationMeaning_erasedAll (children : List (Node P)) (scope : Scope R) :
    applicationMeaning dialect names (erasedAll children) scope =
      applicationMeaning dialect names children scope := by
  match children with
  | [] => rfl
  | head :: arguments =>
      have harguments (scope : Scope R) := meanings_erasedAll arguments scope
      simp only [erasedAll, applicationMeaning, meaning_erased head scope, harguments]

theorem meanings_erasedAll (nodes : List (Node P)) (scope : Scope R) :
    meanings dialect names (erasedAll nodes) scope = meanings dialect names nodes scope := by
  match nodes with
  | [] => rfl
  | node :: others =>
      have hothers (scope : Scope R) := meanings_erasedAll others scope
      simp only [erasedAll, meanings, meaning_erased node scope, hothers]

end

end Meaning

end Node

section Binding

variable {F R M : Type} (bindings : Bindings F R M)

open Node

mutual

theorem mapPayloadM_erased (tree : Tree) :
    tree.erased.mapPayloadM bindings.term = (tree.mapPayloadM bindings.term).map erased := by
  match tree with
  | .name value _ =>
      simp only [erased, mapPayloadM]
      cases bindings.term (.name value ()) <;> rfl
  | .numeral .. => rfl
  | .paren child before behind _ =>
      simp only [erased, mapPayloadM, mapPayloadM_erased child]
      cases child.mapPayloadM bindings.term <;> rfl
  | .row children _ _ =>
      simp only [erased, mapPayloadM, mapPayloadsM_erasedAll children]
      cases mapPayloadsM bindings.term children <;> rfl
  | .block children _ _ _ =>
      simp only [erased, mapPayloadM, mapPayloadsM_erasedAll children]
      cases mapPayloadsM bindings.term children <;> rfl

theorem mapPayloadsM_erasedAll (trees : List Tree) :
    mapPayloadsM bindings.term (erasedAll trees) = (mapPayloadsM bindings.term trees).map erasedAll := by
  match trees with
  | [] => rfl
  | tree :: trees =>
      simp only [erasedAll, mapPayloadsM, mapPayloadM_erased tree, mapPayloadsM_erasedAll trees]
      cases tree.mapPayloadM bindings.term with
      | error error => rfl
      | ok first => cases mapPayloadsM bindings.term trees <;> rfl

end

/-- Binding fails at the same name, or gives the same terms to what is left. -/
theorem bind_erased (tree : Tree) : bindings.bind tree.erased = (bindings.bind tree).map erased :=
  mapPayloadM_erased bindings tree

end Binding

/-- A type error without the texts of the nodes that it names. -/
def TypeError.withoutTexts : TypeError → TypeError
  | .mismatch _ expected found => .mismatch "" expected found
  | .tooManyArguments => .tooManyArguments
  | .notAFunction _ => .notAFunction ""

theorem mapError_bind {ε ε' α β : Type} (f : ε → ε') (first : Except ε α) (next : α → Except ε β) :
    (first >>= next).mapError f = first.mapError f >>= fun value => (next value).mapError f := by
  cases first <;> rfl

namespace Node

section Check

variable {F R M : Type}

theorem expectOutput_erased (head : BoundTree F R M) (output expected : Ty) :
    (head.erased.expectOutput output expected).mapError TypeError.withoutTexts =
      (head.expectOutput output expected).mapError TypeError.withoutTexts := by
  unfold expectOutput
  split <;> rfl

theorem headType_erased (node : BoundTree F R M) :
    node.erased.headType.mapError TypeError.withoutTexts = node.headType.mapError TypeError.withoutTexts := by
  match node with
  | .name .. | .numeral .. => rfl
  | .paren child _ _ _ => exact headType_erased child
  | .row [] _ _ | .block [] _ _ _ => rfl
  | .row (head :: _) _ _ | .block (head :: _) _ _ _ =>
      simp only [erased, erasedAll, headType, mapError_bind, headType_erased head]

mutual

theorem check_erased (expected : Ty) (node : BoundTree F R M) :
    (node.erased.check expected).mapError TypeError.withoutTexts =
      (node.check expected).mapError TypeError.withoutTexts := by
  match node with
  | .name .. | .numeral .. => rfl
  | .paren child _ _ _ => exact check_erased expected child
  | .row children _ _ => exact checkApplication_erasedAll expected children
  | .block children _ _ _ => exact checkApplication_erasedAll expected children

theorem checkApplication_erasedAll (expected : Ty) (children : List (BoundTree F R M)) :
    (checkApplication expected (erasedAll children)).mapError TypeError.withoutTexts =
      (checkApplication expected children).mapError TypeError.withoutTexts := by
  match children with
  | [] => rfl
  | head :: arguments =>
      have harguments (input : Ty) := checkAll_erasedAll input arguments
      simp only [erasedAll, checkApplication, mapError_bind, headType_erased head]
      congr 1
      funext type
      cases type with
      | none => rfl
      | some type =>
          cases type with
          | number | transformer => rfl
          | variadic input output =>
              simp only [mapError_bind, expectOutput_erased head, harguments]
          | func input output =>
              simp only [mapError_bind, expectOutput_erased head, length_erasedAll]
              congr 1
              funext _
              split
              case isTrue => exact harguments input
              case isFalse => rfl

theorem checkAll_erasedAll (expected : Ty) (nodes : List (BoundTree F R M)) :
    (checkAll expected (erasedAll nodes)).mapError TypeError.withoutTexts =
      (checkAll expected nodes).mapError TypeError.withoutTexts := by
  match nodes with
  | [] => rfl
  | node :: nodes =>
      simp only [erasedAll, checkAll, mapError_bind, check_erased expected node,
        checkAll_erasedAll expected nodes]

end

end Check

end Node

/-- An error without the texts of the nodes that it names: the stage that failed, the kind of the error, and
a name that stands for nothing. -/
def ProgramError.withoutTexts : ProgramError → ProgramError
  | .type error => .type error.withoutTexts
  | .parse error => .parse error
  | .unbound error => .unbound error
  | .eval error => .eval error

namespace Program

open Vocabulary

/-- Two outcomes alike: steps whose patterns have the same events in every window, or the same error but for
the texts of nodes. -/
inductive SameOutcome : Except ProgramError Step → Except ProgramError Step → Prop where
  | steps {step other : Step}
      (same : ∀ start stop, (step.pattern : Pattern Double Note) start stop = other.pattern start stop) :
      SameOutcome (.ok step) (.ok other)
  | errors {error other : ProgramError} (same : error.withoutTexts = other.withoutTexts) :
      SameOutcome (.error error) (.error other)

theorem sameOutcome_of_mapError {outcome other : Except ProgramError Step}
    (h : outcome.mapError ProgramError.withoutTexts = other.mapError ProgramError.withoutTexts) :
    SameOutcome outcome other := by
  cases outcome with
  | ok step =>
      cases other with
      | ok other =>
          cases h
          exact .steps fun _ _ => rfl
      | error => cases h
  | error error =>
      cases other with
      | ok => cases h
      | error other => exact .errors (Except.error.inj h)

/-- Checks a program, and evaluates it if nothing is wrong. -/
def stepOf (program : Program) : Except ProgramError Step := do
  (program.check .transformer).mapError .type
  program.run.1.mapError .eval

/-- The step that a tree stands for. -/
def stepOfTree (tree : Tree) : Except ProgramError Step :=
  (bindings.bind tree).mapError .unbound >>= stepOf

theorem stepOfText_of_read {text : String} {document : Document Unit}
    (h : Grammar.readProgram text = .ok document) : stepOfText text = stepOfTree document.tree := by
  have hchecked : ofText text = (bindings.bind document.tree).mapError .unbound >>= fun program =>
      (program.check .transformer).mapError .type >>= fun _ => .ok program := by
    rw [ofText, h]
    rfl
  rw [stepOfText, hchecked, stepOfTree]
  cases (bindings : Bindings Operation Reading Unit).bind document.tree with
  | error error => rfl
  | ok program =>
      show ((program.check .transformer).mapError ProgramError.type >>= fun _ => .ok program) >>= _ =
        stepOf program
      rw [stepOf]
      cases program.check .transformer <;> rfl

theorem mapError_type (result : Except TypeError Unit) :
    (result.mapError ProgramError.type).mapError ProgramError.withoutTexts =
      (result.mapError TypeError.withoutTexts).mapError ProgramError.type := by
  cases result <;> rfl

theorem run_erased {tree : Tree} {program : Program} (h : bindings.bind tree = .ok program) :
    (run program.erased).1 = program.run.1 := by
  have herased : bindings.bind tree.erased = .ok program.erased := by
    rw [bind_erased, h]
    rfl
  rw [run_of_fresh (Node.fresh_of_bind herased), run_of_fresh (Node.fresh_of_bind h), Node.meaning_erased]

/-- A tree comes to the same end as what is left of it without its surface. -/
theorem stepOfTree_erased (tree : Tree) :
    (stepOfTree tree.erased).mapError ProgramError.withoutTexts =
      (stepOfTree tree).mapError ProgramError.withoutTexts := by
  rw [stepOfTree, stepOfTree, bind_erased]
  cases hbound : (bindings : Bindings Operation Reading Unit).bind tree with
  | error error => rfl
  | ok program =>
      show (stepOf program.erased).mapError ProgramError.withoutTexts =
        (stepOf program).mapError ProgramError.withoutTexts
      rw [stepOf, stepOf, mapError_bind, mapError_bind, mapError_type, mapError_type, Node.check_erased,
        run_erased hbound]

/-- What a program comes to does not hang on its surface: two texts whose trees are the same but for
parentheses, layout and the digits of numerals have the same outcome, and so have a text and what
formatting makes of it. -/
theorem outcome_of_erased :
    (∀ text document text' document', Grammar.readProgram text = .ok document →
      Grammar.readProgram text' = .ok document' → document.tree.erased = document'.tree.erased →
        SameOutcome (stepOfText text) (stepOfText text')) ∧
      ∀ text document, Grammar.readProgram text = .ok document →
        let formatted := (⟨document.tree.canonicalProgram, ""⟩ : Document Unit).writtenProgram ++ "\n"
        SameOutcome (stepOfText text) (stepOfText formatted) := by
  have hsame : ∀ text document text' document', Grammar.readProgram text = .ok document →
      Grammar.readProgram text' = .ok document' → document.tree.erased = document'.tree.erased →
        SameOutcome (stepOfText text) (stepOfText text') := by
    intro text document text' document' hread hread' herased
    apply sameOutcome_of_mapError
    rw [stepOfText_of_read hread, stepOfText_of_read hread', ← stepOfTree_erased document.tree, herased,
      stepOfTree_erased]
  refine ⟨hsame, fun text document hread => ?_⟩
  have hformatted := Grammar.readProgram_canonical (Grammar.readProgram_eq_ok hread).1.1
    Grammar.blankRun_newline
  exact hsame _ _ _ _ hread hformatted (Node.erased_canonicalProgram document.tree).symm

/-- One program on two surfaces. -/
def plainSurface : String := "note 60 (add 7.5)"

def variedSurface : String := "(note)\n   60.0 # C\n   add 7.50\n"

theorem outcome_of_erased_surfaces :
    (∃ document document', Grammar.readProgram plainSurface = .ok document ∧
      Grammar.readProgram variedSurface = .ok document' ∧ document.tree.erased = document'.tree.erased) ∧
      SameOutcome (stepOfText plainSurface) (stepOfText variedSurface) ∧
      SameOutcome (stepOfText variedSurface) (stepOfText ("(note)\n  60.0\n  add 7.50" ++ "\n")) := by
  have hplain : (Grammar.readProgram plainSurface).toOption.map (fun _ => ()) = some () := by decide +kernel
  have hvaried : (Grammar.readProgram variedSurface).toOption.map
      (fun document => (⟨document.tree.canonicalProgram, ""⟩ : Document Unit).writtenProgram) =
        some "(note)\n  60.0\n  add 7.50" := by decide +kernel
  have hsame : (Grammar.readProgram plainSurface).toOption.map (fun document => document.tree.erased) =
      (Grammar.readProgram variedSurface).toOption.map (fun document => document.tree.erased) := by
    decide +kernel
  obtain ⟨document, hread, -⟩ := exists_ok_of_map hplain
  obtain ⟨document', hread', hwritten⟩ := exists_ok_of_map hvaried
  simp only [hread, hread', Except.toOption, Option.map_some, Option.some.injEq] at hsame
  refine ⟨⟨document, document', hread, hread', hsame⟩,
    outcome_of_erased.1 _ _ _ _ hread hread' hsame, ?_⟩
  have hformatted := outcome_of_erased.2 variedSurface document' hread'
  rw [hwritten] at hformatted
  exact hformatted

end Program

end Cadence
