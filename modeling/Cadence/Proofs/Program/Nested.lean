import Cadence.Proofs.Program.Surface
import Cadence.Proofs.Tree.Nested

/-! A program under its own `do`. All lines of a text are moved to the right and a line with `do` is put in front
of them. What was the whole program is then the only expression of the new one: an application of `do` as it was
understood before, further to the right. Both texts come to the same. -/

namespace Cadence

namespace Node

section Erased

variable {P : Type} (columns : Nat)

mutual

theorem erased_raised (node : Node P) : (node.raised columns).erased = node.erased := by
  match node with
  | .name .. | .numeral .. | .paren .. | .row .. => rw [raised]
  | .block [] _ _ _ => rw [raised]
  | .block (head :: arguments) _ _ _ => simp only [raised, erased, erasedAll, erasedAll_raisedAll arguments]

theorem erasedAll_raisedAll (nodes : List (Node P)) : erasedAll (raisedAll columns nodes) = erasedAll nodes := by
  match nodes with
  | [] => rfl
  | node :: others => simp only [raisedAll, erasedAll, erased_raised node, erasedAll_raisedAll others]

end

theorem meanings_raisedAll {F R : Type} {dialect : Dialect F R}
    {names : String → Scope R → Except EvalError (Value F R)} (nodes : List (Node P)) (scope : Scope R) :
    meanings dialect names (raisedAll columns nodes) scope = meanings dialect names nodes scope := by
  rw [← meanings_erasedAll, erasedAll_raisedAll, meanings_erasedAll]

end Erased

section Bound

variable {F R M : Type} (columns : Nat)

mutual

theorem mapPayloadM_raised (bindings : Bindings F R M) (tree : Tree) :
    (tree.raised columns).mapPayloadM bindings.term = (tree.mapPayloadM bindings.term).map (raised columns) := by
  match tree with
  | .name value payload =>
      simp only [raised, mapPayloadM]
      cases bindings.term (.name value payload) <;> rfl
  | .numeral .. => rfl
  | .paren child _ _ _ =>
      simp only [raised, mapPayloadM]
      cases child.mapPayloadM bindings.term <;> rfl
  | .row children _ _ =>
      simp only [raised, mapPayloadM]
      cases mapPayloadsM bindings.term children <;> rfl
  | .block [] _ _ _ => rfl
  | .block (head :: arguments) _ _ _ =>
      simp only [raised, mapPayloadM, mapPayloadsM, mapPayloadsM_raisedAll bindings arguments]
      cases head.mapPayloadM bindings.term with
      | error error => rfl
      | ok first => cases mapPayloadsM bindings.term arguments <;> rfl

theorem mapPayloadsM_raisedAll (bindings : Bindings F R M) (trees : List Tree) :
    mapPayloadsM bindings.term (raisedAll columns trees) =
      (mapPayloadsM bindings.term trees).map (raisedAll columns) := by
  match trees with
  | [] => rfl
  | tree :: trees =>
      simp only [raisedAll, mapPayloadsM, mapPayloadM_raised bindings tree,
        mapPayloadsM_raisedAll bindings trees]
      cases tree.mapPayloadM bindings.term with
      | error error => rfl
      | ok first => cases mapPayloadsM bindings.term trees <;> rfl

end

mutual

/-- The heads of blocks stay as they are, and so do the errors that show them. -/
theorem check_raised (expected : Ty) (node : BoundTree F R M) :
    (node.raised columns).check expected = node.check expected := by
  match node with
  | .name .. | .numeral .. | .paren .. | .row .. => rw [raised]
  | .block [] _ _ _ => rw [raised]
  | .block (head :: arguments) _ _ _ =>
      have harguments (input : Ty) := checkAll_raisedAll input arguments
      simp only [raised, check, checkApplication, length_raisedAll, harguments]

theorem checkAll_raisedAll (expected : Ty) (nodes : List (BoundTree F R M)) :
    checkAll expected (raisedAll columns nodes) = checkAll expected nodes := by
  match nodes with
  | [] => rfl
  | node :: others =>
      simp only [raisedAll, checkAll, check_raised expected node, checkAll_raisedAll expected others]

end

end Bound

section Do

open Vocabulary

/-- The term of `do`, which makes one step of all its arguments. -/
def doTerm : Term Operation Reading Unit := combinator .compose

theorem mapPayloadM_do (arguments : List Tree) (indent : Nat) (gaps : List String) :
    (Node.block (.name "do" () :: arguments) indent gaps () : Tree).mapPayloadM
        (bindings : Bindings Operation Reading Unit).term =
      (mapPayloadsM (bindings : Bindings Operation Reading Unit).term arguments).map fun bound =>
        .block (.name "do" doTerm :: bound) indent gaps .empty := by
  rw [mapPayloadM, mapPayloadsM]
  cases mapPayloadsM (bindings : Bindings Operation Reading Unit).term arguments <;> rfl

/-- Nothing is expected of the arguments of a `do` in a `do` but to be steps. -/
theorem check_do_do (arguments : List (BoundTree Operation Reading Unit)) (column indent : Nat)
    (gaps gaps' : List String) (term term' : Term Operation Reading Unit) :
    check .transformer (.block [.name "do" doTerm, .block (.name "do" doTerm :: arguments) indent gaps term]
      column gaps' term') = checkAll .transformer arguments := by
  show checkAll .transformer [.block (.name "do" doTerm :: arguments) indent gaps term] = _
  simp only [checkAll]
  show checkAll .transformer arguments >>= (fun _ => .ok ()) = _
  cases checkAll .transformer arguments <;> rfl

theorem toStep_do {P : Type} (payload : P) (arguments : List (Node P)) (scope : Scope Reading) :
    (applicationMeaning dialect nameMeaning (.name "do" payload :: arguments) scope).1.bind Value.toStep =
      ((meanings dialect nameMeaning arguments scope).bind fun values =>
        values.mapM Value.toStep).map .compose := by
  rw [applicationMeaning_do]
  cases meanings dialect nameMeaning arguments scope with
  | error error => rfl
  | ok values =>
      simp only [Except.bind]
      cases values.mapM Value.toStep <;> rfl

/-- A `do` in a `do` comes to the same step once more, or to the same error. -/
theorem toStep_do_do {P : Type} (first second third : P) (arguments : List (Node P)) (indent : Nat)
    (gaps : List String) (scope : Scope Reading) :
    (applicationMeaning dialect nameMeaning
        [.name "do" first, .block (.name "do" second :: arguments) indent gaps third] scope).1.bind Value.toStep =
      ((applicationMeaning dialect nameMeaning (.name "do" second :: arguments) scope).1.bind Value.toStep).map
        fun step => .compose [step] := by
  rw [toStep_do first]
  simp only [meanings, meaning, applicationMeaning_do]
  cases meanings dialect nameMeaning arguments scope with
  | error error => rfl
  | ok values =>
      simp only [Except.bind]
      cases values.mapM Value.toStep <;> rfl

end Do

end Node

namespace Program

open Vocabulary Node

/-- Under its own `do` a program comes to its step once more, or to the same error. -/
theorem stepOfTree_nestedProgram (columns : Nat) (expressions : List Tree) (leading : String)
    (gaps : List String) :
    stepOfTree (nestedProgram columns expressions leading gaps) =
      (stepOfTree (programOf expressions leading gaps)).map fun step => .compose [step] := by
  have hplain : (bindings : Bindings Operation Reading Unit).bind (programOf expressions leading gaps) = _ :=
    mapPayloadM_do expressions 0 (leading :: gaps)
  have hnested : (bindings : Bindings Operation Reading Unit).bind
      (nestedProgram columns expressions leading gaps) = _ := mapPayloadM_do _ 0 [""]
  rw [mapPayloadsM, mapPayloadM_do, mapPayloadsM_raisedAll] at hnested
  rw [stepOfTree, stepOfTree]
  cases hbound : mapPayloadsM (bindings : Bindings Operation Reading Unit).term expressions with
  | error error =>
      rw [hplain, hnested, hbound]
      rfl
  | ok bound =>
      rw [hbound] at hplain hnested
      let plain : Program := .block (.name "do" doTerm :: bound) 0 (leading :: gaps) .empty
      let nested : Program := .block [.name "do" doTerm, .block (.name "do" doTerm :: raisedAll columns bound)
        columns (openGap columns leading :: gaps.map (insetRest columns)) .empty] 0 [""] .empty
      have hcheck : nested.check .transformer = plain.check .transformer := by
        rw [check_do_do, checkAll_raisedAll]
        rfl
      have hrun : nested.run.1 = plain.run.1.map fun step => .compose [step] := by
        rw [run_of_fresh (fresh_of_bind hnested), run_of_fresh (fresh_of_bind hplain)]
        simp only [meaning]
        rw [toStep_do_do, toStep_do, toStep_do, meanings_raisedAll]
      rw [hplain, hnested]
      show stepOf nested = (stepOf plain).map fun step => .compose [step]
      rw [stepOf, stepOf, hcheck, hrun]
      cases plain.check .transformer with
      | error error => rfl
      | ok _ =>
          cases plain.run.1 <;> rfl

theorem outcome_of_nested {columns : Nat} {expressions : List Tree} {leading : String} {gaps : List String}
    {text nested trailing trailing' : String}
    (hread : Grammar.readProgram text = .ok ⟨programOf expressions leading gaps, trailing⟩)
    (hnested : Grammar.readProgram nested = .ok ⟨nestedProgram columns expressions leading gaps, trailing'⟩) :
    (stepOfText nested).map (Step.pattern : Step → Pattern Double Note) =
      (stepOfText text).map Step.pattern := by
  rw [stepOfText_of_read hread, stepOfText_of_read hnested, stepOfTree_nestedProgram]
  cases stepOfTree (programOf expressions leading gaps) <;> rfl

/-- A program is its own explicit `do`. If a line with `do` is put in front of its text and all lines of the text
are moved to the right, then the only expression that is read is an application of `do` to the expressions of
the program, moved to the right with their blank lines; and the outcome is the same, be it an error or a
pattern. A line end at the end of the text may as well have no spaces behind it. -/
theorem nested_of_read {text : String} {document : Document Unit} (hread : Grammar.readProgram text = .ok document)
    {columns : Nat} (hcolumns : 1 ≤ columns) :
    ∃ expressions leading gaps, document.tree = programOf expressions leading gaps ∧
      (let nested := "do\n" ++ inset columns text
      Grammar.readProgram nested =
          .ok ⟨nestedProgram columns expressions leading gaps, insetRest columns document.trailing⟩ ∧
        (stepOfText nested).map (Step.pattern : Step → Pattern Double Note) =
          (stepOfText text).map Step.pattern) ∧
      ∀ front, text = front ++ "\n" →
        let nested := "do\n" ++ inset columns front ++ "\n"
        ∃ before, document.trailing = before ++ "\n" ∧
          Grammar.readProgram nested =
            .ok ⟨nestedProgram columns expressions leading gaps, insetRest columns before ++ "\n"⟩ ∧
          (stepOfText nested).map (Step.pattern : Step → Pattern Double Note) =
            (stepOfText text).map Step.pattern := by
  obtain ⟨tree, trailing⟩ := document
  obtain ⟨expressions, leading, gaps, rfl⟩ := exists_programOf (Grammar.readProgram_iff.mp hread).1.1
  refine ⟨expressions, leading, gaps, rfl, ?_, ?_⟩
  · have hnested := Grammar.readProgram_nested hcolumns hread
    exact ⟨hnested, outcome_of_nested hread hnested⟩
  · rintro front rfl
    obtain ⟨before, htrailing, hnested⟩ := Grammar.readProgram_nested_newline hcolumns hread
    exact ⟨before, htrailing, hnested, outcome_of_nested hread hnested⟩

/-- A program with blank lines and comments before, between and behind its expressions, and a block inside. -/
def blockText : String := "\n# start\nstack  # both\n   (note) 60\n\n   alt\n    i\n    m\n# end\n"

theorem nested_of_read_block :
    "do\n" ++ inset 2 blockText =
        "do\n  \n  # start\n  stack  # both\n     (note) 60\n  \n     alt\n      i\n      m\n  # end\n  " ∧
      ∃ document expressions leading gaps, Grammar.readProgram blockText = .ok document ∧
        document.tree = programOf expressions leading gaps ∧
        Grammar.readProgram ("do\n" ++ inset 2 blockText) =
          .ok ⟨nestedProgram 2 expressions leading gaps, insetRest 2 document.trailing⟩ ∧
        (stepOfText ("do\n" ++ inset 2 blockText)).map (Step.pattern : Step → Pattern Double Note) =
          (stepOfText blockText).map Step.pattern := by
  refine ⟨by decide +kernel, ?_⟩
  have haccepted : (Grammar.readProgram blockText).toOption.map (fun _ => ()) = some () := by decide +kernel
  obtain ⟨document, hread, -⟩ := exists_ok_of_map haccepted
  have htwo : 1 ≤ 2 := by decide
  obtain ⟨expressions, leading, gaps, htree, hnested, -⟩ := nested_of_read hread htwo
  exact ⟨document, expressions, leading, gaps, hread, htree, hnested⟩

end Program

end Cadence
