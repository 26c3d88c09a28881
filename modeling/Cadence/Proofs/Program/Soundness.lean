import Cadence.Program.Basic
import Cadence.Proofs.Program.Vocabulary

/-! What the type check is worth. An accepted program in which the head of every application is a name
comes to a step: where numerals are read as values of a type, a node that was checked against this type
has such a value. The check lets other heads pass, and since an application never gives a function, a
program with one of them fails. -/

namespace Cadence

namespace Node

variable {P : Type}

/-- A name, in any number of parentheses. -/
def isNamed : Node P → Bool
  | .name .. => true
  | .paren child _ _ _ => child.isNamed
  | .numeral .. | .row .. | .block .. => false

mutual

/-- Whether the head of every application is a name. -/
def nameHeaded : Node P → Bool
  | .name .. | .numeral .. => true
  | .paren child _ _ _ => child.nameHeaded
  | .row children _ _ | .block children _ _ _ => applicationNameHeaded children

def applicationNameHeaded : List (Node P) → Bool
  | [] => false
  | head :: arguments => head.isNamed && allNameHeaded arguments

def allNameHeaded : List (Node P) → Bool
  | [] => true
  | node :: nodes => node.nameHeaded && allNameHeaded nodes

end

section Check

variable {F R M : Type} {head : BoundTree F R M} {arguments : List (BoundTree F R M)}
  {input output expected : Ty}

theorem expectOutput_eq_ok : head.expectOutput output expected = .ok () ↔ output = expected := by
  unfold expectOutput
  split
  case isTrue hsame => exact iff_of_true rfl hsame
  case isFalse hother => exact iff_of_false (fun h => by cases h) hother

theorem checkAll_cons_eq_ok {node : BoundTree F R M} {nodes : List (BoundTree F R M)} :
    checkAll expected (node :: nodes) = .ok () ↔
      node.check expected = .ok () ∧ checkAll expected nodes = .ok () := by
  rw [checkAll, except_bind_eq_ok]
  exact ⟨fun ⟨_, hnode, hnodes⟩ => ⟨hnode, hnodes⟩, fun ⟨hnode, hnodes⟩ => ⟨(), hnode, hnodes⟩⟩

theorem check_name {name : String} {term : Term F R M} {found : Ty} (htype : term.type = some found) :
    (Node.name name term).check expected = .ok () ↔ found = expected := by
  rw [check, htype]
  dsimp only
  split
  case isTrue hsame => exact iff_of_true rfl hsame
  case isFalse hother => exact iff_of_false (fun h => by cases h) hother

theorem checkApplication_variadic (htype : head.headType = .ok (some (.variadic input output))) :
    checkApplication expected (head :: arguments) = .ok () ↔
      output = expected ∧ checkAll input arguments = .ok () := by
  have hchecked : checkApplication expected (head :: arguments) =
      (do head.expectOutput output expected; checkAll input arguments) := by
    rw [checkApplication, htype]
    rfl
  rw [hchecked, except_bind_eq_ok]
  exact ⟨fun ⟨_, houtput, hall⟩ => ⟨expectOutput_eq_ok.mp houtput, hall⟩,
    fun ⟨houtput, hall⟩ => ⟨(), expectOutput_eq_ok.mpr houtput, hall⟩⟩

theorem checkApplication_func (htype : head.headType = .ok (some (.func input output))) :
    checkApplication expected (head :: arguments) = .ok () ↔
      output = expected ∧ arguments.length = 1 ∧ checkAll input arguments = .ok () := by
  have hchecked : checkApplication expected (head :: arguments) =
      (do
        head.expectOutput output expected
        if arguments.length = 1 then checkAll input arguments else throw .tooManyArguments) := by
    rw [checkApplication, htype]
    rfl
  rw [hchecked, except_bind_eq_ok]
  constructor
  · rintro ⟨_, houtput, h⟩
    split at h
    case isTrue hone => exact ⟨expectOutput_eq_ok.mp houtput, hone, h⟩
    case isFalse => cases h
  · rintro ⟨houtput, hone, hall⟩
    exact ⟨(), expectOutput_eq_ok.mpr houtput, by rwa [if_pos hone]⟩

theorem checkApplication_transformer (htype : head.headType = .ok (some .transformer)) :
    checkApplication expected (head :: arguments) ≠ .ok () := by
  rw [checkApplication, htype]
  exact fun h => by cases h

end Check

section Sound

open Vocabulary

/-- What a head that is a name gives, and the type that it was checked with. -/
theorem named_head {head : Program} (hfresh : head.Fresh bindings) (h : head.isNamed = true) :
    ∃ term : Term Operation Reading Unit, Known term ∧ head.headType = .ok term.type ∧
      ∀ scope, head.meaning dialect nameMeaning scope = ((term.force (.ofScope scope ())).1, scope) := by
  match head with
  | .name value term =>
      refine ⟨term, known_of_lookup hfresh, rfl, fun scope => ?_⟩
      have hlookup : (bindings : Bindings Operation Reading Unit).lookup value = some term := hfresh
      rw [meaning, nameMeaning, hlookup]
  | .paren child _ _ _ =>
      have hchild := named_head hfresh.2 h
      exact hchild
  | .numeral .. | .row .. | .block .. => cases h

/-- A name stands for a step if it was checked against the type of a value that is no function. -/
theorem nameMeaning_of_check {name : String} {term : Term Operation Reading Unit} {expected : Ty}
    (hfresh : (Node.name name term).Fresh bindings) (hcheck : (Node.name name term).check expected = .ok ())
    (hexpected : expected = .number ∨ expected = .transformer) :
    ∃ step, expected = .transformer ∧ ∀ scope, nameMeaning name scope = .ok (.step step) := by
  have hlookup : (bindings : Bindings Operation Reading Unit).lookup name = some term := hfresh
  have hmeaning (scope : Scope Reading) : nameMeaning name scope = (term.force (.ofScope scope ())).1 := by
    rw [nameMeaning, hlookup]
  cases known_of_lookup hlookup with
  | step step => exact ⟨step, ((check_name rfl).mp hcheck).symm, hmeaning⟩
  | combinator | literals | channel =>
      rw [← (check_name rfl).mp hcheck] at hexpected
      exact absurd hexpected (by decide)

mutual

/-- Where numerals are read as values of a type, a node that was checked against it has such a value. -/
theorem meaning_of_check {node : Program} {expected : Ty} (hfresh : node.Fresh bindings)
    (hheads : node.nameHeaded = true) (hcheck : node.check expected = .ok ()) (scope : Scope Reading)
    (hscope : scope.reading.type = expected) :
    ∃ value after, node.meaning dialect nameMeaning scope = (.ok value, after) ∧
      value.type = some expected ∧ after.reading = scope.reading := by
  match node with
  | .name value term =>
      have hexpected : expected = .number ∨ expected = .transformer := hscope ▸ scope.reading.type_cases
      obtain ⟨step, rfl, hmeaning⟩ := nameMeaning_of_check hfresh hcheck hexpected
      exact ⟨.step step, scope, by rw [meaning, hmeaning], rfl, rfl⟩
  | .numeral value digits term =>
      refine ⟨_, scope, rfl, ?_, rfl⟩
      rw [← hscope]
      exact Reading.type_read scope.reading value scope
  | .paren child before behind term =>
      have hchild := meaning_of_check hfresh.2 hheads hcheck scope hscope
      exact hchild
  | .row children gaps term => exact applicationMeaning_of_check hfresh.2 hheads hcheck scope hscope
  | .block children indent gaps term => exact applicationMeaning_of_check hfresh.2 hheads hcheck scope hscope

theorem applicationMeaning_of_check {children : List Program} {expected : Ty}
    (hfresh : AllFresh bindings children) (hheads : applicationNameHeaded children = true)
    (hcheck : checkApplication expected children = .ok ()) (scope : Scope Reading)
    (hscope : scope.reading.type = expected) :
    ∃ value after, applicationMeaning dialect nameMeaning children scope = (.ok value, after) ∧
      value.type = some expected ∧ after.reading = scope.reading := by
  match children with
  | [] => cases hheads
  | head :: arguments =>
      obtain ⟨hhead, harguments⟩ := hfresh
      rw [applicationNameHeaded, Bool.and_eq_true] at hheads
      obtain ⟨hnamed, hheads⟩ := hheads
      obtain ⟨term, hknown, htype, hmeaning⟩ := named_head hhead hnamed
      have hcalled := hmeaning scope
      -- the head decides how the arguments read numerals, and only `channel` changes the caller's scope
      cases hknown with
      | step => exact absurd hcheck (checkApplication_transformer htype)
      | combinator operation hcombines =>
          obtain ⟨rfl, hall⟩ := (checkApplication_variadic htype).mp hcheck
          obtain ⟨values, hvalues, htypes⟩ := meanings_of_check harguments hheads hall scope hscope
          obtain ⟨step, hcall⟩ := call_of_steps hcombines htypes scope
          exact ⟨_, _, applicationMeaning_eq_ok.mpr ⟨_, _, _, _, _, rfl, hcalled, hvalues, hcall⟩, rfl, rfl⟩
      | literals reading hsteps =>
          obtain ⟨rfl, hall⟩ := (checkApplication_variadic htype).mp hcheck
          obtain ⟨values, hvalues, htypes⟩ :=
            meanings_of_check harguments hheads hall { scope with reading } hsteps
          have halternate : Operation.alternate ≠ .channel := by decide
          obtain ⟨step, hcall⟩ := call_of_steps halternate htypes scope
          exact ⟨_, _, applicationMeaning_eq_ok.mpr ⟨_, _, _, _, _, rfl, hcalled, hvalues, hcall⟩, rfl, rfl⟩
      | channel =>
          obtain ⟨rfl, hone, hall⟩ := (checkApplication_func htype).mp hcheck
          obtain ⟨argument, rfl⟩ := List.length_eq_one_iff.mp hone
          obtain ⟨values, hvalues, htypes⟩ :=
            meanings_of_check harguments hheads hall { scope with reading := .number } rfl
          obtain ⟨value, after, rest, hvalue, hrest, rfl⟩ := meanings_cons_eq_ok.mp hvalues
          cases hrest
          have htype := htypes value List.mem_cons_self
          cases value with
          | number number =>
              exact ⟨_, _, applicationMeaning_eq_ok.mpr
                ⟨_, _, _, _, _, rfl, hcalled, hvalues, call_channel_eq_ok.mpr ⟨number, rfl, rfl, rfl⟩⟩, rfl, rfl⟩
          | step => cases htype
          | function => cases htype

theorem meanings_of_check {nodes : List Program} {expected : Ty} (hfresh : AllFresh bindings nodes)
    (hheads : allNameHeaded nodes = true) (hcheck : checkAll expected nodes = .ok ())
    (scope : Scope Reading) (hscope : scope.reading.type = expected) :
    ∃ values, meanings dialect nameMeaning nodes scope = .ok values ∧
      ∀ value ∈ values, value.type = some expected := by
  match nodes with
  | [] => exact ⟨[], rfl, by simp⟩
  | node :: others =>
      obtain ⟨hnode, hothers⟩ := hfresh
      rw [allNameHeaded, Bool.and_eq_true] at hheads
      obtain ⟨hcheckNode, hcheckOthers⟩ := checkAll_cons_eq_ok.mp hcheck
      obtain ⟨value, after, hvalue, htype, hafter⟩ :=
        meaning_of_check hnode hheads.1 hcheckNode scope hscope
      obtain ⟨values, hvalues, htypes⟩ :=
        meanings_of_check hothers hheads.2 hcheckOthers after ((congrArg Reading.type hafter).trans hscope)
      exact ⟨value :: values, meanings_cons_eq_ok.mpr ⟨value, after, values, hvalue, hvalues, rfl⟩,
        List.forall_mem_cons.mpr ⟨htype, htypes⟩⟩

end

/-! ### What has a value is headed by names -/

mutual

theorem nameHeaded_of_meaning {P : Type} {node : Node P} {scope after : Scope Reading}
    {value : Value Operation Reading}
    (h : node.meaning dialect nameMeaning scope = (.ok value, after)) :
    node.nameHeaded = true ∧ (node.isNamed = true ∨ value.type ≠ none) := by
  match node with
  | .name .. => exact ⟨rfl, Or.inl rfl⟩
  | .numeral number _ _ =>
      cases h
      refine ⟨rfl, Or.inr ?_⟩
      have htype : (dialect.read scope.reading number scope).type = some scope.reading.type :=
        Reading.type_read scope.reading number scope
      rw [htype]
      exact Option.some_ne_none _
  | .paren child _ _ _ =>
      have hchild : child.meaning dialect nameMeaning scope = (.ok value, after) := h
      have hheads := nameHeaded_of_meaning hchild
      exact hheads
  | .row children _ _ =>
      have happlied : applicationMeaning dialect nameMeaning children scope = (.ok value, after) := h
      obtain ⟨hheads, htype⟩ := applicationNameHeaded_of_meaning happlied
      exact ⟨hheads, Or.inr (by rw [htype]; exact Option.some_ne_none _)⟩
  | .block children _ _ _ =>
      have happlied : applicationMeaning dialect nameMeaning children scope = (.ok value, after) := h
      obtain ⟨hheads, htype⟩ := applicationNameHeaded_of_meaning happlied
      exact ⟨hheads, Or.inr (by rw [htype]; exact Option.some_ne_none _)⟩

/-- An application never gives a function, and so cannot be the head of another. -/
theorem applicationNameHeaded_of_meaning {P : Type} {children : List (Node P)}
    {scope after : Scope Reading} {value : Value Operation Reading}
    (h : applicationMeaning dialect nameMeaning children scope = (.ok value, after)) :
    applicationNameHeaded children = true ∧ value.type = some .transformer := by
  obtain ⟨head, arguments, function, caller, values, rfl, hcalled, hvalues, hcall⟩ :=
    applicationMeaning_eq_ok.mp h
  refine ⟨?_, type_of_call hcall⟩
  rw [applicationNameHeaded, Bool.and_eq_true]
  obtain ⟨-, hnamed | hvalue⟩ := nameHeaded_of_meaning hcalled
  · exact ⟨hnamed, allNameHeaded_of_meanings hvalues⟩
  · exact absurd rfl hvalue

theorem allNameHeaded_of_meanings {P : Type} {nodes : List (Node P)} {scope : Scope Reading}
    {values : List (Value Operation Reading)}
    (h : meanings dialect nameMeaning nodes scope = .ok values) : allNameHeaded nodes = true := by
  match nodes with
  | [] => rfl
  | node :: others =>
      obtain ⟨value, after, rest, hvalue, hrest, -⟩ := meanings_cons_eq_ok.mp h
      rw [allNameHeaded, (nameHeaded_of_meaning hvalue).1, allNameHeaded_of_meanings hrest]
      rfl

end

end Sound

end Node

namespace Program

open Vocabulary

theorem ofText_eq_ok {text : String} {program : Program} (h : ofText text = .ok program) :
    program.Fresh bindings ∧ program.check .transformer = .ok () := by
  obtain ⟨document, -, h⟩ := except_bind_eq_ok.mp h
  obtain ⟨bound, hbound, h⟩ := except_bind_eq_ok.mp h
  obtain ⟨_, hcheck, h⟩ := except_bind_eq_ok.mp h
  cases h
  exact ⟨Node.fresh_of_bind (ok_of_mapError hbound), ok_of_mapError hcheck⟩

theorem run_of_fresh {program : Program} (h : program.Fresh bindings) :
    program.run.1 = (program.meaning dialect nameMeaning outermost).1.bind Value.toStep := by
  rw [run, (Node.evaluate_fresh settled h _).1]
  rfl

/-- An accepted program comes to a step exactly if the head of each of its applications is a name. -/
theorem run_ok_iff {text : String} {program : Program} (h : ofText text = .ok program) :
    (∃ step, program.run.1 = .ok step) ↔ program.nameHeaded = true := by
  obtain ⟨hfresh, hcheck⟩ := ofText_eq_ok h
  rw [run_of_fresh hfresh]
  constructor
  · rintro ⟨step, hstep⟩
    cases hmeaning : program.meaning dialect nameMeaning outermost with
    | mk result after =>
        rw [hmeaning] at hstep
        cases result with
        | error error => cases hstep
        | ok value => exact (Node.nameHeaded_of_meaning hmeaning).1
  · intro hheads
    obtain ⟨value, after, hmeaning, htype, -⟩ := Node.meaning_of_check hfresh hheads hcheck outermost rfl
    rw [hmeaning]
    cases value with
    | step step => exact ⟨step, rfl⟩
    | number => cases htype
    | function => cases htype

theorem run_ok_iff_channels :
    ∃ program, ofText "stack (channel 3) 60 (note (64))" = .ok program ∧
      ∃ step, program.run.1 = .ok step := by
  have hheads : (ofText "stack (channel 3) 60 (note (64))").toOption.map Node.nameHeaded = some true := by
    decide +kernel
  obtain ⟨program, hprogram, hnamed⟩ := exists_ok_of_map hheads
  exact ⟨program, hprogram, (run_ok_iff hprogram).mpr hnamed⟩

/-- Why a run fails, if it does. -/
def failure : Except EvalError Step → Option EvalError
  | .ok _ => none
  | .error error => some error

theorem run_of_failure {text : String} {error : EvalError}
    (h : (ofText text).toOption.bind (fun program => failure program.run.1) = some error) :
    ∃ program, ofText text = .ok program ∧ program.run.1 = .error error := by
  cases hprogram : ofText text with
  | error error =>
      rw [hprogram] at h
      cases h
  | ok program =>
      rw [hprogram] at h
      refine ⟨program, rfl, ?_⟩
      have hfailure : failure program.run.1 = some error := h
      cases hrun : program.run.1 with
      | ok step =>
          rw [hrun] at hfailure
          cases hfailure
      | error found =>
          rw [hrun] at hfailure
          rw [Option.some.inj hfailure]

/-- The check has nothing to say about a head that is an application of a step. -/
theorem accepted_not_callable :
    ∃ program, ofText "(i 1) 2" = .ok program ∧ program.run.1 = .error (.notCallable "transformer") :=
  run_of_failure (by decide +kernel)

end Program

end Cadence
