import Cadence.Program.Basic
import Cadence.Proofs.Source.Outcome

/-! Types by their texts. No text of a type is the beginning of another one, so a type can be read off the start of any
text that begins with one, and the arrow between two types is found where the first of them ends, however deep types are
nested. Two types that are told apart are therefore written differently, which is what the errors of the type check rely
on. -/

namespace Cadence

namespace Ty

/-- Whether a type is the only one whose text stands at the start of a text that begins with its own. -/
def IsReadOff (type : Ty) : Prop :=
  ∀ (other : Ty) (rest rest' : List Char),
    type.text.toList ++ rest = other.text.toList ++ rest' → type = other ∧ rest = rest'

/-- What stands behind the name of a type that is made of two others. -/
def arrow (input output : Ty) (rest : List Char) : List Char :=
  input.text.toList ++ (" -> ".toList ++ (output.text.toList ++ (")".toList ++ rest)))

theorem toList_text_func (input output : Ty) (rest : List Char) :
    (func input output).text.toList ++ rest = "func(".toList ++ arrow input output rest := by
  have htext : (func input output).text = "func(" ++ input.text ++ " -> " ++ output.text ++ ")" := rfl
  simp only [htext, arrow, String.toList_append, List.append_assoc]

theorem toList_text_variadic (input output : Ty) (rest : List Char) :
    (variadic input output).text.toList ++ rest = "listProcessor(".toList ++ arrow input output rest := by
  have htext : (variadic input output).text = "listProcessor(" ++ input.text ++ " -> " ++ output.text ++ ")" := rfl
  simp only [htext, arrow, String.toList_append, List.append_assoc]

/-- The first character of a text, by which the four forms of types are told apart. -/
def initial : Ty → Char
  | number => 'n'
  | transformer => 't'
  | func _ _ => 'f'
  | variadic _ _ => 'l'

theorem head?_text (type : Ty) (rest : List Char) : (type.text.toList ++ rest).head? = some type.initial := by
  cases type with
  | number | transformer => rfl
  | func input output =>
      rw [toList_text_func]
      rfl
  | variadic input output =>
      rw [toList_text_variadic]
      rfl

theorem initial_eq {type other : Ty} {rest rest' : List Char}
    (h : type.text.toList ++ rest = other.text.toList ++ rest') : type.initial = other.initial := by
  have hhead := congrArg List.head? h
  rw [head?_text, head?_text] at hhead
  exact Option.some.inj hhead

/-- The arrow that belongs to two types is found although their texts may hold arrows too. -/
theorem arrow_inj {input output input' output' : Ty} (hinput : input.IsReadOff) (houtput : output.IsReadOff)
    {rest rest' : List Char} (h : arrow input output rest = arrow input' output' rest') :
    input = input' ∧ output = output' ∧ rest = rest' := by
  obtain ⟨rfl, hbehind⟩ := hinput input' _ _ h
  obtain ⟨rfl, hclosed⟩ := houtput output' _ _ (List.append_cancel_left hbehind)
  exact ⟨rfl, rfl, List.append_cancel_left hclosed⟩

theorem isReadOff (type : Ty) : type.IsReadOff := by
  induction type with
  | number =>
      intro other rest rest' h
      cases other with
      | number => exact ⟨rfl, List.append_cancel_left h⟩
      | transformer | func | variadic => exact absurd (initial_eq h) (by simp [initial])
  | transformer =>
      intro other rest rest' h
      cases other with
      | transformer => exact ⟨rfl, List.append_cancel_left h⟩
      | number | func | variadic => exact absurd (initial_eq h) (by simp [initial])
  | func input output hinput houtput =>
      intro other rest rest' h
      cases other with
      | func input' output' =>
          rw [toList_text_func, toList_text_func] at h
          obtain ⟨rfl, rfl, hrest⟩ := arrow_inj hinput houtput (List.append_cancel_left h)
          exact ⟨rfl, hrest⟩
      | number | transformer | variadic => exact absurd (initial_eq h) (by simp [initial])
  | variadic input output hinput houtput =>
      intro other rest rest' h
      cases other with
      | variadic input' output' =>
          rw [toList_text_variadic, toList_text_variadic] at h
          obtain ⟨rfl, rfl, hrest⟩ := arrow_inj hinput houtput (List.append_cancel_left h)
          exact ⟨rfl, hrest⟩
      | number | transformer | func => exact absurd (initial_eq h) (by simp [initial])

theorem text_injective : Function.Injective text := by
  intro type other h
  exact (type.isReadOff other [] [] (by rw [h])).1

end Ty

/-- Whether an error that compares two types compares different ones. -/
def TypeError.TellsApart : TypeError → Prop
  | .mismatch _ expected found => found ≠ expected
  | .tooManyArguments | .notAFunction _ => True

namespace Node

variable {F R M : Type} {error : TypeError}

/-- The search for the type of a head compares no types. -/
theorem tellsApart_headType {head : BoundTree F R M} (h : head.headType = .error error) : error.TellsApart := by
  match head with
  | .name .. => cases h
  | .numeral .. =>
      cases h
      trivial
  | .paren child _ _ _ =>
      rw [headType] at h
      exact tellsApart_headType h
  | .row [] _ _ | .block [] _ _ _ => cases h
  | .row (inner :: _) _ _ | .block (inner :: _) _ _ _ =>
      rw [headType] at h
      rcases except_bind_eq_error.mp h with hinner | ⟨_, -, hpure⟩
      · exact tellsApart_headType hinner
      · cases hpure

theorem tellsApart_expectOutput {head : BoundTree F R M} {output expected : Ty}
    (h : head.expectOutput output expected = .error error) : error.TellsApart := by
  unfold expectOutput at h
  split at h
  case isTrue => cases h
  case isFalse hother =>
    cases h
    exact hother

mutual

theorem tellsApart_check {node : BoundTree F R M} {expected : Ty} (h : node.check expected = .error error) :
    error.TellsApart := by
  match node with
  | .paren child _ _ _ =>
      rw [check] at h
      exact tellsApart_check h
  | .numeral .. => cases h
  | .name value term =>
      rw [check] at h
      cases htype : term.type with
      | none =>
          rw [htype] at h
          cases h
      | some found =>
          rw [htype] at h
          dsimp only at h
          split at h
          case isTrue => cases h
          case isFalse hother =>
            cases h
            exact hother
  | .row children _ _ | .block children _ _ _ =>
      rw [check] at h
      exact tellsApart_checkApplication h

theorem tellsApart_checkApplication {children : List (BoundTree F R M)} {expected : Ty}
    (h : checkApplication expected children = .error error) : error.TellsApart := by
  match children with
  | [] => cases h
  | head :: arguments =>
      rw [checkApplication] at h
      rcases except_bind_eq_error.mp h with hhead | ⟨type, -, h⟩
      · exact tellsApart_headType hhead
      · match type with
        | none => cases h
        | some .number | some .transformer =>
            cases h
            trivial
        | some (.variadic input output) =>
            rcases except_bind_eq_error.mp h with houtput | ⟨_, -, hall⟩
            · exact tellsApart_expectOutput houtput
            · exact tellsApart_checkAll hall
        | some (.func input output) =>
            rcases except_bind_eq_error.mp h with houtput | ⟨_, -, hall⟩
            · exact tellsApart_expectOutput houtput
            · split at hall
              case isTrue => exact tellsApart_checkAll hall
              case isFalse =>
                cases hall
                trivial

theorem tellsApart_checkAll {nodes : List (BoundTree F R M)} {expected : Ty}
    (h : checkAll expected nodes = .error error) : error.TellsApart := by
  match nodes with
  | [] => cases h
  | node :: others =>
      rw [checkAll] at h
      rcases except_bind_eq_error.mp h with hnode | ⟨_, -, hothers⟩
      · exact tellsApart_check hnode
      · exact tellsApart_checkAll hothers

end

end Node

namespace Program

/-- The only errors about types that a text can end in are those of the check. -/
theorem tellsApart_ofText {text : String} {error : TypeError} (h : ofText text = .error (.type error)) :
    error.TellsApart := by
  rw [ofText] at h
  rcases except_bind_eq_error.mp h with hread | ⟨document, -, h⟩
  · obtain ⟨_, -, hcause⟩ := error_of_mapError hread
    cases hcause
  · rcases except_bind_eq_error.mp h with hbound | ⟨program, -, h⟩
    · obtain ⟨_, -, hcause⟩ := error_of_mapError hbound
      cases hcause
    · rcases except_bind_eq_error.mp h with hcheck | ⟨_, -, hpure⟩
      · obtain ⟨cause, hcause, hsame⟩ := error_of_mapError hcheck
        cases hsame
        exact Node.tellsApart_check hcause
      · cases hpure

/-- The text of a type stands for this type and no other, at any depth of nesting: types with the same text are the same.
An error about a type that is not the expected one, of the check of any node or of a whole text, shows two different texts
for them. -/
theorem type_texts_unambiguous :
    (∀ type other : Ty, type.text = other.text ↔ type = other) ∧
      (∀ {F R M : Type} (node : BoundTree F R M) (type : Ty) (name : String) (expected found : Ty),
        node.check type = .error (.mismatch name expected found) → found.text ≠ expected.text) ∧
      ∀ (text name : String) (expected found : Ty),
        ofText text = .error (.type (.mismatch name expected found)) → found.text ≠ expected.text := by
  refine ⟨fun type other => Ty.text_injective.eq_iff, ?_, ?_⟩
  · intro F R M node type name expected found h
    have hother : found ≠ expected := Node.tellsApart_check h
    exact Ty.text_injective.ne hother
  · intro text name expected found h
    have hother : found ≠ expected := tellsApart_ofText h
    exact Ty.text_injective.ne hother

/-- Takes a function, and gives a step. -/
def functional : Ty := .func (.func .number .transformer) .transformer

/-- Takes a number, and gives a function. -/
def curried : Ty := .func .number (.func .transformer .transformer)

/-- Between `func(func(number -> transformer) -> transformer)` and `func(number -> func(transformer -> transformer))` only the
parentheses are other ones. -/
theorem type_texts_unambiguous_nested :
    functional.text ≠ curried.text ∧
      (let node : BoundTree Operation Reading Unit := .paren (.name "f" ⟨some functional, .thunk none⟩) "" " " .empty
      node.check curried = .error (.mismatch "f" curried functional) ∧ functional.text ≠ curried.text) ∧
      ∃ name expected found, ofText "i\nstack (channel i) alt" = .error (.type (.mismatch name expected found)) ∧
        found.text ≠ expected.text := by
  have hother : functional ≠ curried := by decide
  have hcheck : (Node.paren (.name "f" ⟨some functional, .thunk none⟩) "" " " .empty : BoundTree Operation Reading Unit).check
      curried = .error (.mismatch "f" curried functional) := rfl
  have hread : ofText "i\nstack (channel i) alt" = .error (.type (.mismatch "i" .number .transformer)) :=
    eq_error_of_failureOf (by decide +kernel)
  exact ⟨fun hsame => hother ((type_texts_unambiguous.1 _ _).mp hsame),
    ⟨hcheck, type_texts_unambiguous.2.1 _ _ _ _ _ hcheck⟩,
    _, _, _, hread, type_texts_unambiguous.2.2 _ _ _ _ hread⟩

end Program

end Cadence
