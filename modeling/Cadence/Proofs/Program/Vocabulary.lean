import Cadence.Program.Vocabulary
import Cadence.Proofs.Program.Meaning

/-! The vocabulary as a whole: of which kinds its terms are, what a name means in a scope, and what values
readings and functions give. -/

namespace Cadence

/-- The type of a value that is no function. -/
def Value.type {F R : Type} : Value F R → Option Ty
  | .number _ => some .number
  | .step _ => some .transformer
  | .function _ => none

namespace Reading

/-- The type of what numerals are read as. -/
def type : Reading → Ty
  | .number | .multiple _ => .number
  | .note | .slow | .fast | .add | .sub | .channel | .length | .shift => .transformer

theorem type_cases (reading : Reading) : reading.type = .number ∨ reading.type = .transformer := by
  cases reading with
  | number | multiple => exact Or.inl rfl
  | note | slow | fast | add | sub | channel | length | shift => exact Or.inr rfl

theorem type_read {F : Type} (reading : Reading) (number : Double) (scope : Scope Reading) :
    (reading.read number scope : Value F Reading).type = some reading.type := by
  cases reading <;> rfl

end Reading

namespace Vocabulary

variable {M : Type}

/-- The kinds of terms that names are bound to. -/
inductive Known : Term Operation Reading M → Prop where
  | step (step : Step) : Known (stepTerm step)
  | combinator (operation : Operation) (combines : operation ≠ .channel) : Known (combinator operation)
  | literals (reading : Reading) (steps : reading.type = .transformer) : Known (literals reading)
  | channel : Known (capturing (.func .number .transformer) .channel .number)

theorem known_of_mem_family {stem : String} {operation : Nat → Operation}
    (hcombines : ∀ power, operation power ≠ .channel) {name : String} {term : Term Operation Reading M}
    (h : (name, term) ∈ family stem operation) : Known term := by
  obtain ⟨power, -, hentry⟩ := List.mem_map.mp h
  cases hentry
  exact .combinator (operation power) (hcombines power)

theorem known_of_mem {name : String} {term : Term Operation Reading M}
    (h : (name, term) ∈ (bindings : Bindings Operation Reading M)) : Known term := by
  rw [bindings, List.mem_append, List.mem_append, List.mem_append] at h
  rcases h with ((hsingle | hheld) | hout) | hin
  · simp only [List.mem_cons, List.not_mem_nil, or_false, Prod.mk.injEq] at hsingle
    rcases hsingle with ⟨-, rfl⟩ | ⟨-, rfl⟩ | ⟨-, rfl⟩ | ⟨-, rfl⟩ | ⟨-, rfl⟩ | ⟨-, rfl⟩ | ⟨-, rfl⟩ |
      ⟨-, rfl⟩ | ⟨-, rfl⟩ | ⟨-, rfl⟩ | ⟨-, rfl⟩ | ⟨-, rfl⟩ | ⟨-, rfl⟩ | ⟨-, rfl⟩ | ⟨-, rfl⟩
    all_goals first
      | exact .step _
      | exact .combinator _ (by decide)
      | exact .literals _ rfl
      | exact .channel
  · exact known_of_mem_family (fun power => by simp) hheld
  · exact known_of_mem_family (fun power => by simp) hout
  · exact known_of_mem_family (fun power => by simp) hin

theorem mem_of_lookup {name : String} {term : Term Operation Reading M}
    (h : (bindings : Bindings Operation Reading M).lookup name = some term) :
    (name, term) ∈ (bindings : Bindings Operation Reading M) := by
  obtain ⟨before, behind, hbindings, -⟩ := List.lookup_eq_some_iff.mp h
  rw [hbindings]
  exact List.mem_append_right before List.mem_cons_self

theorem known_of_lookup {name : String} {term : Term Operation Reading M}
    (h : (bindings : Bindings Operation Reading M).lookup name = some term) : Known term :=
  known_of_mem (mem_of_lookup h)

/-- What a name means in a scope. -/
def nameMeaning (name : String) (scope : Scope Reading) : Except EvalError (Value Operation Reading) :=
  match (bindings : Bindings Operation Reading Unit).lookup name with
  | some term => (term.force (.ofScope scope ())).1
  | none => .error .unevaluated

/-- Terms of the vocabulary look at the scope, and leave everything as it is. -/
theorem Known.force_eq {term : Term Operation Reading M} (h : Known term) (context : Context Reading M) :
    term.force context = ((term.force (.ofScope context.scope context.memory)).1, context) := by
  cases h <;> rfl

theorem settled : Node.Settled nameMeaning (bindings : Bindings Operation Reading Unit) := by
  intro name term h context
  rw [(known_of_lookup h).force_eq context, nameMeaning, h]

theorem exists_steps {values : List (Value Operation Reading)}
    (h : ∀ value ∈ values, value.type = some .transformer) : ∃ steps : List Step, values = steps.map Value.step := by
  induction values with
  | nil => exact ⟨[], rfl⟩
  | cons value values ih =>
      obtain ⟨hvalue, hvalues⟩ := List.forall_mem_cons.mp h
      obtain ⟨steps, rfl⟩ := ih hvalues
      cases value with
      | step step => exact ⟨step :: steps, rfl⟩
      | number => cases hvalue
      | function => cases hvalue

theorem mapM_toStep_eq_ok {values : List (Value Operation Reading)} {steps : List Step} :
    values.mapM Value.toStep = .ok steps ↔ values = steps.map Value.step := by
  constructor
  · intro h
    induction values generalizing steps with
    | nil =>
        cases h
        rfl
    | cons value values ih =>
        rw [List.mapM_cons] at h
        obtain ⟨step, hstep, h⟩ := except_bind_eq_ok.mp h
        obtain ⟨others, hothers, hsteps⟩ := except_bind_eq_ok.mp h
        cases hsteps
        cases value with
        | step found =>
            cases hstep
            rw [ih hothers, List.map_cons]
        | number => cases hstep
        | function => cases hstep
  · rintro rfl
    induction steps with
    | nil => rfl
    | cons step steps ih =>
        rw [List.map_cons, List.mapM_cons, ih]
        rfl

section Call

variable {operation : Operation} {values : List (Value Operation Reading)} {caller after : Scope Reading}
  {value : Value Operation Reading}

theorem combine_eq_ok {build : List Step → Step} :
    Operation.combine build values caller = .ok (value, after) ↔
      ∃ steps : List Step, values = steps.map Value.step ∧ value = .step (build steps) ∧ after = caller := by
  rw [Operation.combine, except_bind_eq_ok]
  constructor
  · rintro ⟨steps, hsteps, hsame⟩
    cases hsame
    exact ⟨steps, mapM_toStep_eq_ok.mp hsteps, rfl, rfl⟩
  · rintro ⟨steps, hvalues, rfl, rfl⟩
    exact ⟨steps, mapM_toStep_eq_ok.mpr hvalues, rfl⟩

theorem call_channel_eq_ok :
    Operation.channel.call values caller = .ok (value, after) ↔
      ∃ number, values = [.number number] ∧ value = .step .identity ∧
        after = { caller with channel := Note.wrapChannel number } := by
  constructor
  · intro h
    match values with
    | [.number number] =>
        cases h
        exact ⟨number, rfl, rfl, rfl⟩
    | [] | [.step _] | [.function _] | _ :: _ :: _ => cases h
  · rintro ⟨number, rfl, rfl, rfl⟩
    rfl

end Call

end Vocabulary

/-- The step that a function makes of steps. One function makes none of them. -/
def Operation.built : Operation → List Step → Step
  | .compose => .compose
  | .stack => .stack
  | .alternate => .alternate
  | .held scale => .held scale
  | .zoomed scale => .zoomed scale
  | .channel => fun _ => .identity

namespace Vocabulary

section Call

variable {operation : Operation} {values : List (Value Operation Reading)} {caller after : Scope Reading}
  {value : Value Operation Reading}

/-- All functions but one take steps, make a step of them and leave the scope of their caller as it is. -/
theorem call_eq_ok (hcombines : operation ≠ .channel) :
    operation.call values caller = .ok (value, after) ↔
      ∃ steps : List Step, values = steps.map Value.step ∧ value = .step (operation.built steps) ∧
        after = caller := by
  cases operation with
  | channel => exact absurd rfl hcombines
  | compose | stack | alternate | held | zoomed => exact combine_eq_ok

theorem call_of_steps (hcombines : operation ≠ .channel)
    (h : ∀ value ∈ values, value.type = some .transformer) (caller : Scope Reading) :
    ∃ step, operation.call values caller = .ok (.step step, caller) := by
  obtain ⟨steps, hsteps⟩ := exists_steps h
  exact ⟨operation.built steps, (call_eq_ok hcombines).mpr ⟨steps, hsteps, rfl, rfl⟩⟩

/-- What a function gives is always a step: one that leaves all as it is, or one made of its arguments. -/
theorem step_of_call (h : operation.call values caller = .ok (value, after)) :
    value = .step .identity ∨
      ∃ steps : List Step, values = steps.map Value.step ∧ value = .step (operation.built steps) := by
  by_cases hchannel : operation = .channel
  · subst hchannel
    obtain ⟨_, -, hvalue, -⟩ := call_channel_eq_ok.mp h
    exact Or.inl hvalue
  · obtain ⟨steps, hvalues, hvalue, -⟩ := (call_eq_ok hchannel).mp h
    exact Or.inr ⟨steps, hvalues, hvalue⟩

theorem type_of_call (h : operation.call values caller = .ok (value, after)) :
    value.type = some .transformer := by
  rcases step_of_call h with rfl | ⟨steps, -, rfl⟩
  · rfl
  · rfl

/-- A call of a function that takes steps succeeds only with steps. -/
theorem types_of_call (hcombines : operation ≠ .channel)
    (h : operation.call values caller = .ok (value, after)) :
    ∀ argument ∈ values, argument.type = some .transformer := by
  obtain ⟨steps, rfl, -⟩ := (call_eq_ok hcombines).mp h
  rw [List.forall_mem_map]
  exact fun _ _ => rfl

end Call

section Do

variable {P : Type} {payload : P} {arguments : List (Node P)} {scope after : Scope Reading}
  {value : Value Operation Reading}

/-- An application of `do` leaves the scope as it is, also if it fails. -/
theorem applicationMeaning_do :
    Node.applicationMeaning dialect nameMeaning (.name "do" payload :: arguments) scope =
      ((Node.meanings dialect nameMeaning arguments scope).bind fun values =>
        (values.mapM Value.toStep).map fun steps => .step (.compose steps), scope) := by
  have hcalled : (nameMeaning "do" scope).bind Value.toFunction = .ok ⟨.compose, none⟩ := rfl
  have hscope : Function.argumentScope (⟨.compose, none⟩ : Function Operation Reading) scope = scope := rfl
  have hcall (values : List (Value Operation Reading)) :
      dialect.call .compose values scope = Operation.combine .compose values scope := rfl
  simp only [Node.applicationMeaning, Node.meaning, hcalled, hscope, hcall]
  cases Node.meanings dialect nameMeaning arguments scope with
  | error error => rfl
  | ok values =>
      simp only [Except.bind, Operation.combine]
      cases values.mapM Value.toStep <;> rfl

theorem do_eq_ok :
    Node.applicationMeaning dialect nameMeaning (.name "do" payload :: arguments) scope = (.ok value, after) ↔
      ∃ steps : List Step, Node.meanings dialect nameMeaning arguments scope = .ok (steps.map Value.step) ∧
        value = .step (.compose steps) ∧ after = scope := by
  rw [applicationMeaning_do]
  constructor
  · intro h
    obtain ⟨hvalue, rfl⟩ := Prod.mk.inj h
    obtain ⟨values, hvalues, hsteps⟩ := except_bind_eq_ok.mp hvalue
    cases hmap : values.mapM Value.toStep with
    | error error =>
        rw [hmap] at hsteps
        cases hsteps
    | ok steps =>
        rw [hmap] at hsteps
        cases hsteps
        rw [mapM_toStep_eq_ok.mp hmap] at hvalues
        exact ⟨steps, hvalues, rfl, rfl⟩
  · rintro ⟨steps, hvalues, rfl, rfl⟩
    have hmap := mapM_toStep_eq_ok.mpr (rfl : steps.map Value.step = _)
    rw [hvalues]
    simp only [Except.bind, hmap]
    rfl

end Do

end Vocabulary

end Cadence
