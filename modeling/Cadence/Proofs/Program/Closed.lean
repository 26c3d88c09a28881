import Cadence.Proofs.Double.Sign
import Cadence.Proofs.Program.Parts
import Cadence.Proofs.Rhythm.Transformer

/-! Programs inside of a class of transformers. If the class is closed and contains what stretches time by a
positive factor, then nothing leads out of it but the steps that single names and numerals stand for: the
functions of the vocabulary combine steps, and the factors that are built into them are powers of two. -/

namespace Cadence

namespace Step

variable {T : Type} [TimeScale T] {good : Transformer T Note → Prop}

theorem forall_mem_applyEach {steps : List Step} (h : ∀ step ∈ steps, good step.apply) :
    ∀ transformer ∈ applyEach steps, good transformer := by
  induction steps with
  | nil => simp [applyEach]
  | cons step steps ih =>
      obtain ⟨hstep, hsteps⟩ := List.forall_mem_cons.mp h
      exact List.forall_mem_cons.mpr ⟨hstep, ih hsteps⟩

variable (closed : Transformer.Closed good) {steps : List Step}

include closed

theorem good_compose (h : ∀ step ∈ steps, good step.apply) : good (compose steps).apply :=
  closed.compose (forall_mem_applyEach h)

theorem good_alternate (h : ∀ step ∈ steps, good step.apply) : good (alternate steps).apply :=
  closed.alternate (forall_mem_applyEach h)

variable {scale : Double} (hfast : good (fast scale).apply) (hslow : good (slow scale).apply)

include hfast hslow

theorem good_held (h : ∀ step ∈ steps, good step.apply) : good (held scale steps).apply := by
  have hfaster : ∀ step ∈ steps.map fun step => compose [step, fast scale], good step.apply := by
    rw [List.forall_mem_map]
    exact fun step hstep => good_compose closed (by simp [h step hstep, hfast])
  exact good_compose closed (by simp [good_alternate closed hfaster, hslow])

theorem good_zoomed (h : ∀ step ∈ steps, good step.apply) : good (zoomed scale steps).apply :=
  good_compose closed (by simp [hfast, good_alternate closed h, hslow])

end Step

/-- Whether an operation has no factor, or a positive one. -/
def Operation.Forward : Operation → Prop
  | .held scale | .zoomed scale => 0 < scale.toRat
  | .compose | .stack | .alternate | .channel => True

instance : DecidablePred Operation.Forward := fun operation =>
  match operation with
  | .held scale | .zoomed scale => inferInstanceAs (Decidable (0 < scale.toRat))
  | .compose | .stack | .alternate | .channel => .isTrue trivial

namespace Vocabulary

theorem forward_of_mem : ∀ entry ∈ (bindings : Bindings Operation Reading Unit),
    ∀ operation ∈ operationOf? entry.2, operation.Forward := by
  decide +kernel

end Vocabulary

variable {T : Type} [TimeScale T] {good : Transformer T Note → Prop}

/-- A value that does not lead out of a class: a step of the class, or a function with a positive factor if
any. -/
def Value.Within (good : Transformer T Note → Prop) (value : Value Operation Reading) : Prop :=
  match value with
  | .number _ => True
  | .step found => good found.apply
  | .function found => found.operation.Forward

/-- Whether a class contains what stretches and compresses time by positive factors. -/
def Stretches (good : Transformer T Note → Prop) : Prop :=
  ∀ factor : Double, 0 < factor.toRat → good (Step.fast factor).apply ∧ good (Step.slow factor).apply

namespace Vocabulary

section

variable (closed : Transformer.Closed good) (hstretches : Stretches good)

include closed

theorem within_of_name {name : String} {scope : Scope Reading} {value : Value Operation Reading}
    (hmute : value = .step .mute → good (Step.apply .mute)) (h : nameMeaning name scope = .ok value) :
    value.Within good := by
  rcases plain_of_name h with rfl | rfl | ⟨function, term, rfl, hentry, hoperation⟩
  · exact closed.identity
  · exact hmute rfl
  · exact forward_of_mem (name, term) hentry function.operation hoperation

include hstretches

theorem good_built {operation : Operation} (hforward : operation.Forward) {steps : List Step}
    (h : ∀ step ∈ steps, good step.apply) : good (operation.built steps).apply := by
  cases operation with
  | compose => exact Step.good_compose closed h
  | stack => exact closed.stackAll (Step.forall_mem_applyEach h)
  | alternate => exact Step.good_alternate closed h
  | held scale =>
      obtain ⟨hfast, hslow⟩ := hstretches scale hforward
      exact Step.good_held closed hfast hslow h
  | zoomed scale =>
      obtain ⟨hfast, hslow⟩ := hstretches scale hforward
      exact Step.good_zoomed closed hfast hslow h
  | channel => exact closed.identity

theorem within_of_call {operation : Operation} (hforward : operation.Forward)
    {values : List (Value Operation Reading)} (hvalues : ∀ value ∈ values, value.Within good)
    {caller after : Scope Reading} {value : Value Operation Reading}
    (h : operation.call values caller = .ok (value, after)) : value.Within good := by
  rcases step_of_call h with rfl | ⟨steps, rfl, rfl⟩
  · exact closed.identity
  · rw [List.forall_mem_map] at hvalues
    exact good_built closed hstretches hforward hvalues

end

end Vocabulary

/-- What a closed class asks of the parts of a program: what its names and numerals stand for on their own. -/
def Invariant.ofClosed (closed : Transformer.Closed good) (hstretches : Stretches good)
    (named : String → Prop) (numeral : Reading → Double → Prop) (channel : UInt8 → Prop)
    (hchannel : ∀ number, channel (Note.wrapChannel number))
    (hmute : ∀ name scope, named name → Vocabulary.nameMeaning name scope = .ok (.step .mute) →
      good (Step.apply .mute))
    (hread : ∀ reading number scope, numeral reading number → channel scope.channel →
      Value.Within good (reading.read number scope)) : Invariant where
  holds := Value.Within good
  named
  numeral
  channel
  channel_wrapChannel := hchannel
  holds_name := by
    intro name scope value hnamed h
    exact Vocabulary.within_of_name closed (fun hvalue => hmute name scope hnamed (hvalue ▸ h)) h
  holds_read hnumeral hscope := hread _ _ _ hnumeral hscope
  holds_call := fun hforward hvalues h => Vocabulary.within_of_call closed hstretches hforward hvalues h

end Cadence
