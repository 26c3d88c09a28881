import Cadence.Note.Basic
import Cadence.Rhythm.Pattern

/-! Steps: the transformers of note patterns that programs can name, as data. A step means the same on
every time scale. -/

namespace Cadence

inductive Step where
  | identity
  | note (key target : UInt8)
  | mute
  | transpose (offset : Double)
  | channel (target : UInt8)
  | length (fraction : Double)
  | shift (offset : Double)
  | slow (factor : Double)
  | fast (factor : Double)
  | compose (steps : List Step)
  | stack (steps : List Step)
  | alternate (steps : List Step)
  deriving Inhabited

namespace Step

open TimeScale

/-- Alternation in which each choice is held for `scale` cycles and played at its own speed. -/
def held (scale : Double) (steps : List Step) : Step :=
  .compose [.alternate (steps.map fun step => .compose [step, .fast scale]), .slow scale]

/-- Alternation every `scale` cycles: the choices act on time that is compressed by this factor, and what
they make of it is stretched again. -/
def zoomed (scale : Double) (steps : List Step) : Step :=
  .compose [.fast scale, .alternate steps, .slow scale]

section

variable {T : Type} [TimeScale T]

/-- Time is stretched by at least `1 / 128`. -/
def slowFactor (factor : Double) : T := later (ofDouble factor) (ofNat 1 / ofNat 128)

/-- Time is compressed by at most 128. -/
def fastFactor (factor : Double) : T := earlier (ofDouble factor) (ofNat 128)

mutual

/-- The transformer that a step stands for. -/
def apply : Step → Transformer T Note
  | .identity => id
  | .note key target => Pattern.map (Note.withPitch key target)
  | .mute => Pattern.map Note.muted
  | .transpose offset => Pattern.map (Note.transpose offset)
  | .channel target => Pattern.map (Note.withChannel target)
  | .length fraction => Pattern.map (Note.withLength fraction)
  | .shift offset => Pattern.shift (ofDouble offset)
  | .slow factor => Pattern.slow (slowFactor factor)
  | .fast factor => Pattern.fast (fastFactor factor)
  | .compose steps => Pattern.compose (applyEach steps)
  | .stack steps => Pattern.stackAll (applyEach steps)
  | .alternate steps => Pattern.alternate (applyEach steps)

def applyEach : List Step → List (Transformer T Note)
  | [] => []
  | step :: steps => step.apply :: applyEach steps

end

/-- The pattern that a step makes of the pulse, one plain note in every cycle. -/
def pattern (step : Step) : Pattern T Note := step.apply (Pattern.beat .plain)

end

end Step

end Cadence
