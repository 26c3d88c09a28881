import Cadence.Rhythm.TimeScale

/-! Patterns and their algebra.

A pattern says which events start in a window of time. A window holds its start but not its end, and
time is counted in cycles. A transformer is a function on patterns. -/

namespace Cadence

structure Event (T A : Type) where
  start : T
  stop : T
  value : A
  deriving DecidableEq

abbrev Pattern (T A : Type) := T → T → List (Event T A)

abbrev Transformer (T A : Type) := Pattern T A → Pattern T A

namespace Event

variable {T A B : Type}

def mapTime (change : T → T) (event : Event T A) : Event T A :=
  { event with start := change event.start, stop := change event.stop }

def map (change : A → B) (event : Event T A) : Event T B := ⟨event.start, event.stop, change event.value⟩

end Event

namespace Pattern

open TimeScale

variable {T A M : Type} [TimeScale T]

/-- Whether there is no slot at `time` and none after it: the time is not before `stop`, or undefined, or
no later than that of the slot before, as happens where a step of one slot is lost to rounding. -/
def isPast (stop : T) (previous : Option T) (time : T) : Bool :=
  le stop time || previous.any (le time) || isUndefined time

/-- The slots `slot * period + phase`, `(slot + 1) * period + phase` and so on from `start` to `stop`. -/
def slotTimes (period phase start stop : T) : (fuel : Nat) → (slot : T) → (previous : Option T) → List T
  | 0, _, _ => []
  | fuel + 1, slot, previous =>
    let time := slot * period + phase
    if isPast stop previous time then []
    else
      let others := slotTimes period phase start stop fuel (slot + ofNat 1) (some time)
      if le start time then time :: others else others

/-- Events at the times `slot * period + phase` for all whole numbers `slot`, each of the given duration;
none if the period is not positive. The division that looks for the first slot may round up, so the
search begins with the slot before. -/
def periodic (period duration phase : T) (value : A) : Pattern T A := fun start stop =>
  if le period (ofNat 0) || isUndefined period then []
  else
    let first := ceil ((start - phase) / period) - ofNat 1
    (slotTimes period phase start stop (strides start stop period) first beginning).map fun time =>
      ⟨time, time + duration, value⟩

/-- One event of one cycle in every cycle. -/
def beat (value : A) : Pattern T A := periodic (ofNat 1) (ofNat 1) (ofNat 0) value

def silence : Pattern T A := fun _ _ => []

def map (change : A → A) : Transformer T A := fun pattern start stop =>
  (pattern start stop).map (Event.map change)

def shift (offset : T) : Transformer T A := fun pattern start stop =>
  (pattern (start - offset) (stop - offset)).map (Event.mapTime (· + offset))

/-- Stretches time by a factor. -/
def slow (factor : T) : Transformer T A := fun pattern start stop =>
  (pattern (start / factor) (stop / factor)).map (Event.mapTime (· * factor))

def fast (factor : T) : Transformer T A := slow (ofNat 1 / factor)

/-- The events of all the patterns in the order of their starts. Of events that start together those of
an earlier pattern come first. -/
def stack (patterns : List (Pattern T A)) : Pattern T A := fun start stop =>
  (patterns.flatMap fun pattern => pattern start stop).mergeSort fun event other =>
    precedes event.start other.start

def stackAll (transformers : List (Transformer T A)) : Transformer T A := fun pattern =>
  stack (transformers.map (· pattern))

/-- A pattern together with its transformation. -/
def both (transformer : Transformer T A) : Transformer T A := fun pattern =>
  stack [pattern, transformer pattern]

/-- Applies the transformers in order, the first one first. -/
def compose (transformers : List (Transformer T A)) : Transformer T A := fun pattern =>
  transformers.foldl (fun pattern transformer => transformer pattern) pattern

/-- Cuts a window at the whole numbers. Where the next whole number rounds to the same time, the rest
of the window is one piece. -/
def cyclesWithin : (fuel : Nat) → (start stop : T) → List (T × T)
  | 0, _, _ => []
  | fuel + 1, start, stop =>
    if lt start stop then
      let next := earlier (floor start + ofNat 1) stop
      if le next start then [(start, stop)] else (start, next) :: cyclesWithin fuel next stop
    else []

def cycles (start stop : T) : List (T × T) := cyclesWithin (strides start stop (ofNat 1)) start stop

/-- One transformer after the other, each for one cycle: cycle `c` is transformed by number `c mod n`
of the `n` transformers. -/
def alternate (transformers : List (Transformer T A)) : Transformer T A := fun pattern start stop =>
  match transformers with
  | [] => []
  | _ :: _ =>
    (cycles start stop).flatMap fun (start, stop) =>
      let index := (cycle start % transformers.length).toNat
      (transformers.getD index id) pattern start stop

/-- A pattern as it is heard through the events of `mask`. Each of them that starts in the window opens
the pattern until it stops; one that started earlier does not, even if it lasts into the window. -/
def gateWith (mask : Pattern T M) : Transformer T A := fun pattern start stop =>
  (mask start stop).flatMap fun opening =>
    pattern (later opening.start start) (earlier opening.stop stop)

/-- Opens for one cycle, or for a whole period if that is shorter, every `period` cycles. -/
def gate (phase period : T) : Transformer T A :=
  gateWith (periodic period (earlier period (ofNat 1)) phase ())

end Pattern

end Cadence
