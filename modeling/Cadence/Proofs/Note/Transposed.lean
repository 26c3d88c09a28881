import Cadence.Note.Step
import Cadence.Program.Vocabulary
import Cadence.Proofs.Double.Value
import Cadence.Proofs.Note.Range

/-! Transposition, which is arithmetic modulo 128. A pitch is wrapped after every offset; what it comes to in the end is
what wrapping the sum of all offsets once would give, whatever their signs and their order, since doubles count exactly
as far as one offset leads from a pitch. -/

namespace Cadence

/-- Up to here, on both sides of zero, a pitch and a whole number have an exact sum. -/
def greatestOffset : Nat := Nat.pow 2 52

/-- A whole number that is added to pitches or taken from them. -/
structure Offset where
  /-- Whether the number is taken from pitches. -/
  down : Bool
  number : Double
  whole : Int
  toRat_number : number.toRat = whole
  small : whole.natAbs ≤ greatestOffset

namespace Offset

/-- How programs read the numeral of an offset. -/
def reading (offset : Offset) : Reading := if offset.down then .sub else .add

/-- What is added to a pitch. -/
def change (offset : Offset) : Double := if offset.down then -offset.number else offset.number

def step (offset : Offset) : Step := .transpose offset.change

/-- The value of what is added. -/
def amount (offset : Offset) : Int := if offset.down then -offset.whole else offset.whole

/-- What is added by a sequence of offsets. -/
def total (offsets : List Offset) : Int := (offsets.map amount).sum

/-- A note after a sequence of offsets. -/
def transposeAll (offsets : List Offset) (note : Note) : Note :=
  offsets.foldl (fun note offset => note.transpose offset.change) note

theorem read_number (offset : Offset) (scope : Scope Reading) :
    offset.reading.read offset.number scope = (.step offset.step : Value Operation Reading) := by
  cases hdown : offset.down <;> simp [reading, step, change, hdown, Reading.read]

theorem toRat_change (offset : Offset) : offset.change.toRat = offset.amount := by
  cases hdown : offset.down with
  | true => simp [change, amount, hdown, Double.toRat_neg, offset.toRat_number]
  | false => simp [change, amount, hdown, offset.toRat_number]

theorem natAbs_amount_le (offset : Offset) : offset.amount.natAbs ≤ greatestOffset := by
  have hsmall := offset.small
  unfold amount
  split_ifs <;> omega

/-- One offset: the sum of a pitch and a whole number is exact, so what is wrapped is their sum. -/
theorem toNat_wrapPitch_add (offset : Offset) (pitch : UInt8) :
    ((Note.wrapPitch (.ofInt pitch.toNat + offset.change)).toNat : Int) = (pitch.toNat + offset.amount) % 128 := by
  have hoffset := offset.natAbs_amount_le
  have hpitch : pitch.toNat < 256 := pitch.toNat_lt
  have hgreatest : greatestOffset = 4503599627370496 := by decide
  have hlimit : Double.wholeLimit = 9007199254740992 := by decide
  have hwhole : ((pitch.toNat : Int)).natAbs ≤ Double.wholeLimit := by omega
  have hsum : ((pitch.toNat : Int) + offset.amount).natAbs ≤ Double.wholeLimit := by omega
  have hvalue : (Double.ofInt pitch.toNat + offset.change).toRat = ((pitch.toNat + offset.amount : Int) : Rat) :=
    Double.toRat_add_of_whole (Double.toRat_ofInt_of_le hwhole) hwhole offset.toRat_change (by omega) hsum
  rw [Note.wrapPitch, Note.toNat_wrap (by decide) (by decide), Double.truncate_of_toRat hvalue hsum]
  rfl

/-- Whether a note has a pitch from 0 to 127 or none, as all notes of programs do. -/
def Wrapped (note : Note) : Prop := ∀ pitch ∈ note.pitch, pitch < 128

theorem wrapped_transpose (note : Note) (change : Double) : Wrapped (note.transpose change) := by
  intro pitch hpitch
  obtain ⟨before, -, rfl⟩ := Option.map_eq_some_iff.mp hpitch
  exact Note.wrapPitch_lt _

/-- A note whose pitch is moved by an amount, modulo 128, and which is otherwise the same. -/
structure Moved (amount : Int) (before after : Note) : Prop where
  pitch : after.pitch.map (fun pitch => (pitch.toNat : Int)) =
    before.pitch.map fun pitch => (pitch.toNat + amount) % 128
  channel : after.channel = before.channel
  length : after.length = before.length
  mute : after.mute = before.mute

theorem moved_zero {note : Note} (h : Wrapped note) : Moved 0 note note := by
  refine ⟨Option.map_congr fun pitch hpitch => ?_, rfl, rfl, rfl⟩
  have hlt : pitch.toNat < 128 := UInt8.lt_iff_toNat_lt.mp (h pitch hpitch)
  omega

theorem moved_transpose (offset : Offset) (note : Note) : Moved offset.amount note (note.transpose offset.change) := by
  refine ⟨?_, rfl, rfl, rfl⟩
  unfold Note.transpose
  rw [Option.map_map]
  exact Option.map_congr fun pitch _ => offset.toNat_wrapPitch_add pitch

theorem Moved.trans {amount more : Int} {first second third : Note} (hfirst : Moved amount first second)
    (hsecond : Moved more second third) : Moved (amount + more) first third := by
  refine ⟨?_, hsecond.channel.trans hfirst.channel, hsecond.length.trans hfirst.length,
    hsecond.mute.trans hfirst.mute⟩
  calc third.pitch.map (fun pitch => (pitch.toNat : Int))
      = (second.pitch.map fun pitch => (pitch.toNat : Int)).map fun pitch => (pitch + more) % 128 := by
        rw [hsecond.pitch, Option.map_map]
        rfl
    _ = first.pitch.map fun pitch => (pitch.toNat + (amount + more)) % 128 := by
        rw [hfirst.pitch, Option.map_map]
        refine Option.map_congr fun pitch _ => ?_
        rw [Function.comp_apply, Int.emod_add_emod, Int.add_assoc]

/-- Notes that are moved by amounts of one remainder become the same. -/
theorem Moved.unique {amount other : Int} {before after after' : Note} (h : Moved amount before after)
    (h' : Moved other before after') (hsame : amount % 128 = other % 128) : after = after' := by
  have hinjective : Function.Injective fun pitch : UInt8 => (pitch.toNat : Int) :=
    fun _ _ heq => UInt8.toNat_inj.mp (Int.ofNat_inj.mp heq)
  have hpitch : after.pitch = after'.pitch := by
    apply Option.map_injective hinjective
    rw [h.pitch, h'.pitch]
    refine Option.map_congr fun pitch _ => ?_
    rw [Int.add_emod, hsame, ← Int.add_emod]
  have hchannel := h.channel.trans h'.channel.symm
  have hlength := h.length.trans h'.length.symm
  have hmute := h.mute.trans h'.mute.symm
  cases after
  cases after'
  cases hchannel
  cases hpitch
  cases hlength
  cases hmute
  rfl

/-- The run: wrapping after every offset is wrapping once. -/
theorem moved_transposeAll (offsets : List Offset) {note : Note} (h : offsets = [] → Wrapped note) :
    Moved (total offsets) note (transposeAll offsets note) := by
  induction offsets generalizing note with
  | nil => exact moved_zero (h rfl)
  | cons offset offsets ih => exact (moved_transpose offset note).trans (ih fun _ => wrapped_transpose note _)

theorem transposeAll_congr {offsets others : List Offset} {note : Note}
    (h : offsets = [] ∨ others = [] → Wrapped note) (hsame : total offsets % 128 = total others % 128) :
    transposeAll offsets note = transposeAll others note :=
  (moved_transposeAll offsets fun hnone => h (Or.inl hnone)).unique
    (moved_transposeAll others fun hnone => h (Or.inr hnone)) hsame

theorem transposeAll_perm {offsets others : List Offset} (h : offsets.Perm others) (note : Note) :
    transposeAll offsets note = transposeAll others note := by
  by_cases hnone : others = []
  · rw [hnone] at h ⊢
    rw [h.eq_nil]
  · apply transposeAll_congr
    · rintro (hnone' | hnone')
      · rw [hnone'] at h
        exact absurd h.symm.eq_nil hnone
      · exact absurd hnone' hnone
    · rw [total, total, (h.map amount).sum_eq]

variable {T : Type} [TimeScale T]

/-- Steps one after the other move the notes of a pattern one offset after the other. -/
theorem apply_compose_steps (offsets : List Offset) (pattern : Pattern T Note) (start stop : T) :
    (Step.compose (offsets.map step)).apply pattern start stop =
      (pattern start stop).map (Event.map (transposeAll offsets)) := by
  induction offsets generalizing pattern with
  | nil => exact (List.map_id' _).symm
  | cons offset offsets ih =>
      have hstep : (Step.compose ((offset :: offsets).map step)).apply pattern =
          (Step.compose (offsets.map step)).apply (offset.step.apply pattern) := by
        simp only [Step.apply, List.map_cons, Step.applyEach]
        rfl
      rw [hstep, ih, step, Step.apply, Pattern.map, List.map_map]
      rfl

/-- Transposition is arithmetic modulo 128. Offsets as programs read them, applied one after the other, move the pitch of
every event by their sum, in any order, and change nothing else; offsets with one remainder act alike, and what is taken
undoes what was added. -/
theorem transposition_modular :
    (∀ (offset : Offset) (scope : Scope Reading),
      offset.reading.read offset.number scope = (.step offset.step : Value Operation Reading)) ∧
    (∀ (T : Type) [TimeScale T] (offsets : List Offset) (pattern : Pattern T Note) (start stop : T),
      (Step.compose (offsets.map step)).apply pattern start stop =
        (pattern start stop).map (Event.map (transposeAll offsets))) ∧
    (∀ (T : Type) (offsets : List Offset) (event : Event T Note), (offsets = [] → Wrapped event.value) →
      Moved (total offsets) event.value (event.map (transposeAll offsets)).value ∧
        (event.map (transposeAll offsets)).start = event.start ∧
        (event.map (transposeAll offsets)).stop = event.stop) ∧
    (∀ (offsets others : List Offset) (note : Note), offsets.Perm others →
      transposeAll offsets note = transposeAll others note) ∧
    (∀ (offsets others : List Offset) (note : Note), (offsets = [] ∨ others = [] → Wrapped note) →
      total offsets % 128 = total others % 128 → transposeAll offsets note = transposeAll others note) ∧
    ∀ (up down : Offset) (note : Note), up.down = false → down.down = true → up.whole = down.whole → Wrapped note →
      transposeAll [up, down] note = note := by
  refine ⟨read_number, fun T _ => apply_compose_steps, fun T offsets event h => ⟨moved_transposeAll offsets h, rfl, rfl⟩,
    fun offsets others note h => transposeAll_perm h note, fun _ _ _ => transposeAll_congr, ?_⟩
  intro up down note hup hdown hsame hnote
  have hnothing : total [up, down] = total [] := by
    simp [total, amount, hup, hdown, hsame]
  have hsum : total [up, down] % 128 = total [] % 128 := by rw [hnothing]
  exact transposeAll_congr (fun _ => hnote) hsum

/-- An offset that is its own double. -/
def ofWhole (down : Bool) (whole : Int) (small : whole.natAbs ≤ greatestOffset) : Offset where
  down
  number := .ofInt whole
  whole
  toRat_number := Double.toRat_ofInt_of_le (Nat.le_trans small (by decide))
  small

/-- As far up as an offset may lead, down from there in two steps, of which one is negative. -/
def thereAndBack : List Offset :=
  [ofWhole false 4503599627370496 (by decide), ofWhole true 4503599627370489 (by decide), ofWhole false (-30) (by decide)]

theorem transposition_modular_thereAndBack :
    (thereAndBack = [] → Wrapped (Note.plain.withPitch 3 5)) ∧
      Moved (-23) (Note.plain.withPitch 3 5) (transposeAll thereAndBack (Note.plain.withPitch 3 5)) ∧
      (transposeAll thereAndBack (Note.plain.withPitch 3 5)).pitch = some 108 ∧
      transposeAll thereAndBack.reverse (Note.plain.withPitch 3 5) = transposeAll thereAndBack (Note.plain.withPitch 3 5) ∧
      transposeAll [ofWhole false 105 (by decide)] (Note.plain.withPitch 3 5) =
        transposeAll thereAndBack (Note.plain.withPitch 3 5) ∧
      transposeAll [ofWhole false 1000 (by decide), ofWhole true 1000 (by decide)] (Note.plain.withPitch 3 5) =
        Note.plain.withPitch 3 5 := by
  have hwrapped : Wrapped (Note.plain.withPitch 3 5) := by
    rintro _ ⟨⟩
    decide
  obtain ⟨-, -, hmoved, hperm, hcongr, hundone⟩ := transposition_modular
  refine ⟨fun _ => hwrapped, ?_, by decide +kernel, ?_, ?_, ?_⟩
  · exact (hmoved Rat thereAndBack ⟨0, 1, Note.plain.withPitch 3 5⟩ fun _ => hwrapped).1
  · exact hperm _ _ _ thereAndBack.reverse_perm
  · exact hcongr _ _ _ (fun _ => hwrapped) (by decide)
  · exact hundone _ _ _ rfl rfl rfl hwrapped

end Offset

end Cadence
