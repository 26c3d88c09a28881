import Cadence.Proofs.Source.Outcome
import Mathlib.Data.List.Induction

/-! What is remembered of failures. Reading is a trail of steps from one cursor to the next: it goes over text,
takes note of failures, opens and closes blocks, and goes back to where it was before. The failure that a cursor
holds is the latest among those that were noted furthest in the text, whether or not the attempt that failed was
given up later; and every failure stands where its offset, its line and its column say. -/

namespace Cadence

namespace ParseError

/-- Whether a failure is the latest among those of greatest offset. -/
def IsFurthest (failures : List ParseError) (error : ParseError) : Prop :=
  ∃ before behind, failures = before ++ error :: behind ∧
    (∀ other ∈ before, other.position.offset ≤ error.position.offset) ∧
    ∀ other ∈ behind, other.position.offset < error.position.offset

/-- Whether what is held of some failures is the furthest one, or nothing if there was none. -/
def Holds (known : Option ParseError) (failures : List ParseError) : Prop :=
  match known with
  | some error => IsFurthest failures error
  | none => failures = []

theorem IsFurthest.mem {failures : List ParseError} {error : ParseError} (h : IsFurthest failures error) :
    error ∈ failures := by
  obtain ⟨before, behind, rfl, -⟩ := h
  exact List.mem_append_right before List.mem_cons_self

theorem IsFurthest.le {failures : List ParseError} {error : ParseError} (h : IsFurthest failures error) :
    ∀ other ∈ failures, other.position.offset ≤ error.position.offset := by
  obtain ⟨before, behind, rfl, hbefore, hbehind⟩ := h
  refine List.forall_mem_append.mpr ⟨hbefore, List.forall_mem_cons.mpr ⟨Nat.le_refl _, ?_⟩⟩
  exact fun other hmem => Nat.le_of_lt (hbehind other hmem)

/-- The step: one more failure is noted. -/
theorem Holds.furthest {known : Option ParseError} {failures : List ParseError} (h : Holds known failures)
    (error : ParseError) : IsFurthest (failures ++ [error]) (furthest known error) := by
  have hlast : ∀ other ∈ ([] : List ParseError), other.position.offset < error.position.offset := by simp
  cases known with
  | none =>
      subst h
      exact ⟨[], [], rfl, by simp, hlast⟩
  | some known =>
      rw [ParseError.furthest]
      by_cases hfar : known.position.offset ≤ error.position.offset
      · rw [if_pos hfar]
        exact ⟨failures, [], rfl, fun other hmem => Nat.le_trans (h.le other hmem) hfar, hlast⟩
      · rw [if_neg hfar]
        obtain ⟨before, behind, rfl, hbefore, hbehind⟩ := h
        refine ⟨before, behind ++ [error], by simp, hbefore, ?_⟩
        exact List.forall_mem_append.mpr ⟨hbehind, List.forall_mem_singleton.mpr (Nat.lt_of_not_le hfar)⟩

/-- What is held of more failures is not behind. -/
theorem Holds.le_of_append {known : Option ParseError} {later : Option ParseError} {failures new : List ParseError}
    (h : Holds known failures) (hlater : Holds later (failures ++ new)) :
    ∀ error ∈ known, ∃ found ∈ later, error.position.offset ≤ found.position.offset := by
  rintro error ⟨⟩
  have hmem : error ∈ failures ++ new := List.mem_append_left new (IsFurthest.mem h)
  cases later with
  | none => exact absurd hmem (by rw [show failures ++ new = [] from hlater]; exact List.not_mem_nil)
  | some found => exact ⟨found, rfl, hlater.le error hmem⟩

end ParseError

/-- A trail of steps that began at one cursor. The list holds the failures that were noted on the way, in the
order of time; a step back to an earlier cursor takes nothing from it. -/
inductive Trail (start : Cursor) : List ParseError → Cursor → Prop where
  | start : Trail start [] start
  | advance {failures : List ParseError} {cursor : Cursor} (count : Nat) (before : Trail start failures cursor) :
      Trail start failures (cursor.advance count)
  | record {failures : List ParseError} {cursor : Cursor} (message : String)
      (before : Trail start failures cursor) :
      Trail start (failures ++ [cursor.error message]) (cursor.record message)
  | blocks {failures : List ParseError} {cursor : Cursor} (columns : List Nat)
      (before : Trail start failures cursor) :
      Trail start failures { cursor with indents := columns }
  | restore {failures earlier : List ParseError} {cursor checkpoint : Cursor}
      (before : Trail start failures cursor) (taken : Trail start earlier checkpoint) :
      Trail start failures (cursor.restore checkpoint)

namespace Trail

variable {start cursor : Cursor} {failures : List ParseError}

/-- Where nothing was held at first, the failure that is held is the furthest of the trail. -/
theorem holds (h : Trail start failures cursor) (hstart : start.furthest = none) :
    ParseError.Holds cursor.furthest failures := by
  induction h with
  | start =>
      rw [hstart]
      rfl
  | record message _ ih => exact ih.furthest _
  | advance _ _ ih => exact ih
  | blocks _ _ ih => exact ih
  | restore _ _ ih _ => exact ih

end Trail

/-- The position behind some text, counted from its start: its bytes, its line ends, and the characters behind
the last of them. -/
def Position.endOf (before : String) : Position where
  offset := before.utf8ByteSize
  line := before.toList.count '\n' + 1
  column := (before.toList.reverse.takeWhile (· != '\n')).length + 1

theorem Position.afterAll_start (before : List Char) :
    Position.start.afterAll before = .endOf (String.ofList before) := by
  induction before using List.reverseRecOn with
  | nil => rfl
  | append_singleton before character ih =>
      rw [Position.afterAll_append, ih]
      have hpush : String.ofList (before ++ [character]) = (String.ofList before).push character := by
        rw [← String.toList_inj, String.toList_push, String.toList_ofList, String.toList_ofList]
      rw [hpush]
      by_cases hline : character = '\n'
      · simp [afterAll, after, endOf, String.utf8ByteSize_push, hline]
      · simp [afterAll, after, endOf, String.utf8ByteSize_push, hline]

/-- Whether a position is one of the places of a text. -/
def Position.IsIn (position : Position) (text : List Char) : Prop :=
  ∃ before behind, text = before ++ behind ∧ position = Position.start.afterAll before

/-- Whether a cursor stands at a place of a text and has the rest of it before it. -/
def Cursor.StandsIn (cursor : Cursor) (text : List Char) : Prop :=
  ∃ before, text = before ++ cursor.rest ∧ cursor.position = Position.start.afterAll before

theorem Cursor.standsIn_ofText (text : String) (indents : List Nat) :
    (Cursor.ofText text indents).StandsIn text.toList :=
  ⟨[], rfl, rfl⟩

theorem Cursor.StandsIn.isIn {cursor : Cursor} {text : List Char} (h : cursor.StandsIn text) :
    cursor.position.IsIn text := by
  obtain ⟨before, htext, hposition⟩ := h
  exact ⟨before, cursor.rest, htext, hposition⟩

theorem Cursor.StandsIn.advance {cursor : Cursor} {text : List Char} (h : cursor.StandsIn text) (count : Nat) :
    (cursor.advance count).StandsIn text := by
  obtain ⟨before, htext, hposition⟩ := h
  refine ⟨before ++ cursor.rest.take count, ?_, ?_⟩
  · show text = _ ++ cursor.rest.drop count
    rw [List.append_assoc, List.take_append_drop, htext]
  · show cursor.position.afterAll (cursor.rest.take count) = _
    rw [hposition, Position.afterAll_append]

/-- A trail does not leave the text that it began in, and all failures on it stand in this text. -/
theorem Trail.standsIn {start cursor : Cursor} {failures : List ParseError} {text : List Char}
    (h : Trail start failures cursor) (hstart : start.StandsIn text) :
    cursor.StandsIn text ∧ ∀ error ∈ failures, error.position.IsIn text := by
  induction h with
  | start => exact ⟨hstart, by simp⟩
  | advance count _ ih => exact ⟨ih.1.advance count, ih.2⟩
  | record message _ ih =>
      exact ⟨ih.1, List.forall_mem_append.mpr ⟨ih.2, List.forall_mem_singleton.mpr ih.1.isIn⟩⟩
  | blocks _ _ ih => exact ih
  | restore _ _ ih ihTaken => exact ⟨ihTaken.1, ih.2⟩

/-- A position marks a place of a text: it is not behind the end, it lies between two characters, and its line
and its column belong to its offset. -/
structure Position.Marks (position : Position) (text : String) : Prop where
  inside : position.offset ≤ text.utf8ByteSize
  boundary : String.Pos.Raw.IsValid text ⟨position.offset⟩
  split : ∃ before behind, text = before ++ behind ∧ position = .endOf before

theorem Position.IsIn.marks {position : Position} {text : String} (h : position.IsIn text.toList) :
    position.Marks text := by
  obtain ⟨before, behind, htext, rfl⟩ := h
  have hsplit : text = String.ofList before ++ String.ofList behind := by
    rw [← String.toList_inj, String.toList_append, String.toList_ofList, String.toList_ofList, htext]
  rw [afterAll_start]
  have hvalid : String.Pos.Raw.IsValid text ⟨(endOf (String.ofList before)).offset⟩ :=
    String.Pos.Raw.isValid_iff_exists_append.mpr ⟨_, _, hsplit, rfl⟩
  exact ⟨hvalid.le_utf8ByteSize, hvalid, _, _, hsplit, rfl⟩

end Cadence
