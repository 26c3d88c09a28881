import Cadence.Source.Lexeme
import Cadence.Tree.Grammar

/-! The lexemes of programs against the texts they stand for. Every class of texts is described without
regard to what follows; a lexeme is the longest text of its class, so it ends where the next character
cannot go on with it. -/

namespace Cadence

theorem CodeRanges.contains_iff {ranges : CodeRanges} {character : Char} :
    ranges.contains character = true ↔
      ∃ range ∈ ranges, range.1 ≤ character.toNat ∧ character.toNat ≤ range.2 := by
  rw [CodeRanges.contains, List.any_eq_true]
  simp only [Bool.and_eq_true, decide_eq_true_eq]

theorem CodeRanges.contains_eq_false_of_disjoint {ranges others : CodeRanges} {character : Char}
    (hdisjoint : ∀ range ∈ ranges, ∀ other ∈ others, range.2 < other.1 ∨ other.2 < range.1)
    (h : ranges.contains character = true) : others.contains character = false := by
  obtain ⟨range, hrange, hfirst, hlast⟩ := contains_iff.mp h
  rw [Bool.eq_false_iff]
  intro hothers
  obtain ⟨other, hother, hfirst', hlast'⟩ := contains_iff.mp hothers
  rcases hdisjoint range hrange other hother with hbelow | habove
  · omega
  · omega

theorem isDecimalDigit_of_isDigit {character : Char} (h : character.isDigit = true) :
    isDecimalDigit character = true := by
  refine CodeRanges.contains_iff.mpr ⟨(0x30, 0x39), by decide, ?_⟩
  simp only [Char.isDigit, Bool.and_eq_true, decide_eq_true_eq, UInt32.le_iff_toNat_le] at h
  exact h

theorem isAlpha_iff {character : Char} :
    character.isAlpha = true ↔ 0x41 ≤ character.toNat ∧ character.toNat ≤ 0x5A ∨
      0x61 ≤ character.toNat ∧ character.toNat ≤ 0x7A := by
  have hranges : character.isAlpha =
      (decide (0x41 ≤ character.val ∧ character.val ≤ 0x5A) ||
        (decide (0x61 ≤ character.val) && decide (character.val ≤ 0x7A))) := rfl
  rw [hranges]
  simp only [Bool.or_eq_true, Bool.and_eq_true, decide_eq_true_eq, UInt32.le_iff_toNat_le]
  exact Iff.rfl

theorem isAlpha_eq_false_of_isDigit {character : Char} (h : character.isDigit = true) :
    character.isAlpha = false := by
  rw [Bool.eq_false_iff]
  intro halpha
  simp only [Char.isDigit, Bool.and_eq_true, decide_eq_true_eq, UInt32.le_iff_toNat_le] at h
  have hhigh : character.toNat ≤ 57 := h.2
  rcases isAlpha_iff.mp halpha with hupper | hlower
  · omega
  · omega

namespace Lexeme

/-- The characters that an atom begins with, and the digits that make a numeral be refused. -/
def atomRanges : CodeRanges := [(0x28, 0x28), (0x2E, 0x2E), (0x41, 0x5A), (0x61, 0x7A)] ++ digitRanges

def startsAtom (character : Char) : Bool := atomRanges.contains character

theorem startsAtom_of_isAlpha {character : Char} (h : character.isAlpha = true) :
    startsAtom character = true := by
  rcases isAlpha_iff.mp h with hupper | hlower
  · exact CodeRanges.contains_iff.mpr ⟨(0x41, 0x5A), by decide, hupper⟩
  · exact CodeRanges.contains_iff.mpr ⟨(0x61, 0x7A), by decide, hlower⟩

theorem startsAtom_of_isDecimalDigit {character : Char} (h : isDecimalDigit character = true) :
    startsAtom character = true := by
  obtain ⟨range, hrange, hbounds⟩ := CodeRanges.contains_iff.mp h
  exact CodeRanges.contains_iff.mpr ⟨range, List.mem_append_right _ hrange, hbounds⟩

theorem startsAtom_of_isBlank {character : Char} (h : isBlank character = true) :
    startsAtom character = false :=
  CodeRanges.contains_eq_false_of_disjoint (by decide) h

/-- A text that no atom begins with. -/
def NoAtom (text : List Char) : Prop := ∀ character ∈ text.head?, startsAtom character = false

section Span

variable {condition : Char → Bool} {text tail : List Char}

theorem take_span : text.take (span condition text) = text.takeWhile condition := by
  rw [span]
  conv => lhs; arg 2; rw [← List.takeWhile_append_dropWhile (p := condition) (l := text)]
  rw [List.take_left]

theorem drop_span : text.drop (span condition text) = text.dropWhile condition := by
  rw [span]
  conv => lhs; arg 2; rw [← List.takeWhile_append_dropWhile (p := condition) (l := text)]
  rw [List.drop_left]

theorem of_mem_take_span {character : Char} (h : character ∈ text.take (span condition text)) :
    condition character = true := by
  rw [take_span] at h
  exact List.all_eq_true.mp List.all_takeWhile character h

theorem head?_drop_span {character : Char} (h : character ∈ (text.drop (span condition text)).head?) :
    condition character = false := by
  have hnot := List.head?_dropWhile_not condition text
  rw [drop_span] at h
  rw [Option.mem_def.mp h] at hnot
  simpa using hnot

theorem span_append (hinside : ∀ character ∈ text, condition character = true)
    (hend : ∀ character ∈ tail.head?, condition character = false) :
    span condition (text ++ tail) = text.length := by
  have hstop : tail.takeWhile condition = [] := by
    cases tail with
    | nil => rfl
    | cons character rest =>
        rw [List.takeWhile_cons_of_neg]
        simp [hend character rfl]
  rw [span, List.takeWhile_append_of_pos hinside, hstop, List.append_nil]

theorem span_eq_zero (hend : ∀ character ∈ text.head?, condition character = false) :
    span condition text = 0 := by
  have hnone : ∀ character ∈ ([] : List Char), condition character = true := by simp
  exact span_append hnone hend

end Span

/-- A letter, then letters and digits. -/
def IsName (text : List Char) : Prop :=
  ∃ first rest, text = first :: rest ∧ first.isAlpha = true ∧ ∀ character ∈ rest, character.isAlphanum = true

theorem isName_of_name {text : List Char} {count : Nat} (h : name text = some count) :
    IsName (text.take count) ∧ ∀ character ∈ (text.drop count).head?, character.isAlphanum = false := by
  cases text with
  | nil => simp [name] at h
  | cons first rest =>
      rw [name] at h
      split at h
      case isTrue hfirst =>
        cases h
        rw [Nat.add_comm, List.take_succ_cons, List.drop_succ_cons]
        exact ⟨⟨first, _, rfl, hfirst, fun _ => of_mem_take_span⟩, fun _ => head?_drop_span⟩
      case isFalse => cases h

theorem name_of_isName {text tail : List Char} (h : IsName text)
    (hend : ∀ character ∈ tail.head?, character.isAlphanum = false) :
    name (text ++ tail) = some text.length := by
  obtain ⟨first, rest, rfl, hfirst, hrest⟩ := h
  rw [List.cons_append, name, if_pos hfirst, span_append hrest hend, List.length_cons, Nat.add_comm]

theorem name_eq_none {text : List Char} (h : ∀ character ∈ text.head?, character.isAlpha = false) :
    name text = none := by
  cases text with
  | nil => rfl
  | cons first rest => rw [name, h first rfl, if_neg Bool.false_ne_true]

/-! ### Numerals -/

/-- Digits with at most one point among them, and the decimal that they denote. -/
inductive Denotes : List Char → Decimal → Prop where
  | whole {digits : List Char} (nonempty : digits ≠ []) (digit : ∀ character ∈ digits, character.isDigit = true) :
      Denotes digits ⟨Nat.ofDigitChars 10 digits 0, 0⟩
  | pointed {whole fraction : List Char} (nonempty : whole ≠ [] ∨ fraction ≠ [])
      (digit : ∀ character ∈ whole ++ fraction, character.isDigit = true) :
      Denotes (whole ++ '.' :: fraction)
        ⟨Nat.ofDigitChars 10 (whole ++ fraction) 0, -fraction.length⟩

/-- Whether a numeral that begins with these digits would take the next character too. -/
def goesOn (digits : List Char) (character : Char) : Bool :=
  isDecimalDigit character || (character == '.' && digits.all Char.isDigit)

/-- The two ways in which a text begins with a numeral: with a run of digits that no point follows, or
with a point that has digits on at least one side. -/
theorem number_cases {text : List Char} {count : Nat} (h : number text = some count) :
    (text.take count = text.takeWhile isDecimalDigit ∧ text.take count ≠ [] ∧
      ∀ character ∈ (text.drop count).head?, isDecimalDigit character = false ∧ character ≠ '.') ∨
    ∃ fraction, text.take count = text.takeWhile isDecimalDigit ++ '.' :: fraction ∧
      (text.takeWhile isDecimalDigit ≠ [] ∨ fraction ≠ []) ∧
      (∀ character ∈ fraction, isDecimalDigit character = true) ∧
      ∀ character ∈ (text.drop count).head?, isDecimalDigit character = false := by
  simp only [number] at h
  split at h
  case h_1 rest hpoint =>
    split at h
    case isTrue => cases h
    case isFalse hsome =>
      cases h
      have htext : text = text.takeWhile isDecimalDigit ++ '.' :: rest := by
        rw [← hpoint, drop_span, List.takeWhile_append_dropWhile]
      have htake : text.take (span isDecimalDigit text + 1 + span isDecimalDigit rest) =
          text.takeWhile isDecimalDigit ++ '.' :: rest.take (span isDecimalDigit rest) := by
        rw [Nat.add_assoc, List.take_add, take_span, hpoint, Nat.add_comm 1, List.take_succ_cons]
      have hdrop : text.drop (span isDecimalDigit text + 1 + span isDecimalDigit rest) =
          rest.drop (span isDecimalDigit rest) := by
        rw [Nat.add_assoc, ← List.drop_drop, hpoint, Nat.add_comm 1, List.drop_succ_cons]
      refine Or.inr ⟨rest.take (span isDecimalDigit rest), htake, ?_, fun _ => of_mem_take_span, ?_⟩
      · have hrest : rest.take (span isDecimalDigit rest) = rest.takeWhile isDecimalDigit := take_span
        rw [hrest]
        by_cases hwhole : span isDecimalDigit text = 0
        · have hfraction : span isDecimalDigit rest ≠ 0 := fun hzero => hsome ⟨hwhole, hzero⟩
          exact Or.inr (fun hnil => hfraction (congrArg List.length hnil))
        · exact Or.inl (fun hnil => hwhole (congrArg List.length hnil))
      · rw [hdrop]
        exact fun _ => head?_drop_span
  case h_2 hpoint =>
    rw [nonempty] at h
    split at h
    case isTrue => cases h
    case isFalse hcount =>
      cases h
      refine Or.inl ⟨take_span, ?_, fun character hhead => ⟨head?_drop_span hhead, ?_⟩⟩
      · rw [take_span]
        exact fun hnil => hcount (congrArg List.length hnil)
      · rintro rfl
        obtain ⟨rest, hrest⟩ := List.head?_eq_some_iff.mp (Option.mem_def.mp hhead)
        exact hpoint rest hrest

theorem ne_point_of_isDecimalDigit {character : Char} (h : isDecimalDigit character = true) :
    (character != '.') = true := by
  rw [bne_iff_ne]
  rintro rfl
  exact absurd h (by decide)

theorem decimal?_whole {digits : List Char} (h : ∀ character ∈ digits, isDecimalDigit character = true) :
    Grammar.decimal? digits =
      if digits.all Char.isDigit then some ⟨Nat.ofDigitChars 10 digits 0, 0⟩ else none := by
  have hwhole : digits.takeWhile (· != '.') = digits := by
    have happend : (digits ++ []).takeWhile (· != '.') = digits ++ List.takeWhile (· != '.') [] :=
      List.takeWhile_append_of_pos fun character hmem => ne_point_of_isDecimalDigit (h character hmem)
    simpa using happend
  rw [Grammar.decimal?, hwhole, List.drop_length, List.drop_nil, List.append_nil]
  rfl

theorem decimal?_pointed {whole fraction : List Char}
    (h : ∀ character ∈ whole, isDecimalDigit character = true) :
    Grammar.decimal? (whole ++ '.' :: fraction) =
      if (whole ++ fraction).all Char.isDigit then
        some ⟨Nat.ofDigitChars 10 (whole ++ fraction) 0, -fraction.length⟩
      else none := by
  have hwhole : (whole ++ '.' :: fraction).takeWhile (· != '.') = whole := by
    rw [List.takeWhile_append_of_pos fun character hmem => ne_point_of_isDecimalDigit (h character hmem),
      List.takeWhile_cons_of_neg (by simp), List.append_nil]
  rw [Grammar.decimal?, hwhole, List.drop_left, List.drop_succ_cons, List.drop_zero]

/-- A numeral that is read denotes its value, and takes all characters that it can. -/
theorem denotes_of_number {text : List Char} {count : Nat} {decimal : Decimal}
    (h : number text = some count) (hdecimal : Grammar.decimal? (text.take count) = some decimal) :
    Denotes (text.take count) decimal ∧
      ∀ character ∈ (text.drop count).head?, goesOn (text.take count) character = false := by
  have hdigits : ∀ character ∈ text.takeWhile isDecimalDigit, isDecimalDigit character = true :=
    fun character => List.all_eq_true.mp List.all_takeWhile character
  rcases number_cases h with ⟨htake, hnonempty, hend⟩ | ⟨fraction, htake, hnonempty, hfraction, hend⟩
  · rw [htake] at hnonempty hdecimal ⊢
    rw [decimal?_whole hdigits] at hdecimal
    split at hdecimal
    case isTrue hall =>
      cases hdecimal
      refine ⟨.whole hnonempty (List.all_eq_true.mp hall), fun character hhead => ?_⟩
      obtain ⟨hdigit, hpoint⟩ := hend character hhead
      simp [goesOn, hdigit, hpoint]
    case isFalse => cases hdecimal
  · rw [htake] at hdecimal ⊢
    rw [decimal?_pointed hdigits] at hdecimal
    split at hdecimal
    case isTrue hall =>
      cases hdecimal
      refine ⟨.pointed hnonempty (List.all_eq_true.mp hall), fun character hhead => ?_⟩
      have hpoint : ('.' : Char).isDigit = false := by decide
      simp [goesOn, hend character hhead, hpoint]
    case isFalse => cases hdecimal

theorem number_of_denotes {digits tail : List Char} {decimal : Decimal} (h : Denotes digits decimal)
    (hend : ∀ character ∈ tail.head?, goesOn digits character = false) :
    number (digits ++ tail) = some digits.length := by
  have hdigit : ∀ character ∈ tail.head?, isDecimalDigit character = false := by
    intro character hhead
    have hends := hend character hhead
    rw [goesOn, Bool.or_eq_false_iff] at hends
    exact hends.1
  cases h with
  | whole hnonempty hdigits =>
      have hwhole : span isDecimalDigit (digits ++ tail) = digits.length :=
        span_append (fun character hmem => isDecimalDigit_of_isDigit (hdigits character hmem)) hdigit
      simp only [number, hwhole, List.drop_left]
      split
      case h_1 rest =>
        have hpoint := hend '.' rfl
        simp [goesOn, List.all_eq_true.mpr hdigits] at hpoint
      case h_2 =>
        rw [nonempty, if_neg (fun hzero => hnonempty (List.length_eq_zero_iff.mp hzero))]
  | @pointed whole fraction hnonempty hdigits =>
      have hwhole : span isDecimalDigit ((whole ++ '.' :: fraction) ++ tail) = whole.length := by
        rw [List.append_assoc]
        refine span_append (fun character hmem =>
          isDecimalDigit_of_isDigit (hdigits character (List.mem_append_left _ hmem))) ?_
        rintro character hhead
        cases hhead
        decide
      have hfraction : span isDecimalDigit (fraction ++ tail) = fraction.length :=
        span_append (fun character hmem =>
          isDecimalDigit_of_isDigit (hdigits character (List.mem_append_right _ hmem))) hdigit
      have hsome : ¬(whole.length = 0 ∧ fraction.length = 0) := by
        simp only [List.length_eq_zero_iff]
        rintro ⟨rfl, rfl⟩
        simp at hnonempty
      simp only [number, hwhole]
      rw [List.append_assoc, List.drop_left, List.cons_append]
      simp only [hfraction, if_neg hsome, List.length_append, List.length_cons]
      rw [Nat.add_assoc, Nat.add_comm 1]

theorem decimal?_of_denotes {digits : List Char} {decimal : Decimal} (h : Denotes digits decimal) :
    Grammar.decimal? digits = some decimal := by
  cases h with
  | whole hnonempty hdigits =>
      rw [decimal?_whole fun character hmem => isDecimalDigit_of_isDigit (hdigits character hmem),
        if_pos (List.all_eq_true.mpr hdigits)]
  | pointed hnonempty hdigits =>
      rw [decimal?_pointed fun character hmem =>
        isDecimalDigit_of_isDigit (hdigits character (List.mem_append_left _ hmem)),
        if_pos (List.all_eq_true.mpr hdigits)]

theorem Denotes.starts {digits : List Char} {decimal : Decimal} (h : Denotes digits decimal) :
    ∃ first rest, digits = first :: rest ∧ (first.isDigit = true ∨ first = '.') := by
  cases h with
  | whole hnonempty hdigits =>
      obtain ⟨first, rest, rfl⟩ := List.exists_cons_of_ne_nil hnonempty
      exact ⟨first, rest, rfl, Or.inl (hdigits first List.mem_cons_self)⟩
  | @pointed whole fraction _ hdigits =>
      cases whole with
      | nil => exact ⟨'.', fraction, rfl, Or.inr rfl⟩
      | cons first whole =>
          exact ⟨first, whole ++ '.' :: fraction, rfl, Or.inl (hdigits first List.mem_cons_self)⟩

theorem number_eq_none {text : List Char} (h : NoAtom text) : number text = none := by
  have hwhole : span isDecimalDigit text = 0 := by
    refine span_eq_zero fun character hhead => ?_
    rw [Bool.eq_false_iff]
    intro hdigit
    have hstart := h character hhead
    rw [startsAtom_of_isDecimalDigit hdigit] at hstart
    cases hstart
  simp only [number, hwhole, List.drop_zero]
  split
  case h_1 rest =>
    exact absurd (h '.' rfl) (by decide)
  case h_2 => rfl

end Lexeme

end Cadence
