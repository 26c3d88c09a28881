import Mathlib.Data.Int.Order.Basic
import Mathlib.Data.List.Basic
import Mathlib.Order.Lattice

/-! Stable arrangement by rank: what it is and that there is only one, and how it is made, one element and one cut at
a time. -/

namespace Cadence

variable {α : Type}

section

variable {κ : Type} [LinearOrder κ] (rank : α → κ)

theorem rank_trans (a b c : α) (h : decide (rank a ≤ rank b) = true) (h' : decide (rank b ≤ rank c) = true) :
    decide (rank a ≤ rank c) = true :=
  decide_eq_true (le_trans (of_decide_eq_true h) (of_decide_eq_true h'))

theorem rank_total (a b : α) : (decide (rank a ≤ rank b) || decide (rank b ≤ rank a)) = true := by
  rw [Bool.or_eq_true, decide_eq_true_iff, decide_eq_true_iff]
  exact le_total _ _

theorem pairwise_rank_mergeSort (l : List α) :
    (l.mergeSort fun a b => decide (rank a ≤ rank b)).Pairwise fun a b => rank a ≤ rank b :=
  (List.pairwise_mergeSort (rank_trans rank) (rank_total rank) l).imp of_decide_eq_true

/-- Sorting by rank leaves the elements of one rank in their order. -/
theorem filter_rank_mergeSort (l : List α) (value : κ) :
    (l.mergeSort fun a b => decide (rank a ≤ rank b)).filter (fun a => decide (rank a = value)) =
      l.filter fun a => decide (rank a = value) := by
  have hequal : (l.filter fun a => decide (rank a = value)).Pairwise fun a b => decide (rank a ≤ rank b) = true := by
    refine List.pairwise_of_forall_mem_list fun a ha b hb => ?_
    have hrank := of_decide_eq_true (List.mem_filter.mp ha).2
    have hrank' := of_decide_eq_true (List.mem_filter.mp hb).2
    exact decide_eq_true (hrank.trans hrank'.symm).le
  have hkept := (List.sublist_mergeSort (rank_trans rank) (rank_total rank) hequal List.filter_sublist).filter
    fun a => decide (rank a = value)
  simp only [List.filter_filter, Bool.and_self] at hkept
  exact (hkept.eq_of_length ((List.mergeSort_perm l _).symm.filter _).length_eq).symm

variable {rank}

theorem rank_head_le {a b : α} {l : List α} (h : (b :: l).Pairwise fun a b => rank a ≤ rank b) (ha : a ∈ b :: l) :
    rank b ≤ rank a := by
  rcases List.mem_cons.mp ha with rfl | ha
  · exact le_rfl
  · exact List.rel_of_pairwise_cons h ha

/-- What is arranged by rank is known from the elements of each rank and their order. -/
theorem eq_of_filter_rank {l l' : List α} (h : l.Pairwise fun a b => rank a ≤ rank b)
    (h' : l'.Pairwise fun a b => rank a ≤ rank b)
    (hfilter : ∀ c, l.filter (fun a => decide (rank a = rank c)) = l'.filter fun a => decide (rank a = rank c)) :
    l = l' := by
  induction l generalizing l' with
  | nil =>
      cases l' with
      | nil => rfl
      | cons b l' => simpa using hfilter b
  | cons a l ih =>
      cases l' with
      | nil => simpa using hfilter a
      | cons b l' =>
          have ha : a ∈ (b :: l').filter fun a' => decide (rank a' = rank a) := by
            rw [← hfilter a]
            simp
          have hb : b ∈ (a :: l).filter fun b' => decide (rank b' = rank b) := by
            rw [hfilter b]
            simp
          -- The heads have the same rank, so both lead the elements of this rank.
          have hrank : rank b = rank a :=
            le_antisymm (rank_head_le h' (List.mem_filter.mp ha).1) (rank_head_le h (List.mem_filter.mp hb).1)
          have hheads := hfilter a
          rw [List.filter_cons_of_pos (by simp), List.filter_cons_of_pos (by simp [hrank])] at hheads
          obtain ⟨rfl, -⟩ := List.cons.inj hheads
          refine congrArg _ (ih h.of_cons h'.of_cons fun c => ?_)
          have hall := hfilter c
          by_cases hc : rank a = rank c
          · rw [List.filter_cons_of_pos (by simp [hc]), List.filter_cons_of_pos (by simp [hc])] at hall
            exact (List.cons.inj hall).2
          · rw [List.filter_cons_of_neg (by simp [hc]), List.filter_cons_of_neg (by simp [hc])] at hall
            exact hall

end

/-- Whether numbered elements are those of a list, each of them once and with its number, in the order of their ranks
and, where ranks are equal, of their numbers. -/
structure Arranged (rank : α → Int) (l : List α) (numbered : List (α × Nat)) : Prop where
  complete : numbered.Perm l.zipIdx
  ordered : numbered.Pairwise fun first next =>
    rank first.1 < rank next.1 ∨ rank first.1 = rank next.1 ∧ first.2 < next.2

section Arranged

variable {rank : α → Int} {l : List α}

/-- There is one arrangement of a list at most. -/
theorem Arranged.unique {numbered other : List (α × Nat)} (h : Arranged rank l numbered) (h' : Arranged rank l other) :
    numbered = other := by
  refine List.Perm.eq_of_pairwise ?_ h.ordered h'.ordered (h.complete.trans h'.complete.symm)
  intro first next _ _ hfirst hnext
  omega

/-- Numbers grow along a numbered list. -/
theorem pairwise_zipIdx (l : List α) : l.zipIdx.Pairwise fun first next => first.2 < next.2 := by
  rw [← List.pairwise_map (f := Prod.snd) (R := (· < ·)), List.zipIdx_map_snd]
  exact List.pairwise_lt_range'

/-- Sorting by rank is the arrangement. What stands before another element without a greater rank stays before it. -/
theorem exists_arranged (rank : α → Int) (l : List α) :
    ∃ numbered, Arranged rank l numbered ∧
      l.mergeSort (fun a b => decide (rank a ≤ rank b)) = numbered.map (·.1) ∧
      ∀ first next, [first, next].Sublist l.zipIdx → rank first.1 ≤ rank next.1 →
        [first, next].Sublist numbered := by
  let le (a b : α) : Bool := decide (rank a ≤ rank b)
  have trans : ∀ a b c, List.zipIdxLE le a b = true → List.zipIdxLE le b c = true → List.zipIdxLE le a c = true :=
    List.zipIdxLE_trans (rank_trans rank)
  have total : ∀ a b, (List.zipIdxLE le a b || List.zipIdxLE le b a) = true := List.zipIdxLE_total (rank_total rank)
  have hle (first next : α × Nat) : List.zipIdxLE le first next = true ↔
      rank first.1 < rank next.1 ∨ rank first.1 = rank next.1 ∧ first.2 ≤ next.2 := by
    simp only [List.zipIdxLE, le, decide_eq_true_eq]
    split_ifs <;> simp <;> omega
  have hperm : (l.zipIdx.mergeSort (List.zipIdxLE le)).Perm l.zipIdx := List.mergeSort_perm _ _
  refine ⟨l.zipIdx.mergeSort (List.zipIdxLE le), ⟨hperm, ?_⟩, List.mergeSort_zipIdx.symm, ?_⟩
  · have hapart : (l.zipIdx.mergeSort (List.zipIdxLE le)).Pairwise fun first next => first.2 ≠ next.2 :=
      (hperm.pairwise_iff Ne.symm).mpr ((pairwise_zipIdx l).imp Nat.ne_of_lt)
    refine ((List.pairwise_mergeSort trans total l.zipIdx).and hapart).imp ?_
    intro first next h
    rw [hle] at h
    omega
  · intro first next hbefore hrank
    have hlt : first.2 < next.2 := List.rel_of_pairwise_cons ((pairwise_zipIdx l).sublist hbefore) List.mem_cons_self
    exact List.pair_sublist_mergeSort trans total ((hle first next).mpr (by omega)) hbefore

end Arranged

theorem span_append_of_neg {p : α → Bool} {others : List α} (h : ∀ b ∈ others, p b = false) (l : List α) :
    (l ++ others).takeWhile p = l.takeWhile p ∧ (l ++ others).dropWhile p = l.dropWhile p ++ others := by
  induction l with
  | nil =>
      cases others with
      | nil => exact ⟨rfl, rfl⟩
      | cons b others =>
          have hb := h b List.mem_cons_self
          exact ⟨List.takeWhile_cons_of_neg (by simp [hb]), List.dropWhile_cons_of_neg (by simp [hb])⟩
  | cons a l ih =>
      cases ha : p a with
      | false => simp [ha]
      | true => simp [ha, ih]

variable {le : α → α → Bool} (trans : ∀ a b c, le a b = true → le b c = true → le a c = true)
  (total : ∀ a b, (le a b || le b a) = true)

include trans total

/-- The first of some elements goes behind those of the others that stand strictly below it. -/
theorem mergeSort_cons_eq (a : α) (l : List α) :
    (a :: l).mergeSort le = (l.mergeSort le).takeWhile (fun b => !le a b) ++
      a :: (l.mergeSort le).dropWhile (fun b => !le a b) := by
  obtain ⟨below, above, hcons, hrest, hbelow⟩ := List.mergeSort_cons trans total a l
  have habove : ∀ b ∈ above, (!le a b) = false := by
    intro b hb
    have hsorted := List.pairwise_mergeSort trans total (a :: l)
    rw [hcons, List.pairwise_append, List.pairwise_cons] at hsorted
    rw [hsorted.2.1.1 b hb]
    rfl
  obtain ⟨htake, hdrop⟩ := span_append_of_neg habove []
  rw [List.nil_append, List.takeWhile_nil] at htake
  rw [List.nil_append, List.dropWhile_nil, List.nil_append] at hdrop
  rw [hcons, hrest, List.takeWhile_append_of_pos hbelow, List.dropWhile_append_of_pos hbelow, htake, hdrop,
    List.append_nil]

/-- Elements that stand strictly below all the others can be arranged apart from them. -/
theorem mergeSort_eq_append (below : α → Bool)
    (hbelow : ∀ a b, below a = true → below b = false → le b a = false) (l : List α) :
    l.mergeSort le = (l.filter below).mergeSort le ++ (l.filter fun a => !below a).mergeSort le := by
  induction l with
  | nil => simp
  | cons a l ih =>
      have hlow : ∀ b ∈ (l.filter below).mergeSort le, below b = true := by
        intro b hb
        exact (List.mem_filter.mp (List.mem_mergeSort.mp hb)).2
      have hhigh : ∀ b ∈ (l.filter fun a => !below a).mergeSort le, below b = false := by
        intro b hb
        simpa using (List.mem_filter.mp (List.mem_mergeSort.mp hb)).2
      rw [mergeSort_cons_eq trans total, ih]
      cases ha : below a with
      | false =>
          have hpassed : ∀ b ∈ (l.filter below).mergeSort le, (!le a b) = true := by
            intro b hb
            rw [hbelow b a (hlow b hb) ha]
            rfl
          rw [List.filter_cons_of_neg (by simp [ha]), List.filter_cons_of_pos (by simp [ha]),
            mergeSort_cons_eq trans total a (l.filter fun a => !below a),
            List.takeWhile_append_of_pos hpassed, List.dropWhile_append_of_pos hpassed, List.append_assoc]
      | true =>
          have hkept : ∀ b ∈ (l.filter fun a => !below a).mergeSort le, (!le a b) = false := by
            intro b hb
            have hle := total a b
            rw [hbelow a b ha (hhigh b hb), Bool.or_false] at hle
            rw [hle]
            rfl
          obtain ⟨htake, hdrop⟩ := span_append_of_neg hkept ((l.filter below).mergeSort le)
          rw [List.filter_cons_of_pos (by simp [ha]), List.filter_cons_of_neg (by simp [ha]),
            mergeSort_cons_eq trans total a (l.filter below), htake, hdrop, List.append_assoc,
            List.cons_append]

end Cadence