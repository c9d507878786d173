import Mathlib

/-! Sequences that are cut at a stop: the records before each stop, and what is left behind the last one. -/

namespace TsEpistle.Library.Records

open List

variable {α : Type} [DecidableEq α] (stop : α)

/-- The records that are complete and the rest, when `record` stands before the sequence. -/
def split : List α → List α → List (List α) × List α
  | record, [] => ([], record)
  | record, a :: l =>
    if a = stop then (record :: (split [] l).1, (split [] l).2) else split (record ++ [a]) l

variable {stop}

theorem split_stop (record l : List α) :
    split stop record (stop :: l) = (record :: (split stop [] l).1, (split stop [] l).2) := by
  rw [split, if_pos rfl]

theorem split_other {a : α} (h : a ≠ stop) (record l : List α) :
    split stop record (a :: l) = split stop (record ++ [a]) l := by
  rw [split, if_neg h]

theorem split_append (record l l' : List α) :
    split stop record (l ++ l') = ((split stop record l).1 ++ (split stop (split stop record l).2 l').1,
      (split stop (split stop record l).2 l').2) := by
  induction l generalizing record with
  | nil => rfl
  | cons a l ih =>
    rw [cons_append]
    by_cases h : a = stop
    · rw [h, split_stop, split_stop, ih]
      rfl
    · rw [split_other h, split_other h, ih]

theorem split_clean {l : List α} (h : stop ∉ l) (record l' : List α) :
    split stop record (l ++ l') = split stop (record ++ l) l' := by
  induction l generalizing record with
  | nil => rw [append_nil, nil_append]
  | cons a l ih =>
    rw [mem_cons, not_or] at h
    rw [cons_append, split_other fun hsame => h.1 hsame.symm, ih h.2, append_assoc, singleton_append]

/-- A record that is complete, or the rest, begins with what stood before. -/
theorem start_le (record l : List α) : (∃ complete ∈ (split stop record l).1, record.length ≤ complete.length) ∨
    record.length ≤ (split stop record l).2.length := by
  induction l generalizing record with
  | nil => exact .inr (Nat.le_refl _)
  | cons a l ih =>
    by_cases h : a = stop
    · rw [h, split_stop]
      exact .inl ⟨record, mem_cons_self, Nat.le_refl _⟩
    · rw [split_other h]
      have hle : record.length ≤ (record ++ [a]).length := by
        rw [length_append]
        omega
      rcases ih (record ++ [a]) with ⟨complete, hmem, hlength⟩ | hlength
      · exact .inl ⟨complete, hmem, Nat.le_trans hle hlength⟩
      · exact .inr (Nat.le_trans hle hlength)

theorem rest_clean (record l : List α) (h : stop ∉ record) : stop ∉ (split stop record l).2 := by
  induction l generalizing record with
  | nil => exact h
  | cons a l ih =>
    by_cases hstop : a = stop
    · rw [hstop, split_stop]
      exact ih [] not_mem_nil
    · rw [split_other hstop]
      refine ih _ ?_
      rw [mem_append, mem_singleton, not_or]
      exact ⟨h, fun hsame => hstop hsame.symm⟩

theorem records_clean (record l : List α) (h : stop ∉ record) :
    ∀ complete ∈ (split stop record l).1, stop ∉ complete := by
  induction l generalizing record with
  | nil => exact forall_mem_nil _
  | cons a l ih =>
    by_cases hstop : a = stop
    · rw [hstop, split_stop]
      exact forall_mem_cons.mpr ⟨h, ih [] not_mem_nil⟩
    · rw [split_other hstop]
      refine ih _ ?_
      rw [mem_append, mem_singleton, not_or]
      exact ⟨h, fun hsame => hstop hsame.symm⟩

/-- The records with their stops, and the rest, are the sequence. -/
theorem join_split (record l : List α) :
    (split stop record l).1.flatMap (· ++ [stop]) ++ (split stop record l).2 = record ++ l := by
  induction l generalizing record with
  | nil => rw [append_nil]; rfl
  | cons a l ih =>
    by_cases h : a = stop
    · rw [h, split_stop, flatMap_cons, append_assoc, ih, nil_append, append_assoc, singleton_append]
    · rw [split_other h, ih, append_assoc, singleton_append]

/-- Behind a stop nothing is left. -/
theorem split_records (records : List (List α)) : (split stop [] (records.flatMap (· ++ [stop]))).2 = [] := by
  induction records with
  | nil => rfl
  | cons record records ih =>
    rw [flatMap_cons, split_append]
    have hrest : (split stop [] (record ++ [stop])).2 = [] := by
      rw [split_append, split_stop]
      rfl
    rw [hrest]
    exact ih

end TsEpistle.Library.Records
