import TsEpistle.Discussions.Anchors

/-! What is located in a text is an occurrence of the quote that no other can be taken for. -/

namespace TsEpistle.Discussions
open Library List

/-! ## Occurrences -/

/-- The text stands at this offset. -/
def Occurs (exact text : JsString) (offset : Nat) : Prop := offset ≤ text.length ∧ exact <+: text.drop offset

theorem mem_occurrences_from {exact text : JsString} {first offset : Nat} :
    offset ∈ occurrences exact first text ↔ ∃ i, offset = first + i ∧ Occurs exact text i := by
  induction text generalizing first with
  | nil =>
    rw [occurrences]
    constructor
    · intro h
      split at h
      · rename_i hnil
        obtain rfl := mem_singleton.mp h
        exact ⟨0, rfl, le_refl 0, hnil ▸ nil_prefix⟩
      · cases h
    · rintro ⟨i, rfl, hle, hstarts⟩
      obtain rfl : i = 0 := Nat.le_zero.mp hle
      rw [if_pos (prefix_nil.mp hstarts)]
      exact mem_singleton.mpr rfl
  | cons unit text ih =>
    have hrest : offset ∈ occurrences exact (first + 1) text ↔ ∃ i, offset = first + (i + 1)
      ∧ Occurs exact text i := by
      rw [ih]
      constructor
      · rintro ⟨i, rfl, h⟩
        exact ⟨i, by omega, h⟩
      · rintro ⟨i, rfl, h⟩
        exact ⟨i, by omega, h⟩
    have hstep : ∀ i, Occurs exact (unit :: text) (i + 1) ↔ Occurs exact text i := by
      intro i
      rw [Occurs, Occurs, length_cons, Nat.add_le_add_iff_right, drop_succ_cons]
    have hzero : Occurs exact (unit :: text) 0 ↔ exact.isPrefixOf (unit :: text) = true := by
      rw [Occurs, drop_zero, isPrefixOf_iff_prefix]
      exact and_iff_right (Nat.zero_le _)
    rw [occurrences]
    constructor
    · intro h
      split at h
      · rename_i hstarts
        rcases mem_cons.mp h with rfl | h
        · exact ⟨0, rfl, hzero.mpr hstarts⟩
        · obtain ⟨i, hoffset, hi⟩ := hrest.mp h
          exact ⟨i + 1, hoffset, (hstep i).mpr hi⟩
      · obtain ⟨i, hoffset, hi⟩ := hrest.mp h
        exact ⟨i + 1, hoffset, (hstep i).mpr hi⟩
    · rintro ⟨i, rfl, hi⟩
      cases i with
      | zero =>
        rw [if_pos (hzero.mp hi)]
        exact mem_cons_self
      | succ i =>
        have hmem := hrest.mpr ⟨i, rfl, (hstep i).mp hi⟩
        split
        · exact mem_cons_of_mem _ hmem
        · exact hmem

variable {offset : Nat}

theorem mem_occurrences {exact text : JsString} : offset ∈ occurrences exact 0 text ↔ Occurs exact text offset := by
  rw [mem_occurrences_from]
  constructor
  · rintro ⟨i, rfl, h⟩
    rwa [Nat.zero_add]
  · intro h
    exact ⟨offset, (Nat.zero_add _).symm, h⟩

theorem occurrences_increasing (exact text : JsString) (first : Nat) :
    (occurrences exact first text).Pairwise (· < ·) := by
  induction text generalizing first with
  | nil =>
    rw [occurrences]
    split
    · exact pairwise_singleton _ _
    · exact .nil
  | cons unit text ih =>
    rw [occurrences]
    split
    · refine pairwise_cons.mpr ⟨fun offset hoffset => ?_, ih _⟩
      obtain ⟨i, rfl, -⟩ := mem_occurrences_from.mp hoffset
      omega
    · exact ih _

/-- An only occurrence is the only candidate. -/
theorem length_occurrences_le {exact text : JsString} (h : ∀ other, Occurs exact text other → other = offset) :
    (occurrences exact 0 text).length ≤ 1 := by
  have hincreasing := occurrences_increasing exact text 0
  have hall : ∀ other ∈ occurrences exact 0 text, other = offset :=
    fun other hother => h other (mem_occurrences.mp hother)
  match hlist : occurrences exact 0 text with
  | [] => exact Nat.zero_le _
  | [_] => exact le_refl _
  | first :: second :: rest =>
    rw [hlist] at hincreasing hall
    have hless := (pairwise_cons.mp hincreasing).1 second mem_cons_self
    have hfirst := hall first mem_cons_self
    have hsecond := hall second (mem_cons_of_mem _ mem_cons_self)
    omega

/-! ## Candidates -/

theorem narrowed_sublist (passes : Nat → Bool) (offsets : List Nat) : (narrowed passes offsets).Sublist offsets := by
  unfold narrowed
  split
  · exact Sublist.refl _
  · exact filter_sublist

theorem mem_narrowed {passes : Nat → Bool} {offsets : List Nat} (hmem : offset ∈ offsets)
    (hpasses : passes offset = true) : offset ∈ narrowed passes offsets := by
  have hfilter := mem_filter.mpr ⟨hmem, hpasses⟩
  rw [narrowed, if_neg]
  · exact hfilter
  · rw [List.isEmpty_iff]
    exact ne_nil_of_mem hfilter

/-- What is left alone of several: it passes, and no other does. -/
theorem narrowed_eq_singleton {passes : Nat → Bool} {offsets : List Nat}
    (hseveral : 1 < offsets.length) (h : narrowed passes offsets = [offset]) :
    passes offset = true ∧ ∀ other ∈ offsets, passes other = true → other = offset := by
  have hfilter : offsets.filter passes = [offset] := by
    unfold narrowed at h
    split at h
    · rw [h, length_singleton] at hseveral
      omega
    · exact h
  have hmem : ∀ other, other ∈ offsets.filter passes ↔ other = offset := by
    intro other
    rw [hfilter, mem_singleton]
  refine ⟨(mem_filter.mp ((hmem offset).mpr rfl)).2, fun other hother hpasses => ?_⟩
  exact (hmem other).mp (mem_filter.mpr ⟨hother, hpasses⟩)

section
variable {unicode : Unicode} {text exact : JsString} {anchor : DiscussionAnnotationAnchor}
  {headingAt : Nat → Option JsString}

variable (unicode text exact anchor) in
/-- The occurrence stands in the context of the anchor. -/
def Contextual (offset : Nat) : Prop :=
  inContext text exact (normalizeContext unicode anchor.before) (normalizeContext unicode anchor.after) offset = true

variable (unicode anchor headingAt) in
/-- The occurrence stands under the heading of the anchor. -/
def Headed (offset : Nat) : Prop := underHeading unicode headingAt (anchor.heading.getD []) offset = true

theorem mem_contextual {candidates : List Nat} (hmem : offset ∈ candidates)
    (hcontext : Contextual unicode text exact anchor offset) :
    offset ∈ contextual unicode text exact anchor candidates := by
  unfold contextual
  dsimp only
  split
  · exact hmem
  · exact mem_narrowed hmem hcontext

theorem contextual_subset {candidates : List Nat}
    (h : offset ∈ contextual unicode text exact anchor candidates) : offset ∈ candidates := by
  unfold contextual at h
  dsimp only at h
  split at h
  · exact h
  · exact (narrowed_sublist _ _).mem h

/-- An occurrence that passes both tests survives. -/
theorem mem_surviving (hoccurs : Occurs exact text offset) (hcontext : Contextual unicode text exact anchor offset)
    (hheading : Headed unicode anchor headingAt offset) : offset ∈ surviving unicode text exact anchor headingAt := by
  have hmem := mem_occurrences.mpr hoccurs
  unfold surviving
  dsimp only
  split
  · exact hmem
  · split
    · exact mem_contextual hmem hcontext
    · exact mem_narrowed (mem_contextual hmem hcontext) hheading

theorem surviving_subset (h : offset ∈ surviving unicode text exact anchor headingAt) :
    offset ∈ occurrences exact 0 text := by
  unfold surviving at h
  dsimp only at h
  split at h
  · exact h
  · split at h
    · exact contextual_subset h
    · exact contextual_subset ((narrowed_sublist _ _).mem h)

variable (unicode text exact anchor headingAt) in
/-- The occurrence is the only one, the only one in the context, or the only one under the heading among those that
match the context as it does. -/
def Unambiguous (offset : Nat) : Prop :=
  (∀ other, Occurs exact text other → other = offset)
    ∨ (Contextual unicode text exact anchor offset
        ∧ ∀ other, Occurs exact text other → Contextual unicode text exact anchor other → other = offset)
    ∨ Headed unicode anchor headingAt offset
        ∧ ∀ other, Occurs exact text other → Headed unicode anchor headingAt other →
          (Contextual unicode text exact anchor offset → Contextual unicode text exact anchor other) → other = offset

theorem surviving_singleton (h : surviving unicode text exact anchor headingAt = [offset]) :
    Unambiguous unicode text exact anchor headingAt offset := by
  have hoccurs := surviving_subset (h ▸ mem_singleton_self offset)
  unfold surviving at h
  dsimp only at h
  by_cases hfew : (occurrences exact 0 text).length ≤ 1
  · rw [if_pos hfew] at h
    refine .inl fun other hother => ?_
    rw [← mem_occurrences, h, mem_singleton] at hother
    exact hother
  · rw [if_neg hfew] at h
    have hseveral : 1 < (occurrences exact 0 text).length := by omega
    -- an occurrence is left by the context when it matches it as one that is left
    have hleft : ∀ other, Occurs exact text other →
        (Contextual unicode text exact anchor offset → Contextual unicode text exact anchor other) →
        offset ∈ contextual unicode text exact anchor (occurrences exact 0 text) →
        other ∈ contextual unicode text exact anchor (occurrences exact 0 text) := by
      intro other hother hcontext hmem
      unfold contextual at hmem ⊢
      dsimp only at hmem ⊢
      split
      · exact mem_occurrences.mpr hother
      · rename_i hempty
        rw [if_neg hempty] at hmem
        unfold narrowed at hmem ⊢
        split
        · exact mem_occurrences.mpr hother
        · rename_i hsome
          rw [if_neg hsome] at hmem
          exact mem_filter.mpr ⟨mem_occurrences.mpr hother, hcontext (mem_filter.mp hmem).2⟩
    split at h
    · unfold contextual at h
      dsimp only at h
      split at h
      · rw [h, length_singleton] at hseveral
        omega
      · obtain ⟨hcontext, hunique⟩ := narrowed_eq_singleton hseveral h
        exact .inr (.inl ⟨hcontext, fun other hother hpasses => hunique other (mem_occurrences.mpr hother) hpasses⟩)
    · rename_i hmany
      rw [Bool.or_eq_true, decide_eq_true_eq, not_or] at hmany
      obtain ⟨hheaded, hunique⟩ := narrowed_eq_singleton (by omega) h
      have hmem := (narrowed_sublist _ _).mem (h ▸ mem_singleton_self offset)
      exact .inr (.inr ⟨hheaded, fun other hother hpasses hcontext =>
        hunique other (hleft other hother hcontext hmem) hpasses⟩)

theorem locate_found {start stop : Nat} (h : locateDiscussionAnchor unicode text anchor headingAt = .found start stop) :
    normalizeDiscussionQuote unicode anchor.exact ≠ []
      ∧ surviving unicode text (normalizeDiscussionQuote unicode anchor.exact) anchor headingAt = [start]
      ∧ stop = start + (normalizeDiscussionQuote unicode anchor.exact).length := by
  unfold locateDiscussionAnchor at h
  dsimp only at h
  split at h
  · cases h
  · rename_i hne
    split at h
    · cases h
    · split at h
      · rename_i offset hsurviving
        injection h with hstart hstop
        exact ⟨hne, by rw [hsurviving, hstart], by rw [← hstop, hstart]⟩
      · cases h

/-- What is found is an unambiguous occurrence of the quote. -/
theorem located {start stop : Nat} (h : locateDiscussionAnchor unicode text anchor headingAt = .found start stop) :
    normalizeDiscussionQuote unicode anchor.exact ≠ []
      ∧ Occurs (normalizeDiscussionQuote unicode anchor.exact) text start
      ∧ stop = start + (normalizeDiscussionQuote unicode anchor.exact).length
      ∧ Unambiguous unicode text (normalizeDiscussionQuote unicode anchor.exact) anchor headingAt start := by
  obtain ⟨hne, hsurviving, hstop⟩ := locate_found h
  refine ⟨hne, ?_, hstop, surviving_singleton hsurviving⟩
  exact mem_occurrences.mp (surviving_subset (hsurviving ▸ mem_singleton_self start))

theorem locate_missing_iff : locateDiscussionAnchor unicode text anchor headingAt = .missing ↔
    normalizeDiscussionQuote unicode anchor.exact = [] ∨ ∀ offset,
    ¬ Occurs (normalizeDiscussionQuote unicode anchor.exact) text offset := by
  have hnone : occurrences (normalizeDiscussionQuote unicode anchor.exact) 0 text = []
      ↔ ∀ offset, ¬ Occurs (normalizeDiscussionQuote unicode anchor.exact) text offset := by
    rw [eq_nil_iff_forall_not_mem]
    exact forall_congr' fun offset => not_congr mem_occurrences
  rw [← hnone]
  unfold locateDiscussionAnchor
  dsimp only
  constructor
  · intro h
    split at h
    · exact .inl ‹_›
    · split at h
      · exact .inr ‹_›
      · split at h
        · cases h
        · cases h
  · rintro (hempty | hmissing)
    · rw [if_pos hempty]
    · split
      · rfl
      · rfl

end

end TsEpistle.Discussions
