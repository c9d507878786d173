import TsEpistle.LiveNotes.Steps
import TsEpistle.Library.Scan

/-! The sweep of untouched notes: what it deletes, and which notes it gets to. -/

namespace TsEpistle.LiveNotes
open Library Checked List

variable {σ β η : Type} {doc : Document σ β η}

/-! ## One sweep -/

/-- Whether the loop deletes a candidate. -/
def Tables.sweepable (t : Tables σ η) (instant : Nat) (row : Note σ) : Bool :=
  !(t.connections.any fun c => c.noteId = row.id && decide (instant < c.expiresAt))
    && !(t.revisions.any fun r => r.noteId = row.id && decide (0 < r.revision))

variable {row : Note σ}

theorem sweepRow_ok {t t' : Tables σ η} {instant : Nat} (h : sweepRow doc instant t row = .ok t') :
    t' = t ∨ (t.sweepable instant row = true ∧ doc.text row.state = [] ∧ t' = t.delete row.id) := by
  unfold sweepRow at h
  split at h
  · cases h
    exact .inl rfl
  · rename_i hinactive
    obtain ⟨content, hcontent, h⟩ := bind_ok h
    obtain ⟨found, hfound, hcontent⟩ := bind_ok hcontent
    cases hcontent
    rw [textAndTitle_ok hfound] at h
    split at h
    · cases h
      exact .inl rfl
    · rename_i hempty
      split at h
      · cases h
        exact .inl rfl
      · rename_i hunedited
        cases h
        refine .inr ⟨?_, by simpa using hempty, rfl⟩
        simp only [Tables.sweepable, Bool.and_eq_true, Bool.not_eq_true']
        exact ⟨by simpa using hinactive, by simpa using hunedited⟩

theorem sweepRow_eq {t : Tables σ η} {instant : Nat} (hstate : row.state = doc.empty) :
    sweepRow doc instant t row = .ok (if t.sweepable instant row then t.delete row.id else t) := by
  have hcontent : stateContent doc row.state = .ok [] := by
    rw [hstate, stateContent, textAndTitle, doc.text_empty]
    rfl
  unfold sweepRow Tables.sweepable
  split
  · rename_i hactive
    simp [hactive]
  · rename_i hinactive
    rw [hcontent]
    simp only [hinactive, bind, Except.bind, ne_eq, not_true_eq_false, if_false]
    split
    · rename_i hrevised
      simp [hrevised, pure, Except.pure]
    · rename_i hnew
      simp [hnew, pure, Except.pure]

/-- What concerns the note is left alone by the deletion of another one. -/
theorem sweepable_delete {t : Tables σ η} {instant : Nat} {id : Nat} (hne : row.id ≠ id) :
    (t.delete id).sweepable instant row = t.sweepable instant row := by
  have hconnections : ∀ c : Connection, (c.noteId ≠ id ∧ c.noteId = row.id ∧ instant < c.expiresAt)
      ↔ (c.noteId = row.id ∧ instant < c.expiresAt) := by
    intro c
    constructor
    · exact fun h => h.2
    · exact fun h => ⟨h.1 ▸ hne, h⟩
  have hrevisions : ∀ r : Revision σ, (r.noteId ≠ id ∧ r.noteId = row.id ∧ 0 < r.revision)
      ↔ (r.noteId = row.id ∧ 0 < r.revision) := by
    intro r
    constructor
    · exact fun h => h.2
    · exact fun h => ⟨h.1 ▸ hne, h⟩
  simp only [Tables.sweepable, Tables.delete, any_filter]
  refine congrArg₂ (fun a b => !a && !b) (congrArg _ (funext fun c => ?_))
    (congrArg _ (funext fun r => ?_))
  · rw [Bool.eq_iff_iff]
    simpa using hconnections c
  · rw [Bool.eq_iff_iff]
    simpa using hrevisions r

/-- The loop deletes exactly the candidates that are sweepable at its start. -/
theorem foldlM_sweepRow {rows : List (Note σ)} {instant : Nat} (hids : (rows.map Note.id).Nodup)
    (hstates : ∀ row ∈ rows, row.state = doc.empty) (t : Tables σ η) : ∃ t',
    rows.foldlM (sweepRow doc instant) t = .ok t' ∧
    t'.notes = t.notes.filter fun note => !(rows.any fun row => row.id = note.id && t.sweepable instant row) := by
  induction rows generalizing t with
  | nil => exact ⟨t, rfl, by simp⟩
  | cons row rows ih =>
    rw [map_cons, nodup_cons] at hids
    have hne : ∀ other ∈ rows, other.id ≠ row.id := fun other hother heq =>
      hids.1 (mem_map.mpr ⟨other, hother, heq⟩)
    rw [foldlM_cons, sweepRow_eq (hstates row (by simp))]
    have hrest := fun t => ih hids.2 (fun other hother => hstates other (by simp [hother])) t
    cases hsweepable : t.sweepable instant row with
    | false =>
      obtain ⟨t', hfold, hnotes⟩ := hrest t
      refine ⟨t', hfold, ?_⟩
      rw [hnotes]
      simp [hsweepable]
    | true =>
      obtain ⟨t', hfold, hnotes⟩ := hrest (t.delete row.id)
      refine ⟨t', hfold, ?_⟩
      rw [hnotes]
      simp only [Tables.delete, filter_filter]
      refine filter_congr fun note _ => ?_
      have hany : (rows.any fun other =>
            other.id = note.id && (t.delete row.id).sweepable instant other)
          = rows.any fun other => other.id = note.id && t.sweepable instant other := by
        rw [Bool.eq_iff_iff, any_eq_true, any_eq_true]
        refine exists_congr fun other => and_congr_right fun hother => ?_
        rw [sweepable_delete (hne other hother)]
      change ((!(rows.any fun other =>
        other.id = note.id && (t.delete row.id).sweepable instant other)) && _) = _
      rw [hany, any_cons, hsweepable]
      by_cases hid : note.id = row.id
      · simp [hid]
      · have hid' : row.id ≠ note.id := fun h => hid h.symm
        simp [hid, hid']

/-! ## The scan -/

instance : Std.Total (Before (σ := σ)) where
  total a b := by
    unfold Before
    omega

instance : IsTrans (Note σ) Before where
  trans a b c hab hbc := by
    unfold Before at hab hbc ⊢
    omega

instance : Std.Refl (Before (σ := σ)) where
  refl a := by
    unfold Before
    omega

theorem mem_candidates {t : Tables σ η} {instant : Nat} {locked : List Nat}
    (h : row ∈ candidates t instant locked) : row ∈ t.notes ∧ untouched instant row = true := by
  have hmem := (mem_insertionSort _).mp (mem_of_mem_take h)
  have hcondition := (mem_filter.mp hmem).2
  rw [Bool.and_eq_true] at hcondition
  exact ⟨(mem_filter.mp hmem).1, hcondition.1⟩

theorem candidates_nodup {t : Tables σ η} (hids : (t.notes.map Note.id).Nodup) (instant : Nat)
    (locked : List Nat) : ((candidates t instant locked).map Note.id).Nodup := by
  have hfilter : ((t.notes.filter fun row =>
      untouched instant row && !locked.contains row.id).map Note.id).Nodup :=
    hids.sublist (filter_sublist.map _)
  have hsorted := ((perm_insertionSort Before (t.notes.filter fun row =>
    untouched instant row && !locked.contains row.id)).map Note.id).nodup_iff.mpr hfilter
  exact hsorted.sublist ((take_sublist _ _).map _)

theorem untouched_iff {instant : Nat} : untouched instant row = true
    ↔ row.everEdited = false ∧ row.deletedAt = none ∧ row.touchedAt + DAY_MS < instant := by
  simp [untouched, and_assoc]

section
variable [SemilatticeSup σ] {s : State σ β η}

theorem sweepUntouched_notes (hs : Sound doc s) (instant : Nat) (locked : List Nat) :
    ∃ t', sweepUntouched doc s.tables instant locked = .ok t'
      ∧ t'.notes = s.tables.notes.filter fun note =>
          !((candidates s.tables instant locked).any fun row =>
            row.id = note.id && s.tables.sweepable instant row) := by
  have hstates : ∀ row ∈ candidates s.tables instant locked, row.state = doc.empty := by
    intro row hrow
    obtain ⟨hmem, huntouched⟩ := mem_candidates hrow
    exact (hs.notes row hmem).unedited (untouched_iff.mp huntouched).1
  obtain ⟨t', hfold, hnotes⟩ := foldlM_sweepRow (candidates_nodup hs.ids instant locked) hstates s.tables
  refine ⟨{ t' with connections := t'.connections.filter fun c =>
    !((expiredConnections t' instant).map (·.id)).contains c.id }, ?_, hnotes⟩
  unfold sweepUntouched
  rw [hfold]
  rfl

theorem sweepUntouched_sound {t' : Tables σ η} {instant : Nat} {locked : List Nat} (hs : Sound doc s)
    (h : sweepUntouched doc s.tables instant locked = .ok t') : Sound doc { s with tables := t' } := by
  obtain ⟨t, hfold, h⟩ := bind_ok h
  cases h
  have hsound : Sound doc { s with tables := t } := by
    refine foldlM_ok (I := fun t => Sound doc { s with tables := t }) hfold hs ?_
    intro row _ t t' hrow ht
    rcases sweepRow_ok hrow with rfl | ⟨-, -, rfl⟩
    · exact ht
    · exact ht.delete row.id
  exact hsound.connections fun c hc => (mem_filter.mp hc).1

/-- A note that a sweep deletes. -/
theorem swept {t' : Tables σ η} {instant : Nat} {locked : List Nat} (hs : Sound doc s)
    (h : sweepUntouched doc s.tables instant locked = .ok t') (hrow : row ∈ s.tables.notes) (hgone : row ∉ t'.notes) :
    row ∈ candidates s.tables instant locked ∧ s.tables.sweepable instant row = true := by
  obtain ⟨t'', hok, hnotes⟩ := sweepUntouched_notes hs instant locked
  rw [h] at hok
  cases hok
  rw [hnotes] at hgone
  have hany : (candidates s.tables instant locked).any (fun other =>
      other.id = row.id && s.tables.sweepable instant other) = true := by
    by_contra hnone
    exact hgone (mem_filter.mpr ⟨hrow, by simpa using hnone⟩)
  obtain ⟨other, hother, hboth⟩ := any_eq_true.mp hany
  rw [Bool.and_eq_true, decide_eq_true_eq] at hboth
  have hsame : other = row := inj_on_of_nodup_map hs.ids (mem_candidates hother).1 hrow hboth.1
  exact ⟨hsame ▸ hother, hsame ▸ hboth.2⟩

/-- A note that is left over a day without a touch has no lease in force. -/
theorem sweepable_of_untouched {instant : Nat} (hs : Sound doc s) (hrow : row ∈ s.tables.notes)
    (huntouched : untouched instant row = true) (hrevision : row.revision = 0) :
    s.tables.sweepable instant row = true := by
  have hsound := hs.notes row hrow
  have htouched := (untouched_iff.mp huntouched).2.2
  simp only [Tables.sweepable, Bool.and_eq_true, Bool.not_eq_true', any_eq_false,
    Bool.and_eq_true, decide_eq_true_eq, not_and]
  constructor
  · intro connection hconnection hnote
    have := hsound.leased connection hconnection hnote
    simp only [DAY_MS, LEASE_MS] at htouched this
    omega
  · intro revision hmem hnote
    have := hsound.recorded.upTo revision hmem hnote
    omega

theorem not_sweepable_of_revised {instant : Nat} (hs : Sound doc s) (hrow : row ∈ s.tables.notes)
    (hrevision : 0 < row.revision) : s.tables.sweepable instant row = false := by
  obtain ⟨revision, hmem, hnote, hnumber⟩ := (hs.notes row hrow).recorded.all _ (Nat.le_refl _)
  have hrevised : s.tables.revisions.any (fun r => r.noteId = row.id && decide (0 < r.revision))
      = true := by
    refine any_eq_true.mpr ⟨revision, hmem, ?_⟩
    simp only [hnote, hnumber, hrevision, decide_true, Bool.and_self]
  simp [Tables.sweepable, hrevised]

end

/-! ## Sweeps until a note is reached -/

/-- Not deleted and never edited, and not after `note` in the order of the scan. -/
def Note.ahead (note row : Note σ) : Bool :=
  !row.everEdited && row.deletedAt.isNone && decide (Before row note)

/-- The rows before `note` that no sweep deletes, since a revision followed the first one. -/
def blockers (t : Tables σ η) (note : Note σ) : List (Note σ) :=
  t.notes.filter fun row => note.ahead row && decide (0 < row.revision)

/-- The rows up to `note` that sweeps delete. -/
def waiting (t : Tables σ η) (note : Note σ) : List (Note σ) :=
  t.notes.filter fun row => note.ahead row && decide (row.revision = 0)

theorem ahead_iff {note row : Note σ} : note.ahead row = true
    ↔ row.everEdited = false ∧ row.deletedAt = none ∧ Before row note := by
  simp [Note.ahead, and_assoc]

theorem ahead_untouched {note row : Note σ} {instant : Nat} (h : note.ahead row = true)
    (hnote : note.touchedAt + DAY_MS < instant) : untouched instant row = true := by
  obtain ⟨hedited, hdeleted, hbefore⟩ := ahead_iff.mp h
  refine untouched_iff.mpr ⟨hedited, hdeleted, ?_⟩
  unfold Before at hbefore
  omega

section
variable [SemilatticeSup σ] {s : State σ β η} {note : Note σ} {instant : Nat}
  {t' : Tables σ η}

/-- With fewer than 100 blockers a sweep deletes the note, or one that was waiting before it. -/
theorem sweep_progress (hs : Sound doc s) (h : sweepUntouched doc s.tables instant [] = .ok t')
    (hnote : note ∈ s.tables.notes) (hahead : note.ahead note = true) (hrevision : note.revision = 0)
    (hinstant : note.touchedAt + DAY_MS < instant) (hblockers : (blockers s.tables note).length < SWEEP_LIMIT) :
    note ∉ t'.notes ∨ (waiting t' note).length < (waiting s.tables note).length := by
  obtain ⟨t'', hok, hnotes⟩ := sweepUntouched_notes hs instant []
  rw [h] at hok
  cases hok
  have hdeleted : ∀ row ∈ candidates s.tables instant [], row.revision = 0 → row ∉ t'.notes := by
    intro row hrow hrow0 hmem
    rw [hnotes] at hmem
    obtain ⟨hin, huntouched⟩ := mem_candidates hrow
    have hnone := (mem_filter.mp hmem).2
    have hany : (candidates s.tables instant []).any (fun other =>
        other.id = row.id && s.tables.sweepable instant other) = true :=
      any_eq_true.mpr ⟨row, hrow, by
        simp [sweepable_of_untouched hs hin huntouched hrow0]⟩
    rw [hany] at hnone
    cases hnone
  have hsublist : t'.notes.Sublist s.tables.notes := hnotes ▸ filter_sublist
  have hscanned : note ∈ (s.tables.notes.filter fun row =>
      untouched instant row && !([] : List Nat).contains row.id).insertionSort Before :=
    (mem_insertionSort _).mpr (mem_filter.mpr ⟨hnote, by simp [ahead_untouched hahead hinstant]⟩)
  rcases Scan.mem_take_or_before Before (pairwise_insertionSort Before _) hscanned
    SWEEP_LIMIT with hreached | ⟨hfull, hbefore⟩
  · exact .inl (hdeleted note hreached hrevision)
  · -- the 100 candidates are all before the note, so one of them is no blocker
    have hcandidate : ∃ row ∈ candidates s.tables instant [], row.revision = 0 := by
      by_contra hnone
      have hsubset : candidates s.tables instant [] ⊆ blockers s.tables note := by
        intro row hrow
        obtain ⟨hin, huntouched⟩ := mem_candidates hrow
        obtain ⟨hedited, hlive, -⟩ := untouched_iff.mp huntouched
        refine mem_filter.mpr ⟨hin, ?_⟩
        rw [Bool.and_eq_true, decide_eq_true_eq]
        refine ⟨ahead_iff.mpr ⟨hedited, hlive, hbefore row hrow⟩, ?_⟩
        exact Nat.pos_of_ne_zero fun h0 => hnone ⟨row, hrow, h0⟩
      have hnodup := (candidates_nodup hs.ids instant []).of_map
      have hle := (Nodup.subperm hnodup hsubset).length_le
      have hlength : (candidates s.tables instant []).length = SWEEP_LIMIT := hfull
      omega
    obtain ⟨row, hrow, hrow0⟩ := hcandidate
    obtain ⟨hin, huntouched⟩ := mem_candidates hrow
    obtain ⟨hedited, hlive, -⟩ := untouched_iff.mp huntouched
    right
    have hsub : (waiting t' note).Sublist (waiting s.tables note) := hsublist.filter _
    refine Nat.lt_of_le_of_ne hsub.length_le fun heq => ?_
    have hsame := hsub.eq_of_length heq
    have hwaiting : row ∈ waiting s.tables note := by
      refine mem_filter.mpr ⟨hin, ?_⟩
      rw [Bool.and_eq_true, decide_eq_true_eq]
      exact ⟨ahead_iff.mpr ⟨hedited, hlive, hbefore row hrow⟩, hrow0⟩
    rw [← hsame] at hwaiting
    exact hdeleted row hrow hrow0 (mem_filter.mp hwaiting).1

/-- With 100 blockers a sweep does not reach the note, and deletes none of them. -/
theorem sweep_blocked (hs : Sound doc s) (h : sweepUntouched doc s.tables instant [] = .ok t')
    (hnote : note ∈ s.tables.notes) (hrevision : note.revision = 0) (hinstant : note.touchedAt + DAY_MS < instant)
    (hblockers : SWEEP_LIMIT ≤ (blockers s.tables note).length) : note ∈ t'.notes ∧
    (blockers s.tables note).length ≤ (blockers t' note).length := by
  constructor
  · by_contra hgone
    have hcandidate := (swept hs h hnote hgone).1
    refine Scan.not_mem_take Before (pairwise_insertionSort Before _) (fun row hrow => ?_)
      (hs.ids.of_map.sublist filter_sublist) (fun row hrow hnot => ?_) hblockers hcandidate
    · obtain ⟨hin, hboth⟩ := mem_filter.mp hrow
      rw [Bool.and_eq_true] at hboth
      exact (mem_insertionSort _).mpr (mem_filter.mpr ⟨hin, by simp [ahead_untouched hboth.1 hinstant]⟩)
    · obtain ⟨hin, hboth⟩ := mem_filter.mp hrow
      rw [Bool.and_eq_true, decide_eq_true_eq] at hboth
      have hbefore := (ahead_iff.mp hboth.1).2.2
      have hid : row.id = note.id := by
        unfold Before at hbefore hnot
        omega
      have hsame := inj_on_of_nodup_map hs.ids hin hnote hid
      have hpositive := hboth.2
      rw [hsame] at hpositive
      omega
  · refine (Nodup.subperm (hs.ids.of_map.sublist filter_sublist) fun row hrow => ?_).length_le
    obtain ⟨hin, hboth⟩ := mem_filter.mp hrow
    refine mem_filter.mpr ⟨?_, hboth⟩
    rw [Bool.and_eq_true, decide_eq_true_eq] at hboth
    by_contra hgone
    have hsweepable := (swept hs h hin hgone).2
    rw [not_sweepable_of_revised hs hin hboth.2] at hsweepable
    cases hsweepable

end

end TsEpistle.LiveNotes
