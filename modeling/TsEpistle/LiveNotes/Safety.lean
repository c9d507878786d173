import TsEpistle.LiveNotes.Sweep

/-! Safety of the live note store. Revisions, joined updates and repeated requests are as
they should be in every run, and a sweep deletes untouched notes only. Sweeps get to an
untouched note as long as fewer than 100 others that they always skip are before it. -/

namespace TsEpistle.LiveNotes
open Library Checked List Function

variable {σ β η : Type}

/-! ## Edits -/

variable [SemilatticeSup σ] {doc : Document σ β η} {s : State σ β η}

variable {access : Authority}

theorem restore_ok {t t' : Tables σ η} {key : JsString} {target expectedRevision now : Nat} {next : Note σ} {value : σ}
    (h : restore doc t access key target expectedRevision now = .ok (t', next, value)) : ∃ row title,
    t.live key = some row ∧ save t access row (edited (row.state ⊔ value) title) now = .ok (t', next) := by
  obtain ⟨_, -, h⟩ := bind_ok h
  obtain ⟨row, hrow, h⟩ := bind_ok h
  obtain ⟨_, -, h⟩ := bind_ok h
  split at h
  · cases h
  · obtain ⟨content, -, h⟩ := bind_ok h
    obtain ⟨state, hstate, h⟩ := bind_ok h
    obtain ⟨⟨text, title⟩, -, h⟩ := bind_ok h
    dsimp only at h
    obtain ⟨⟨saved, stored⟩, hsave, h⟩ := bind_ok h
    cases h
    rw [encodeState_ok hstate] at hsave
    exact ⟨row, title, note_ok hrow, hsave⟩

/-- An edit joins its update to the state of the note. -/
theorem Sound.edit {row next : Note σ} {value : σ} {title : JsString} {t' : Tables σ η} (hs : Sound doc s)
    (hrow : row ∈ s.tables.notes)
    (h : LiveNotes.save s.tables access row (edited (row.state ⊔ value) title) s.clock = .ok (t', next)) :
    Sound doc { s with tables := t' } ∧ next ∈ t'.notes ∧ next.id = row.id ∧ value ≤ next.state ∧
    t'.requests = s.tables.requests := by
  obtain ⟨rfl, rfl⟩ := save_ok h
  refine ⟨hs.save hrow access.principalId rfl rfl le_sup_left nofun, ?_, rfl, le_sup_right, rfl⟩
  exact Table.mem_updateWhere.mpr ⟨row, hrow, by simp [Note.saved, edited]⟩

variable [DecidableEq σ]

omit [SemilatticeSup σ] in
theorem saveEdit_ok {t t' : Tables σ η} {row next : Note σ} {state : σ} {title : JsString}
    {now : Nat} (h : saveEdit t access row state title now = .ok (t', next)) :
    (state = row.state ∧ next = row ∧ t' = t.touch row now)
    ∨ save t access row (edited state title) now = .ok (t', next) := by
  unfold saveEdit at h
  split at h
  · rename_i hsame
    cases h
    exact .inl ⟨hsame, rfl, rfl⟩
  · exact .inr h

/-- The note and its requests after an `applyUpdate` that had not been made before. -/
theorem Sound.saveEdit {row next : Note σ} {value : σ} {title : JsString} {t' : Tables σ η} (hs : Sound doc s)
    (hrow : row ∈ s.tables.notes)
    (h : LiveNotes.saveEdit s.tables access row (row.state ⊔ value) title s.clock = .ok (t', next)) :
    Sound doc { s with tables := t' } ∧ (∃ row' ∈ t'.notes, row'.id = row.id ∧ value ≤ row'.state) ∧ next.id = row.id ∧
    t'.requests = s.tables.requests := by
  rcases saveEdit_ok h with ⟨hsame, rfl, rfl⟩ | hsave
  · refine ⟨hs.touch hrow, ⟨{ next with touchedAt := s.clock }, ?_, rfl, ?_⟩, rfl, rfl⟩
    · exact Table.mem_updateWhere.mpr ⟨next, hrow, by simp⟩
    · exact le_sup_right.trans hsame.le
  · obtain ⟨hsound, hmem, hid, hle, hrequests⟩ := hs.edit hrow hsave
    exact ⟨hsound, ⟨next, hmem, hid, hle⟩, hid, hrequests⟩

variable [DecidableEq η]

/-- What `applyUpdate` has found when it succeeds. -/
inductive Applied (doc : Document σ β η) (t : Tables σ η) (access : Authority)
    (requestId : JsString) (update : β) (now : Nat) (row : Note σ) (value : σ) :
    Tables σ η → Note σ → Prop
  | repeated (duplicate : Request η) (hmem : duplicate ∈ t.requests)
      (hkey : duplicate.key = (row.id, access.principalId, requestId))
      (hhash : duplicate.updateHash = doc.sha256 update) :
      Applied doc t access requestId update now row value (t.touch row now) row
  | joined (t' : Tables σ η) (next : Note σ) (title : JsString)
      (hnew : ∀ request ∈ t.requests, request.key ≠ (row.id, access.principalId, requestId))
      (hsave : saveEdit t access row (row.state ⊔ value) title now = .ok (t', next)) :
      Applied doc t access requestId update now row value
        { t' with requests := t'.requests
          ++ [⟨row.id, access.principalId, requestId, doc.sha256 update⟩] } next

theorem applyUpdate_ok {t t' : Tables σ η} {key requestId : JsString} {update : β} {now : Nat} {next : Note σ}
    {value : σ} (h : applyUpdate doc t access key requestId update now = .ok (t', next, value)) : ∃ row,
    t.live key = some row ∧ doc.decode update = some value ∧
    Applied doc t access requestId update now row value t' next := by
  obtain ⟨_, -, h⟩ := bind_ok h
  split at h
  · cases h
  · rename_i decoded hdecode
    obtain ⟨row, hrow, h⟩ := bind_ok h
    refine ⟨row, note_ok hrow, ?_⟩
    split at h
    · rename_i duplicate hduplicate
      obtain ⟨_, hhash, h⟩ := bind_ok h
      cases h
      have hfound := find?_some hduplicate
      simp only [Bool.and_eq_true, decide_eq_true_eq] at hfound
      refine ⟨hdecode, .repeated duplicate (mem_of_find?_eq_some hduplicate) ?_ ?_⟩
      · rw [Request.key, hfound.1.1, hfound.1.2, hfound.2]
      · simpa using check_ok hhash
    · rename_i hnone
      obtain ⟨state, hstate, h⟩ := bind_ok h
      obtain ⟨⟨text, title⟩, -, h⟩ := bind_ok h
      dsimp only at h
      obtain ⟨⟨saved, stored⟩, hsave, h⟩ := bind_ok h
      cases h
      rw [encodeState_ok hstate] at hsave
      refine ⟨hdecode, .joined saved stored title ?_ hsave⟩
      intro request hrequest hkey
      have hnot := find?_eq_none.mp hnone request hrequest
      simp only [Request.key, Prod.mk.injEq] at hkey
      simp [hkey.1, hkey.2.1, hkey.2.2] at hnot

theorem Sound.applyUpdate {key requestId : JsString} {update : β} {row : Note σ} {value : σ}
    {t' : Tables σ η} (hinjective : Injective doc.sha256) (hs : Sound doc s)
    (h : LiveNotes.applyUpdate doc s.tables access key requestId update s.clock = .ok (t', row, value))
    :
    Sound doc { s with
      tables := t'
      accepted := .update row.id access.principalId requestId update value :: s.accepted } := by
  obtain ⟨before, hlive, hdecode, happlied⟩ := applyUpdate_ok h
  have hbefore := (live_some hlive).1
  cases happlied with
  | repeated duplicate hmem hkey hhash =>
    obtain ⟨bytes, stored, haccepted, hbytes⟩ := hs.asked duplicate hmem
    simp only [Request.key, Prod.mk.injEq] at hkey
    obtain rfl := hinjective (hbytes.trans hhash)
    rw [hkey.1, hkey.2.1, hkey.2.2] at haccepted
    have hstored := hs.decoded _ _ _ _ _ haccepted
    rw [hdecode] at hstored
    cases hstored
    have htouched := hs.touch hbefore
    have hrow' : { row with touchedAt := s.clock } ∈ (s.tables.touch row s.clock).notes :=
      Table.mem_updateWhere.mpr ⟨row, hbefore, by simp⟩
    refine htouched.accept hrow' rfl ?_ (fun _ h => h) hs.requests (fun _ h => .inl h) ?_
    · exact (hs.notes row hbefore).joined _ haccepted rfl
    · intro noteId actorId requestId' bytes' value' heq
      cases heq
      refine ⟨?_, hdecode⟩
      have hduplicate : duplicate =
          ⟨row.id, access.principalId, requestId, doc.sha256 bytes⟩ := by
        cases duplicate
        simp_all
      exact hduplicate ▸ hmem
  | joined t next title hnew hsave =>
    obtain ⟨hsound, ⟨row', hrow', hid', hle⟩, hid, hrequests⟩ := hs.saveEdit hbefore hsave
    refine hsound.accept hrow' (hid.trans hid'.symm) hle (subset_append_left _ _) ?_ ?_ ?_
    · rw [map_append]
      refine nodup_append'.mpr ⟨hsound.requests, nodup_singleton _, ?_⟩
      intro found hold hfound
      obtain rfl := mem_singleton.mp hfound
      obtain ⟨request, hrequest, hkey⟩ := mem_map.mp hold
      exact hnew request (hrequests ▸ hrequest) hkey
    · intro request hrequest
      rcases mem_append.mp hrequest with hrequest | hrequest
      · exact .inl hrequest
      · obtain rfl := mem_singleton.mp hrequest
        exact .inr ⟨update, value, by rw [hid], rfl⟩
    · intro noteId actorId requestId' bytes' value' heq
      cases heq
      exact ⟨by simp [hid], hdecode⟩

/-! ## Runs -/

theorem Sound.exec {op : Op β} (hinjective : Injective doc.sha256) (hs : Sound doc s)
    (hop : enabled op s) : Sound doc (exec doc op s) := by
  cases op with
  | create access key id randomKey =>
    simp only [LiveNotes.exec]
    split
    · exact hs
    · rename_i t' next hcreate
      obtain ⟨rfl, hkeys, rfl⟩ := create_ok hcreate
      exact hs.create (newNote doc id (key.getD randomKey) access.principalId s.clock) hop hkeys
        rfl rfl rfl access.principalId
  | read access key =>
    simp only [LiveNotes.exec, State.commit]
    split
    · exact hs
    · rename_i t' hread
      obtain ⟨row, hlive, rfl⟩ := read_ok hread
      exact hs.touch (live_some hlive).1
  | updateAccess access key expectedRevision value =>
    simp only [LiveNotes.exec, State.commit]
    split
    · exact hs
    · rename_i t' hupdate
      obtain ⟨row, next, hlive, hsave⟩ := updateAccess_ok hupdate
      obtain ⟨rfl, rfl⟩ := save_ok hsave
      exact hs.save (live_some hlive).1 access.principalId rfl rfl le_rfl fun h => ⟨h, rfl⟩
  | remove access key expectedRevision =>
    simp only [LiveNotes.exec, State.commit]
    split
    · exact hs
    · rename_i t' hremove
      obtain ⟨row, hlive, rfl⟩ := remove_ok hremove
      exact hs.remove (live_some hlive).1
  | restore access key target expectedRevision =>
    simp only [LiveNotes.exec]
    split
    · exact hs
    · rename_i t' next value hrestore
      obtain ⟨row, title, hlive, hsave⟩ := restore_ok hrestore
      obtain ⟨hsound, hmem, hid, hle, -⟩ := hs.edit (live_some hlive).1 hsave
      exact hsound.accept hmem rfl hle (fun _ h => h) hsound.requests (fun _ h => .inl h) nofun
  | applyUpdate access key requestId update =>
    simp only [LiveNotes.exec]
    split
    · exact hs
    · rename_i t' row value happly
      exact hs.applyUpdate hinjective happly
  | lease key connectionId expiresAt instant =>
    simp only [LiveNotes.exec, State.commit]
    split
    · exact hs
    · rename_i t' hlease
      obtain ⟨row, connections, hlive, hbound, hconnections, rfl⟩ := lease_ok hlease
      refine hs.lease (live_some hlive).1 fun connection hconnection => ?_
      rcases hconnections connection hconnection with hold | ⟨hnote, rfl⟩
      · exact .inl hold
      · exact .inr ⟨hnote, hbound.trans (Nat.add_le_add_right hop _)⟩
  | release connectionId => exact hs.connections fun _ h => (mem_filter.mp h).1
  | sweepUntouched instant locked =>
    simp only [LiveNotes.exec, State.commit]
    split
    · exact hs
    · rename_i t' hsweep
      exact sweepUntouched_sound hs hsweep
  | tick ms => exact hs.tick ms

/-! ## Sweeps while nothing else happens -/

/-- Only sweeps that come a day after the last touch of the note, and time passing. -/
def Op.quiet (note : Note σ) : Op β → Prop
  | .sweepUntouched instant locked => locked = [] ∧ note.touchedAt + DAY_MS < instant
  | .tick _ => True
  | _ => False

def Op.isSweep : Op β → Bool
  | .sweepUntouched .. => true
  | _ => false

def sweeps (ops : List (Op β)) : Nat := ops.countP Op.isSweep

/-- The state after a quiet operation. -/
inductive QuietStep (doc : Document σ β η) (note : Note σ) (s : State σ β η) :
    Op β → State σ β η → Prop
  | swept (instant : Nat) (t' : Tables σ η) (hinstant : note.touchedAt + DAY_MS < instant)
      (hsweep : sweepUntouched doc s.tables instant [] = .ok t')
      (hnotes : t'.notes.Sublist s.tables.notes) :
      QuietStep doc note s (.sweepUntouched instant []) { s with tables := t' }
  | ticked (ms : Nat) : QuietStep doc note s (.tick ms) { s with clock := s.clock + ms }

theorem Sound.quietStep {op : Op β} {note : Note σ} (hs : Sound doc s) (hquiet : op.quiet note) :
    QuietStep doc note s op (LiveNotes.exec doc op s) := by
  cases op with
  | sweepUntouched instant locked =>
    obtain ⟨rfl, hinstant⟩ := hquiet
    obtain ⟨t', hsweep, hnotes⟩ := sweepUntouched_notes hs instant []
    simp only [LiveNotes.exec, hsweep, State.commit]
    exact .swept instant t' hinstant hsweep (hnotes ▸ filter_sublist)
  | tick ms => exact .ticked ms
  | _ => exact hquiet.elim

omit [SemilatticeSup σ] [DecidableEq σ] [DecidableEq η] in
theorem blockers_mono {t t' : Tables σ η} (h : t'.notes.Sublist t.notes) (note : Note σ) :
    (blockers t' note).length ≤ (blockers t note).length :=
  (h.filter _).length_le

/-- A note that is still there has had fewer sweeps than notes were waiting before it. -/
theorem sweeps_lt_waiting {ops : List (Op β)} {note : Note σ} (hinjective : Injective doc.sha256) (hs : Sound doc s)
    (hvalid : (store doc).Valid ops s) (hquiet : ∀ op ∈ ops, op.quiet note) (hahead : note.ahead note = true)
    (hrevision : note.revision = 0) (hblockers : (blockers s.tables note).length < SWEEP_LIMIT)
    (hleft : note ∈ ((store doc).after ops s).tables.notes) : note ∈ s.tables.notes ∧
    sweeps ops < (waiting s.tables note).length := by
  induction ops generalizing s with
  | nil =>
    have hwaiting : note ∈ waiting s.tables note := mem_filter.mpr ⟨hleft, by simp [hahead, hrevision]⟩
    exact ⟨hleft, length_pos_of_mem hwaiting⟩
  | cons op ops ih =>
    have hstep := hs.quietStep (hquiet op (by simp))
    have hsound := hs.exec hinjective hvalid.1
    have hrest := fun hblockers => ih hsound hvalid.2 (fun op hop => hquiet op (by simp [hop]))
      hblockers hleft
    generalize LiveNotes.exec doc op s = s' at hstep hsound hrest
    cases hstep with
    | swept instant t' hinstant hsweep hnotes =>
      obtain ⟨hmem, hlt⟩ := hrest (Nat.lt_of_le_of_lt (blockers_mono hnotes note) hblockers)
      have hnote := hnotes.subset hmem
      refine ⟨hnote, ?_⟩
      rcases sweep_progress hs hsweep hnote hahead hrevision hinstant hblockers with hgone | hless
      · exact absurd hmem hgone
      · simp only [sweeps, countP_cons, Op.isSweep] at hlt ⊢
        change _ < (waiting t' note).length at hlt
        simp only [if_true]
        omega
    | ticked ms =>
      obtain ⟨hmem, hlt⟩ := hrest hblockers
      exact ⟨hmem, by simpa [sweeps, Op.isSweep] using hlt⟩

/-- A note with 100 blockers before it stays. -/
theorem blocked_stays {ops : List (Op β)} {note : Note σ} (hinjective : Injective doc.sha256)
    (hs : Sound doc s) (hvalid : (store doc).Valid ops s) (hquiet : ∀ op ∈ ops, op.quiet note)
    (hnote : note ∈ s.tables.notes) (hrevision : note.revision = 0)
    (hblockers : SWEEP_LIMIT ≤ (blockers s.tables note).length) : note ∈ ((store doc).after ops s).tables.notes := by
  induction ops generalizing s with
  | nil => exact hnote
  | cons op ops ih =>
    have hstep := hs.quietStep (hquiet op (by simp))
    have hsound := hs.exec hinjective hvalid.1
    have hrest := ih hsound hvalid.2 fun op hop => hquiet op (by simp [hop])
    change note ∈ ((store doc).after ops (LiveNotes.exec doc op s)).tables.notes
    generalize LiveNotes.exec doc op s = s' at hstep hsound hrest
    cases hstep with
    | swept instant t' hinstant hsweep hnotes =>
      obtain ⟨hmem, hmore⟩ := sweep_blocked hs hsweep hnote hrevision hinstant hblockers
      exact hrest hmem (Nat.le_trans hblockers hmore)
    | ticked ms => exact hrest hnote hblockers

/-- Time passes, and then the note is swept `n` times. -/
def sweepOps (note : Note σ) (n : Nat) : List (Op β) :=
  .tick (note.touchedAt + DAY_MS + 1)
    :: List.replicate n (.sweepUntouched (note.touchedAt + DAY_MS + 1) [])

theorem sweepOps_valid (hinjective : Injective doc.sha256) (hs : Sound doc s)
    (note : Note σ) (n : Nat) : (store doc).Valid (sweepOps note n) s := by
  refine ⟨trivial, ?_⟩
  have hvalid : ∀ n (s : State σ β η), Sound doc s → note.touchedAt + DAY_MS + 1 ≤ s.clock →
      (store doc).Valid (List.replicate n (.sweepUntouched (note.touchedAt + DAY_MS + 1) [])) s := by
    intro n
    induction n with
    | zero => exact fun _ _ _ => trivial
    | succ n ih =>
      intro s hs hclock
      have henabled : enabled (.sweepUntouched (note.touchedAt + DAY_MS + 1) [] : Op β) s := hclock
      refine ⟨henabled, ih _ (hs.exec hinjective henabled) ?_⟩
      have hstep : QuietStep doc note s (.sweepUntouched (note.touchedAt + DAY_MS + 1) [])
          (LiveNotes.exec doc (.sweepUntouched (note.touchedAt + DAY_MS + 1) []) s) :=
        hs.quietStep ⟨rfl, Nat.lt_succ_self _⟩
      change _ ≤ (LiveNotes.exec doc _ s).clock
      generalize LiveNotes.exec doc _ s = s' at hstep
      cases hstep
      exact hclock
  exact hvalid n _ (hs.tick _) (Nat.le_add_left _ _)

omit [SemilatticeSup σ] [DecidableEq σ] in
theorem sweepOps_quiet (note : Note σ) (n : Nat) : ∀ op ∈ (sweepOps note n : List (Op β)), op.quiet note := by
  intro op hop
  rcases mem_cons.mp hop with rfl | hop
  · trivial
  · obtain rfl := eq_of_mem_replicate hop
    exact ⟨rfl, Nat.lt_succ_self _⟩

omit [SemilatticeSup σ] [DecidableEq σ] in
theorem sweeps_sweepOps (note : Note σ) (n : Nat) : sweeps (sweepOps note n : List (Op β)) = n := by
  simp [sweeps, sweepOps, Op.isSweep, countP_replicate]

/-- Enough sweeps delete the note, when nothing else happens. -/
def Reached (doc : Document σ β η) (s : State σ β η) (note : Note σ) : Prop :=
  ∃ n, ∀ ops, (store doc).Valid ops s → (∀ op ∈ ops, op.quiet note) → n ≤ sweeps ops →
    ∀ row ∈ ((store doc).after ops s).tables.notes, row.id ≠ note.id

theorem quiet_notes {ops : List (Op β)} {note : Note σ} (hinjective : Injective doc.sha256)
    (hs : Sound doc s) (hvalid : (store doc).Valid ops s) (hquiet : ∀ op ∈ ops, op.quiet note) :
    ((store doc).after ops s).tables.notes.Sublist s.tables.notes := by
  induction ops generalizing s with
  | nil => exact Sublist.refl _
  | cons op ops ih =>
    have hstep := hs.quietStep (hquiet op (by simp))
    have hrest := ih (hs.exec hinjective hvalid.1) hvalid.2 fun op hop => hquiet op (by simp [hop])
    change ((store doc).after ops (LiveNotes.exec doc op s)).tables.notes.Sublist _
    change ((store doc).after ops (LiveNotes.exec doc op s)).tables.notes.Sublist _ at hrest
    generalize LiveNotes.exec doc op s = s' at hstep hrest
    cases hstep with
    | swept instant t' hinstant hsweep hnotes => exact hrest.trans hnotes
    | ticked ms => exact hrest

/-- The sweeps get to an untouched note exactly where fewer than 100 others block the scan. -/
theorem reached_iff {note : Note σ} (hinjective : Injective doc.sha256) (hs : Sound doc s)
    (hnote : note ∈ s.tables.notes) (hlive : note.deletedAt = none) (hedited : note.everEdited = false)
    (hrevision : note.revision = 0) : Reached doc s note ↔ (blockers s.tables note).length < SWEEP_LIMIT := by
  constructor
  · rintro ⟨n, hgone⟩
    by_contra hmany
    have hvalid := sweepOps_valid hinjective hs note n
    have hquiet : ∀ op ∈ (sweepOps note n : List (Op β)), op.quiet note := sweepOps_quiet note n
    have hstays := blocked_stays hinjective hs hvalid hquiet hnote hrevision (Nat.le_of_not_lt hmany)
    exact hgone _ hvalid hquiet (Nat.le_of_eq (sweeps_sweepOps note n).symm) note hstays rfl
  · intro hfew
    refine ⟨(waiting s.tables note).length, fun ops hvalid hquiet hmany row hrow hid => ?_⟩
    have hahead : note.ahead note = true := ahead_iff.mpr ⟨hedited, hlive, Std.Refl.refl note⟩
    have hsame : row = note := inj_on_of_nodup_map hs.ids
      ((quiet_notes hinjective hs hvalid hquiet).subset hrow) hnote hid
    have hlt := (sweeps_lt_waiting hinjective hs hvalid hquiet hahead hrevision hfew (hsame ▸ hrow)).2
    omega

/-! ## Safety -/

structure Safety (doc : Document σ β η) (s : State σ β η) : Prop where
  /-- The stored revisions of a note are 0 to its revision, and the newest carries it. -/
  numbers : (s.tables.revisions.map fun r => (r.noteId, r.revision)).Nodup
  recorded : ∀ row ∈ s.tables.notes, row.Recorded s.tables
  /-- Each update that has succeeded is part of the state. -/
  joined : ∀ accepted ∈ s.accepted, ∀ row ∈ s.tables.notes, accepted.noteId = row.id → accepted.value ≤ row.state
  /-- A repeated request only touches the note, and one with other bytes is refused. -/
  repeated : ∀ noteId actorId requestId bytes value,
    .update noteId actorId requestId bytes value ∈ s.accepted →
    ∀ access key row, access.principalId = actorId → s.tables.live key = some row →
      row.id = noteId → ∀ now,
      (∀ t' row' value', applyUpdate doc s.tables access key requestId bytes now
          = .ok (t', row', value') → t' = s.tables.touch row now)
      ∧ ∀ bytes', bytes' ≠ bytes → ∃ failure, applyUpdate doc s.tables access key requestId bytes' now = .error failure
  /-- A sweep deletes untouched notes only. -/
  swept : ∀ instant, instant ≤ s.clock → ∀ locked t',
    sweepUntouched doc s.tables instant locked = .ok t' →
    ∀ row ∈ s.tables.notes, row ∉ t'.notes →
      row.everEdited = false ∧ row.revision = 0 ∧ doc.text row.state = []
      ∧ (∀ connection ∈ s.tables.connections, connection.noteId = row.id → connection.expiresAt ≤ s.clock)
      ∧ row.touchedAt + DAY_MS < s.clock
  /-- Sweeps get to an untouched note exactly where fewer than 100 others block the scan. -/
  reached : ∀ row ∈ s.tables.notes, row.deletedAt = none → row.everEdited = false →
    row.revision = 0 → (Reached doc s row ↔ (blockers s.tables row).length < SWEEP_LIMIT)

theorem Sound.repeated {noteId : Nat} {actorId : Int} {requestId : JsString} {bytes : β} {value : σ}
    {key : JsString} {row : Note σ} (hinjective : Injective doc.sha256) (hs : Sound doc s)
    (haccepted : .update noteId actorId requestId bytes value ∈ s.accepted)
    (hactor : access.principalId = actorId) (hlive : s.tables.live key = some row)
    (hid : row.id = noteId) (now : Nat) :
    (∀ t' row' value', LiveNotes.applyUpdate doc s.tables access key requestId bytes now
        = .ok (t', row', value') → t' = s.tables.touch row now)
    ∧ ∀ bytes', bytes' ≠ bytes → ∃ failure,
      LiveNotes.applyUpdate doc s.tables access key requestId bytes' now = .error failure := by
  subst hactor hid
  have hrow := (live_some hlive).1
  have hrequest := (hs.notes row hrow).requested _ _ _ _ haccepted
  constructor
  · intro t' row' value' happly
    obtain ⟨found, hfound, -, happlied⟩ := applyUpdate_ok happly
    rw [hlive] at hfound
    cases hfound
    cases happlied with
    | repeated => rfl
    | joined t next title hnew hsave => exact absurd rfl (hnew _ hrequest)
  · intro bytes' hne
    cases happly : LiveNotes.applyUpdate doc s.tables access key requestId bytes' now with
    | error failure => exact ⟨failure, rfl⟩
    | ok result =>
      obtain ⟨t', row', value'⟩ := result
      obtain ⟨found, hfound, -, happlied⟩ := applyUpdate_ok happly
      rw [hlive] at hfound
      cases hfound
      cases happlied with
      | repeated duplicate hmem hkey hhash =>
        have hsame := inj_on_of_nodup_map hs.requests hmem hrequest hkey
        rw [hsame] at hhash
        exact absurd (hinjective hhash).symm hne
      | joined t next title hnew hsave => exact absurd rfl (hnew _ hrequest)

omit [DecidableEq σ] [DecidableEq η] in
theorem Sound.swept {instant : Nat} {locked : List Nat} {t' : Tables σ η} {row : Note σ} (hs : Sound doc s)
    (hinstant : instant ≤ s.clock) (h : sweepUntouched doc s.tables instant locked = .ok t')
    (hrow : row ∈ s.tables.notes) (hgone : row ∉ t'.notes) : row.everEdited = false ∧ row.revision = 0 ∧
    doc.text row.state = [] ∧
    (∀ connection ∈ s.tables.connections, connection.noteId = row.id → connection.expiresAt ≤ s.clock) ∧
    row.touchedAt + DAY_MS < s.clock := by
  obtain ⟨hcandidate, hsweepable⟩ := LiveNotes.swept hs h hrow hgone
  obtain ⟨hedited, -, htouched⟩ := untouched_iff.mp (mem_candidates hcandidate).2
  have hsound := hs.notes row hrow
  have htext : doc.text row.state = [] := by rw [hsound.unedited hedited, doc.text_empty]
  refine ⟨hedited, ?_, htext, ?_, Nat.lt_of_lt_of_le htouched hinstant⟩
  · by_contra hne
    rw [not_sweepable_of_revised hs hrow (Nat.pos_of_ne_zero hne)] at hsweepable
    cases hsweepable
  · intro connection hconnection hnote
    have hbound := hsound.leased connection hconnection hnote
    simp only [DAY_MS, LEASE_MS] at htouched hbound
    omega

theorem Sound.of_reachable {clock : Nat} (hinjective : Injective doc.sha256)
    (h : (store doc).Reachable (.initial clock) s) : Sound doc s :=
  h.invariant (.initial doc clock) fun _ _ hop hs => hs.exec hinjective hop

/-- **Live notes.** -/
theorem live_note_safety {clock : Nat} (hinjective : Injective doc.sha256)
    (h : (store doc).Reachable (.initial clock) s) : Safety doc s := by
  have hs := Sound.of_reachable hinjective h
  exact {
    numbers := hs.numbers
    recorded := fun row hrow => (hs.notes row hrow).recorded
    joined := fun accepted haccepted row hrow => (hs.notes row hrow).joined accepted haccepted
    repeated := fun _ _ _ _ _ haccepted _ _ _ hactor hlive hid now =>
      hs.repeated hinjective haccepted hactor hlive hid now
    swept := fun _ hinstant _ _ hsweep _ hrow hgone => hs.swept hinstant hsweep hrow hgone
    reached := fun _ hrow hlive hedited hrevision =>
      reached_iff hinjective hs hrow hlive hedited hrevision }

instance (doc : Document σ β η) (op : Op β) (s : State σ β η) :
    Decidable ((store doc).enabled op s) :=
  inferInstanceAs (Decidable (enabled op s))

/-- States are numbers, joined by the maximum. -/
def exampleDocument : Document Nat Nat Nat where
  empty := 0
  text n := if n = 0 then [] else [UInt16.ofNat n]
  text_empty := rfl
  decode n := some n
  replaced n _ := n + 1
  encodes _ := true
  sha256 := id

def exampleAccess : Authority := ⟨7, true, true, false⟩
def exampleStart : State Nat Nat Nat := .initial 0

/-- One note is edited and restored, and another one is swept a day later. -/
def exampleOps : List (Op Nat) :=
  [.create exampleAccess (some (js "edited")) 1 [], .create exampleAccess (some (js "untouched")) 2 [],
    .applyUpdate exampleAccess (js "edited") (js "r1") 5, .restore exampleAccess (js "edited") 0 1,
    .applyUpdate exampleAccess (js "edited") (js "r1") 5, .tick (DAY_MS + 1),
    .sweepUntouched (DAY_MS + 1) []]

theorem live_note_safety_example : Safety exampleDocument ((store exampleDocument).after exampleOps exampleStart) :=
  live_note_safety injective_id ⟨exampleOps, by decide, rfl⟩

/-- The key of the note with this number. -/
def exampleKey (n : Nat) : JsString := [107, UInt16.ofNat (48 + n / 10), UInt16.ofNat (48 + n % 10)]

/-- A hundred notes whose access has changed, and then one more. -/
def blockedOps : List (Op Nat) :=
  ((List.range SWEEP_LIMIT).flatMap fun n =>
    [.create exampleAccess (some (exampleKey n)) n [], .updateAccess exampleAccess (exampleKey n) 0 .read])
    ++ [.tick 1, .create exampleAccess (some (js "untouched")) SWEEP_LIMIT []]

/-- The note with this number, after its access has changed. -/
def blockedNote (n : Nat) : Note Nat :=
  { newNote exampleDocument n (exampleKey n) 7 0 with access := .read, revision := 1 }

def blockedRound (n : Nat) : List (Op Nat) :=
  [.create exampleAccess (some (exampleKey n)) n [], .updateAccess exampleAccess (exampleKey n) 0 .read]

/-- What `n` rounds leave. -/
def blockedState (n : Nat) : State Nat Nat Nat where
  clock := 0
  tables :=
    { notes := (List.range n).map blockedNote
      revisions := (List.range n).flatMap fun n =>
        [snapshot (newNote exampleDocument n (exampleKey n) 7 0) 7, snapshot (blockedNote n) 7]
      requests := []
      connections := [] }
  issued := (List.range n).reverse
  accepted := []

theorem exampleKey_inj {m n : Nat} (hm : m < 100) (hn : n < 100) (h : exampleKey m = exampleKey n) : m = n := by
  simp only [exampleKey, List.cons.injEq, and_true, true_and] at h
  have htens := congrArg UInt16.toNat h.1
  have hones := congrArg UInt16.toNat h.2
  simp only [UInt16.toNat_ofNat'] at htens hones
  omega

theorem exampleKey_isLiveNoteKey : ∀ n < 100, isLiveNoteKey (exampleKey n) = true := by decide +kernel

theorem blocked_created {n : Nat} (hn : n < 100) :
    create exampleDocument (blockedState n).tables exampleAccess (some (exampleKey n)) n []
        (blockedState n).clock
      = .ok ({ (blockedState n).tables with
          notes := (blockedState n).tables.notes ++ [newNote exampleDocument n (exampleKey n) 7 0]
          revisions := (blockedState n).tables.revisions
            ++ [snapshot (newNote exampleDocument n (exampleKey n) 7 0) 7] },
        newNote exampleDocument n (exampleKey n) 7 0) := by
  have hnew : ((blockedState n).tables.notes.all fun other => other.key ≠ exampleKey n) = true := by
    refine all_eq_true.mpr fun row hrow => ?_
    obtain ⟨m, hm, rfl⟩ := mem_map.mp hrow
    have hlt := mem_range.mp hm
    exact decide_eq_true fun heq => Nat.ne_of_lt hlt (exampleKey_inj (hlt.trans hn) hn heq)
  have hkey : (some (exampleKey n)).all isLiveNoteKey = true := exampleKey_isLiveNoteKey n hn
  unfold create
  rw [hkey]
  change (do check ((blockedState n).tables.notes.all fun other => other.key ≠ exampleKey n) _; _) = _
  rw [hnew]
  rfl

theorem blocked_updated {n : Nat} (hn : n < 100) {t : Tables Nat Nat}
    (hnotes : t.notes = (blockedState n).tables.notes ++ [newNote exampleDocument n (exampleKey n) 7 0]) :
    updateAccess t exampleAccess (exampleKey n) 0 .read 0
      = .ok { t with
          notes := (blockedState n).tables.notes ++ [blockedNote n]
          revisions := t.revisions ++ [snapshot (blockedNote n) 7] } := by
  have hother : ∀ row ∈ (blockedState n).tables.notes, row.key ≠ exampleKey n ∧ row.id ≠ n := by
    intro row hrow
    obtain ⟨m, hm, rfl⟩ := mem_map.mp hrow
    have hlt := mem_range.mp hm
    exact ⟨fun heq => Nat.ne_of_lt hlt (exampleKey_inj (hlt.trans hn) hn heq), Nat.ne_of_lt hlt⟩
  have hlive : t.live (exampleKey n) = some (newNote exampleDocument n (exampleKey n) 7 0) := by
    unfold Tables.live
    rw [hnotes, find?_append, find?_eq_none.mpr fun row hrow => by simp [(hother row hrow).1]]
    simp [newNote]
  have hnote : t.note exampleAccess (exampleKey n) .manage = .ok (newNote exampleDocument n (exampleKey n) 7 0) := by
    unfold Tables.note
    rw [exampleKey_isLiveNoteKey n hn, hlive]
    rfl
  have hany : (t.notes.any fun other => other.id = n && other.revision = 0) = true := by
    rw [hnotes]
    simp [newNote]
  have hput : Table.replace Note.id (blockedNote n) t.notes = (blockedState n).tables.notes ++ [blockedNote n] := by
    have hbefore : Table.updateWhere (fun row => decide (row.id = (blockedNote n).id)) (fun _ => blockedNote n)
        (blockedState n).tables.notes = (blockedState n).tables.notes :=
      Table.updateWhere_eq_self fun row hrow => decide_eq_false (hother row hrow).2
    unfold Table.replace
    unfold Table.updateWhere at hbefore ⊢
    rw [hnotes, map_append, hbefore]
    simp [newNote, blockedNote]
  unfold updateAccess
  rw [hnote]
  change (save t exampleAccess _ _ 0 >>= fun answer => pure answer.1) = _
  unfold save
  change (do
    check (t.notes.any fun other => other.id = n && other.revision = 0) _
    _) >>= _ = _
  rw [hany]
  change Except.ok { (t.put (blockedNote n)) with revisions := t.revisions ++ [snapshot (blockedNote n) 7] } = _
  unfold Tables.put
  rw [hput]

/-- What a round leaves. -/
theorem blocked_round {n : Nat} (hn : n < 100) : (store exampleDocument).Valid (blockedRound n) (blockedState n)
    ∧ (store exampleDocument).after (blockedRound n) (blockedState n) = blockedState (n + 1) := by
  refine ⟨⟨?_, trivial, trivial⟩, ?_⟩
  · change n ∉ (List.range n).reverse
    simp
  · have hupdate := blocked_updated hn (t := { (blockedState n).tables with
      notes := (blockedState n).tables.notes ++ [newNote exampleDocument n (exampleKey n) 7 0]
      revisions := (blockedState n).tables.revisions ++ [snapshot (newNote exampleDocument n (exampleKey n) 7 0) 7] })
        rfl
    change exec exampleDocument (.updateAccess exampleAccess (exampleKey n) 0 .read)
      (exec exampleDocument (.create exampleAccess (some (exampleKey n)) n []) (blockedState n)) = _
    simp only [exec, blocked_created hn]
    rw [show (blockedState n).clock = 0 from rfl, hupdate]
    simp [State.commit, blockedState, range_succ, newNote]

theorem blocked_rounds : ∀ n ≤ 100, (store exampleDocument).Valid ((List.range n).flatMap blockedRound) exampleStart ∧
    (store exampleDocument).after ((List.range n).flatMap blockedRound) exampleStart = blockedState n := by
  intro n hn
  induction n with
  | zero => exact ⟨trivial, rfl⟩
  | succ n ih =>
    obtain ⟨hvalid, hafter⟩ := ih (Nat.le_of_succ_le hn)
    have hround := blocked_round hn
    rw [range_succ, flatMap_append, flatMap_singleton, Machine.valid_append, Machine.after_append, hafter]
    exact ⟨⟨hvalid, hround.1⟩, hround.2⟩

theorem blocked_run : (store exampleDocument).Valid blockedOps exampleStart
    ∧ newNote exampleDocument SWEEP_LIMIT (js "untouched") 7 1
        ∈ ((store exampleDocument).after blockedOps exampleStart).tables.notes
    ∧ ¬(blockers ((store exampleDocument).after blockedOps exampleStart).tables
        (newNote exampleDocument SWEEP_LIMIT (js "untouched") 7 1)).length < SWEEP_LIMIT := by
  obtain ⟨hvalid, hafter⟩ := blocked_rounds 100 (Nat.le_refl _)
  have hops : blockedOps = (List.range 100).flatMap blockedRound
      ++ [.tick 1, .create exampleAccess (some (js "untouched")) SWEEP_LIMIT []] := rfl
  rw [hops, Machine.valid_append, Machine.after_append, hafter]
  refine ⟨⟨hvalid, ?_⟩, ?_⟩
  · decide +kernel
  · decide +kernel

/-- The note that has never been changed is never deleted. -/
theorem blocked_note_left : (store exampleDocument).Valid blockedOps exampleStart ∧
    ∃ row ∈ ((store exampleDocument).after blockedOps exampleStart).tables.notes, row.deletedAt = none ∧
    row.everEdited = false ∧ row.revision = 0 ∧
    ¬Reached exampleDocument ((store exampleDocument).after blockedOps exampleStart) row := by
  obtain ⟨hvalid, hmem, hmany⟩ := blocked_run
  have hs : Sound exampleDocument ((store exampleDocument).after blockedOps exampleStart) :=
    .of_reachable injective_id ⟨blockedOps, hvalid, rfl⟩
  refine ⟨hvalid, _, hmem, rfl, rfl, rfl, fun hreached => ?_⟩
  exact hmany ((reached_iff injective_id hs hmem rfl rfl rfl).mp hreached)

end TsEpistle.LiveNotes
