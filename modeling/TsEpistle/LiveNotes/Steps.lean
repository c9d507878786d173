import TsEpistle.LiveNotes.History

/-! What each operation of the store keeps. -/

namespace TsEpistle.LiveNotes
open Library Checked List

variable {σ β η : Type}

/-! ## What an operation that succeeds has found -/

theorem check_ok {condition : Bool} {failure : Failure} {u : Unit}
    (h : check condition failure = .ok u) : condition = true := by
  unfold check at h
  split at h
  · assumption
  · cases h

theorem live_some {t : Tables σ η} {key : JsString} {row : Note σ} (h : t.live key = some row) :
    row ∈ t.notes ∧ row.key = key ∧ row.deletedAt = none := by
  have hfound := find?_some h
  simp only [Bool.and_eq_true, decide_eq_true_eq, Option.isNone_iff_eq_none] at hfound
  exact ⟨mem_of_find?_eq_some h, hfound⟩

variable {access : Authority}

theorem note_ok {t : Tables σ η} {key : JsString} {mode : Mode} {row : Note σ}
    (h : t.note access key mode = .ok row) : t.live key = some row := by
  obtain ⟨_, -, h⟩ := bind_ok h
  split at h
  · cases h
  · rename_i found hfound
    obtain ⟨_, -, h⟩ := bind_ok h
    obtain ⟨_, -, h⟩ := bind_ok h
    cases h
    exact hfound

/-- The note after `save`. -/
def Note.saved (row : Note σ) (changes : Note σ → Note σ) (now : Nat) : Note σ :=
  { changes row with revision := row.revision + 1, updatedAt := now, touchedAt := now }

variable {t t' : Tables σ η}

theorem save_ok {row next : Note σ} {changes : Note σ → Note σ} {now : Nat}
    (h : save t access row changes now = .ok (t', next)) : next = row.saved changes now ∧
    t' = { t.put next with revisions := t.revisions ++ [snapshot next access.principalId] } := by
  obtain ⟨_, -, h⟩ := bind_ok h
  obtain ⟨_, -, h⟩ := bind_ok h
  cases h
  exact ⟨rfl, rfl⟩

theorem textAndTitle_ok {doc : Document σ β η} {state : σ} {found : JsString × JsString}
    (h : textAndTitle doc state = .ok found) : found = (doc.text state, noteTitle (doc.text state)) := by
  obtain ⟨_, -, h⟩ := bind_ok h
  cases h
  rfl

theorem encodeState_ok {doc : Document σ β η} {state encoded : σ}
    (h : encodeState doc state = .ok encoded) : encoded = state := by
  obtain ⟨_, -, h⟩ := bind_ok h
  cases h
  rfl

theorem create_ok {doc : Document σ β η} {key : Option JsString} {id now : Nat} {randomKey : JsString} {next : Note σ}
    (h : create doc t access key id randomKey now = .ok (t', next)) :
    next = newNote doc id (key.getD randomKey) access.principalId now ∧ (∀ row ∈ t.notes, row.key ≠ next.key) ∧
    t' = { t with notes := t.notes ++ [next], revisions := t.revisions ++ [snapshot next access.principalId] } := by
  obtain ⟨_, -, h⟩ := bind_ok h
  obtain ⟨_, -, h⟩ := bind_ok h
  obtain ⟨state, hstate, h⟩ := bind_ok h
  obtain ⟨_, hkeys, h⟩ := bind_ok h
  cases h
  rw [encodeState_ok hstate] at hkeys ⊢
  exact ⟨rfl, by simpa using check_ok hkeys, rfl⟩

theorem updateAccess_ok {key : JsString} {expectedRevision now : Nat} {value : Access}
    (h : updateAccess t access key expectedRevision value now = .ok t') : ∃ row next, t.live key = some row ∧
    save t access row (fun row => { row with access := value }) now = .ok (t', next) := by
  obtain ⟨row, hrow, h⟩ := bind_ok h
  obtain ⟨_, -, h⟩ := bind_ok h
  obtain ⟨⟨saved, next⟩, hsave, h⟩ := bind_ok h
  cases h
  exact ⟨row, next, note_ok hrow, hsave⟩

theorem read_ok {key : JsString} {now : Nat} (h : read t access key now = .ok t') :
    ∃ row, t.live key = some row ∧ t' = t.touch row now := by
  obtain ⟨row, hrow, h⟩ := bind_ok h
  cases h
  exact ⟨row, note_ok hrow, rfl⟩

theorem remove_ok {key : JsString} {expectedRevision now : Nat}
    (h : remove t access key expectedRevision now = .ok t') :
    ∃ row, t.live key = some row
      ∧ t' = { t.put { row with deletedAt := some now, touchedAt := now } with
        connections := t.connections.filter (·.noteId ≠ row.id) } := by
  obtain ⟨row, hrow, h⟩ := bind_ok h
  obtain ⟨_, -, h⟩ := bind_ok h
  cases h
  exact ⟨row, note_ok hrow, rfl⟩

theorem lease_ok {key connectionId : JsString} {expiresAt instant now : Nat}
    (h : lease t key connectionId expiresAt instant now = .ok t') :
    ∃ row connections, t.live key = some row ∧ expiresAt ≤ instant + LEASE_MS
      ∧ (∀ connection ∈ connections, connection ∈ t.connections
        ∨ (connection.noteId = row.id ∧ connection.expiresAt = expiresAt))
      ∧ t' = { t with connections }.touch row now := by
  obtain ⟨_, -, h⟩ := bind_ok h
  obtain ⟨_, hexpires, h⟩ := bind_ok h
  have hbound : expiresAt ≤ instant + LEASE_MS := by
    have := check_ok hexpires
    simp only [decide_eq_true_eq] at this
    omega
  split at h
  · cases h
  · rename_i row hrow
    split at h
    · cases h
      refine ⟨row, _, hrow, hbound, fun connection hmem => ?_, rfl⟩
      rcases mem_append.mp hmem with hmem | hmem
      · exact .inl hmem
      · obtain rfl := mem_singleton.mp hmem
        exact .inr ⟨rfl, rfl⟩
    · rename_i existing hexisting
      split at h
      · cases h
      · rename_i hsame
        cases h
        refine ⟨row, _, hrow, hbound, fun connection hmem => ?_, rfl⟩
        rcases Table.mem_replace Connection.id hmem with rfl | ⟨hmem, -⟩
        · exact .inr ⟨by simpa using hsame, rfl⟩
        · exact .inl hmem

/-- What concerns the note with this id is as before, or less. -/
structure Keeps (s s' : State σ β η) (id : Nat) : Prop where
  clock : s.clock ≤ s'.clock
  revisions : ∀ revision, revision.noteId = id → (revision ∈ s'.tables.revisions ↔ revision ∈ s.tables.revisions)
  requests : ∀ request, request.noteId = id → request ∈ s.tables.requests → request ∈ s'.tables.requests
  connections : ∀ connection ∈ s'.tables.connections, connection.noteId = id → connection ∈ s.tables.connections
  accepted : ∀ accepted ∈ s'.accepted, accepted.noteId = id → accepted ∈ s.accepted

variable {doc : Document σ β η} {s s' : State σ β η} {row : Note σ}

theorem put_ids (t : Tables σ η) (row : Note σ) : (t.put row).notes.map Note.id = t.notes.map Note.id :=
  Table.map_replace Note.id row t.notes

theorem put_keys {t : Tables σ η} {row' : Note σ} (hids : (t.notes.map Note.id).Nodup) (hrow : row ∈ t.notes)
    (hid : row'.id = row.id) (hkey : row'.key = row.key) : (t.put row').notes.map Note.key = t.notes.map Note.key := by
  simp only [Tables.put, Table.replace, Table.updateWhere, map_map]
  refine map_congr_left fun r hr => ?_
  simp only [Function.comp_apply]
  split
  · rename_i heq
    have hsame : r = row := inj_on_of_nodup_map hids hr hrow ((of_decide_eq_true heq).trans hid)
    rw [hsame, hkey]
  · rfl

theorem mem_put {t : Tables σ η} {row' r : Note σ} (h : r ∈ (t.put row').notes) :
    r = row' ∨ (r ∈ t.notes ∧ r.id ≠ row'.id) :=
  Table.mem_replace Note.id h

theorem Note.Recorded.keeps (h : row.Recorded s.tables) (hkeeps : Keeps s s' row.id) :
    row.Recorded s'.tables where
  upTo := fun revision hrevision hid =>
    h.upTo revision ((hkeeps.revisions revision hid).mp hrevision) hid
  all := fun k hk => by
    obtain ⟨revision, hrevision, hid, hnumber⟩ := h.all k hk
    exact ⟨revision, (hkeeps.revisions revision hid).mpr hrevision, hid, hnumber⟩
  newest := fun revision hrevision hid =>
    h.newest revision ((hkeeps.revisions revision hid).mp hrevision) hid

/-- The revisions of a note after a save. -/
theorem Note.Recorded.save {t : Tables σ η} (next : Note σ) (h : row.Recorded t)
    (hid : next.id = row.id) (hrevision : next.revision = row.revision + 1) (actorId : Int) :
    next.Recorded { t.put next with revisions := t.revisions ++ [snapshot next actorId] } where
  upTo := by
    intro revision hmem hnote
    rcases mem_append.mp hmem with hmem | hmem
    · exact Nat.le_trans (h.upTo revision hmem (hnote.trans hid)) (by omega)
    · obtain rfl := mem_singleton.mp hmem
      exact Nat.le_refl _
  all := by
    intro k hk
    rcases Nat.lt_or_ge k (row.revision + 1) with hold | hnew
    · obtain ⟨revision, hmem, hnote, hnumber⟩ := h.all k (Nat.le_of_lt_succ hold)
      exact ⟨revision, mem_append_left _ hmem, hnote.trans hid.symm, hnumber⟩
    · refine ⟨snapshot next actorId, by simp, rfl, ?_⟩
      change next.revision = k
      omega
  newest := by
    intro revision hmem hnote hnumber
    rcases mem_append.mp hmem with hmem | hmem
    · have := h.upTo revision hmem (hnote.trans hid)
      omega
    · obtain rfl := mem_singleton.mp hmem
      exact ⟨rfl, rfl, rfl⟩

section
variable [SemilatticeSup σ]

theorem Note.Sound.keeps (h : row.Sound doc s) (hkeeps : Keeps s s' row.id) :
    row.Sound doc s' where
  recorded := h.recorded.keeps hkeeps
  joined := fun accepted haccepted hid =>
    h.joined accepted (hkeeps.accepted accepted haccepted hid) hid
  requested := fun _ _ _ _ hupdate =>
    hkeeps.requests _ rfl (h.requested _ _ _ _ (hkeeps.accepted _ hupdate rfl))
  unedited := h.unedited
  touched := h.touched.trans hkeeps.clock
  leased := fun connection hconnection hid =>
    h.leased connection (hkeeps.connections connection hconnection hid) hid

/-- A note that an operation has written without a new revision. -/
theorem Note.Sound.touch {row' : Note σ} (h : row.Sound doc s) (hid : row'.id = row.id)
    (hrevision : row'.revision = row.revision) (hstate : row'.state = row.state)
    (htitle : row'.title = row.title) (haccess : row'.access = row.access)
    (hedited : row'.everEdited = row.everEdited) (htouched : row'.touchedAt = s.clock) :
    row'.Sound doc s where
  recorded := by
    refine ⟨?_, ?_, ?_⟩
    · rw [hid, hrevision]
      exact h.recorded.upTo
    · rw [hid, hrevision]
      exact h.recorded.all
    · rw [hid, hrevision, hstate, htitle, haccess]
      exact h.recorded.newest
  joined := by
    rw [hid, hstate]
    exact h.joined
  requested := by
    rw [hid]
    exact h.requested
  unedited := by
    rw [hedited, hstate]
    exact h.unedited
  touched := Nat.le_of_eq htouched
  leased := by
    rw [hid, htouched]
    intro connection hconnection hnote
    exact (h.leased connection hconnection hnote).trans (Nat.add_le_add_right h.touched _)

/-- **Write rule.** One note is written; nothing that concerns the others changes. -/
theorem Sound.put (row' : Note σ) (hs : Sound doc s) (hrow : row ∈ s.tables.notes)
    (hid : row'.id = row.id) (hkey : row'.key = row.key)
    (hnotes : s'.tables.notes = (s.tables.put row').notes) (hissued : s'.issued = s.issued)
    (hrow' : row'.Sound doc s') (hkeeps : ∀ id, id ≠ row.id → Keeps s s' id)
    (hnumbers : (s'.tables.revisions.map fun r => (r.noteId, r.revision)).Nodup)
    (hrequests : (s'.tables.requests.map Request.key).Nodup)
    (hrevisions : ∀ revision ∈ s'.tables.revisions, revision ∈ s.tables.revisions ∨ revision.noteId = row.id)
    (hconnections : ∀ connection ∈ s'.tables.connections,
      connection ∈ s.tables.connections ∨ connection.noteId = row.id)
    (haccepted : ∀ accepted ∈ s'.accepted, accepted ∈ s.accepted ∨ accepted.noteId = row.id)
    (hasked : ∀ request ∈ s'.tables.requests, ∃ bytes value,
      .update request.noteId request.actorId request.requestId bytes value ∈ s'.accepted
        ∧ doc.sha256 bytes = request.updateHash)
    (hdecoded : ∀ noteId actorId requestId bytes value,
      .update noteId actorId requestId bytes value ∈ s'.accepted → doc.decode bytes = some value) :
    Sound doc s' where
  ids := by
    rw [hnotes, put_ids]
    exact hs.ids
  keys := by
    rw [hnotes, put_keys hs.ids hrow hid hkey]
    exact hs.keys
  numbers := hnumbers
  requests := hrequests
  issued := by
    intro r hr
    rw [hissued]
    rcases mem_put (hnotes ▸ hr) with rfl | ⟨hr, -⟩
    · exact hid ▸ hs.issued row hrow
    · exact hs.issued r hr
  revisionNotes := by
    intro revision hrevision
    rw [hissued]
    rcases hrevisions revision hrevision with hold | hnew
    · exact hs.revisionNotes revision hold
    · exact hnew ▸ hs.issued row hrow
  connectionNotes := by
    intro connection hconnection
    rw [hissued]
    rcases hconnections connection hconnection with hold | hnew
    · exact hs.connectionNotes connection hold
    · exact hnew ▸ hs.issued row hrow
  acceptedNotes := by
    intro accepted hmem
    rw [hissued]
    rcases haccepted accepted hmem with hold | hnew
    · exact hs.acceptedNotes accepted hold
    · exact hnew ▸ hs.issued row hrow
  notes := by
    intro r hr
    rcases mem_put (hnotes ▸ hr) with rfl | ⟨hr, hne⟩
    · exact hrow'
    · exact (hs.notes r hr).keeps (hkeeps r.id (hid ▸ hne))
  asked := hasked
  decoded := hdecoded

theorem Sound.touch (hs : Sound doc s) (hrow : row ∈ s.tables.notes) :
    Sound doc { s with tables := s.tables.touch row s.clock } := by
  have hkeeps : ∀ id, Keeps s { s with tables := s.tables.touch row s.clock } id := fun _ =>
    ⟨Nat.le_refl _, fun _ _ => Iff.rfl, fun _ _ h => h, fun _ h _ => h, fun _ h _ => h⟩
  have htouched : Note.Sound doc { s with tables := s.tables.touch row s.clock }
      { row with touchedAt := s.clock } :=
    ((hs.notes row hrow).keeps (hkeeps row.id)).touch rfl rfl rfl rfl rfl rfl rfl
  exact hs.put { row with touchedAt := s.clock } hrow rfl rfl rfl rfl htouched (fun id _ => hkeeps id) hs.numbers hs.requests
    (fun _ h => .inl h) (fun _ h => .inl h) (fun _ h => .inl h) hs.asked hs.decoded

theorem Sound.save {changes : Note σ → Note σ} (hs : Sound doc s) (hrow : row ∈ s.tables.notes)
    (actorId : Int) (hid : (changes row).id = row.id) (hkey : (changes row).key = row.key)
    (hstate : row.state ≤ (changes row).state)
    (hedited : (changes row).everEdited = false → row.everEdited = false ∧ (changes row).state = row.state) :
    Sound doc { s with tables := { s.tables.put (row.saved changes s.clock) with
      revisions := s.tables.revisions ++ [snapshot (row.saved changes s.clock) actorId] } } := by
  have hsound := hs.notes row hrow
  generalize hnext : row.saved changes s.clock = next
  have hid' : next.id = row.id := hnext ▸ hid
  have hkey' : next.key = row.key := hnext ▸ hkey
  refine hs.put next hrow hid' hkey' rfl rfl ?_ ?_ ?_ hs.requests ?_
    (fun _ h => .inl h) (fun _ h => .inl h) hs.asked hs.decoded
  · subst hnext
    refine ⟨hsound.recorded.save (row.saved changes s.clock) hid rfl actorId, ?_, ?_, ?_, Nat.le_refl _, ?_⟩
    · intro accepted haccepted hnote
      exact (hsound.joined accepted haccepted (hnote.trans hid)).trans hstate
    · intro userId requestId bytes value hupdate
      have hnote : (row.saved changes s.clock).id = row.id := hid
      rw [hnote] at hupdate ⊢
      exact hsound.requested _ _ _ _ hupdate
    · intro hnot
      obtain ⟨hrow, hsame⟩ := hedited hnot
      exact hsame.trans (hsound.unedited hrow)
    · intro connection hconnection hnote
      exact (hsound.leased connection hconnection (hnote.trans hid)).trans
        (Nat.add_le_add_right hsound.touched _)
  · intro id hne
    refine ⟨Nat.le_refl _, fun revision hnote => ?_, fun _ _ h => h, fun _ h _ => h, fun _ h _ => h⟩
    have hother : revision ≠ snapshot next actorId := by
      rintro rfl
      exact hne (hnote.symm.trans hid')
    simp [hother]
  · rw [map_append]
    refine nodup_append'.mpr ⟨hs.numbers, nodup_singleton _, ?_⟩
    intro number hold hnew
    obtain rfl : number = (row.id, row.revision + 1) := by
      subst hnext
      simpa [snapshot, Note.saved, hid] using hnew
    obtain ⟨revision, hmem, heq⟩ := mem_map.mp hold
    have hle := hsound.recorded.upTo revision hmem (congrArg Prod.fst heq)
    have hnumber : revision.revision = row.revision + 1 := congrArg Prod.snd heq
    omega
  · intro revision hmem
    rcases mem_append.mp hmem with hmem | hmem
    · exact .inl hmem
    · obtain rfl := mem_singleton.mp hmem
      exact .inr hid'

theorem Sound.remove {row : Note σ} (hs : Sound doc s) (hrow : row ∈ s.tables.notes) :
    Sound doc { s with tables :=
      { s.tables.put { row with deletedAt := some s.clock, touchedAt := s.clock } with
        connections := s.tables.connections.filter (·.noteId ≠ row.id) } } := by
  generalize htables : ({ s.tables.put { row with deletedAt := some s.clock, touchedAt := s.clock }
    with connections := s.tables.connections.filter (·.noteId ≠ row.id) } : Tables σ η) = t'
  have hkeeps : ∀ id, Keeps s { s with tables := t' } id := by
    subst htables
    exact fun _ => ⟨Nat.le_refl _, fun _ _ => Iff.rfl, fun _ _ h => h, fun _ h _ => (mem_filter.mp h).1, fun _ h _ => h⟩
  have hremoved : Note.Sound doc { s with tables := t' }
      { row with deletedAt := some s.clock, touchedAt := s.clock } :=
    ((hs.notes row hrow).keeps (hkeeps row.id)).touch rfl rfl rfl rfl rfl rfl rfl
  subst htables
  exact hs.put { row with deletedAt := some s.clock, touchedAt := s.clock } hrow rfl rfl rfl rfl
    hremoved (fun id _ => hkeeps id) hs.numbers hs.requests (fun _ h => .inl h)
    (fun _ h => .inl (mem_filter.mp h).1) (fun _ h => .inl h) hs.asked hs.decoded

theorem Sound.lease {row : Note σ} {connections : List Connection} (hs : Sound doc s)
    (hrow : row ∈ s.tables.notes)
    (hconnections : ∀ connection ∈ connections, connection ∈ s.tables.connections
      ∨ (connection.noteId = row.id ∧ connection.expiresAt ≤ s.clock + LEASE_MS)) :
    Sound doc { s with tables := { s.tables with connections }.touch row s.clock } := by
  have hsound := hs.notes row hrow
  refine hs.put { row with touchedAt := s.clock } hrow rfl rfl rfl rfl ?_ ?_ hs.numbers hs.requests
    (fun _ h => .inl h) ?_ (fun _ h => .inl h) hs.asked hs.decoded
  · refine ⟨⟨hsound.recorded.upTo, hsound.recorded.all, hsound.recorded.newest⟩, hsound.joined,
      hsound.requested, hsound.unedited, Nat.le_refl _, ?_⟩
    intro connection hconnection hnote
    rcases hconnections connection hconnection with hold | ⟨-, hbound⟩
    · exact (hsound.leased connection hold hnote).trans (Nat.add_le_add_right hsound.touched _)
    · exact hbound
  · intro id hne
    refine ⟨Nat.le_refl _, fun _ _ => Iff.rfl, fun _ _ h => h, ?_, fun _ h _ => h⟩
    intro connection hconnection hnote
    rcases hconnections connection hconnection with hold | ⟨hnew, -⟩
    · exact hold
    · exact absurd (hnote.symm.trans hnew) hne
  · intro connection hconnection
    rcases hconnections connection hconnection with hold | ⟨hnew, -⟩
    · exact .inl hold
    · exact .inr hnew

/-- An update that is part of the state, and its request, are on record. -/
theorem Sound.accept {accepted : Accepted σ β} {requests : List (Request η)} (hs : Sound doc s)
    (hrow : row ∈ s.tables.notes) (hid : accepted.noteId = row.id)
    (hle : accepted.value ≤ row.state) (hold : s.tables.requests ⊆ requests)
    (hnodup : (requests.map Request.key).Nodup)
    (hnew : ∀ request ∈ requests, request ∈ s.tables.requests ∨ ∃ bytes value, accepted =
      .update request.noteId request.actorId request.requestId bytes value ∧ doc.sha256 bytes = request.updateHash)
    (hupdate : ∀ noteId actorId requestId bytes value,
      accepted = .update noteId actorId requestId bytes value →
        ⟨noteId, actorId, requestId, doc.sha256 bytes⟩ ∈ requests ∧ doc.decode bytes = some value) :
    Sound doc { s with
      tables := { s.tables with requests }, accepted := accepted :: s.accepted } where
  ids := hs.ids
  keys := hs.keys
  numbers := hs.numbers
  requests := hnodup
  issued := hs.issued
  revisionNotes := hs.revisionNotes
  connectionNotes := hs.connectionNotes
  acceptedNotes := by
    intro other hmem
    rcases mem_cons.mp hmem with rfl | hmem
    · exact hid ▸ hs.issued row hrow
    · exact hs.acceptedNotes other hmem
  notes := by
    intro r hr
    have hsound := hs.notes r hr
    refine ⟨⟨hsound.recorded.upTo, hsound.recorded.all, hsound.recorded.newest⟩, ?_, ?_,
      hsound.unedited, hsound.touched, hsound.leased⟩
    · intro other hmem hnote
      rcases mem_cons.mp hmem with rfl | hmem
      · have hsame : r = row := inj_on_of_nodup_map hs.ids hr hrow (hnote.symm.trans hid)
        rw [hsame]
        exact hle
      · exact hsound.joined other hmem hnote
    · intro actorId requestId bytes value hmem
      rcases mem_cons.mp hmem with heq | hmem
      · exact (hupdate _ _ _ _ _ heq.symm).1
      · exact hold (hsound.requested _ _ _ _ hmem)
  asked := by
    intro request hrequest
    rcases hnew request hrequest with hrequest | ⟨bytes, value, heq, hhash⟩
    · obtain ⟨bytes, value, hmem, hhash⟩ := hs.asked request hrequest
      exact ⟨bytes, value, mem_cons_of_mem _ hmem, hhash⟩
    · exact ⟨bytes, value, heq ▸ mem_cons_self, hhash⟩
  decoded := by
    intro noteId actorId requestId bytes value hmem
    rcases mem_cons.mp hmem with heq | hmem
    · exact (hupdate _ _ _ _ _ heq.symm).2
    · exact hs.decoded _ _ _ _ _ hmem

theorem Sound.create (next : Note σ) (hs : Sound doc s) (hfresh : next.id ∉ s.issued)
    (hkey : ∀ r ∈ s.tables.notes, r.key ≠ next.key) (hrevision : next.revision = 0)
    (hstate : next.state = doc.empty) (htouched : next.touchedAt = s.clock) (actorId : Int) :
    Sound doc { s with
      tables := { s.tables with
        notes := s.tables.notes ++ [next]
        revisions := s.tables.revisions ++ [snapshot next actorId] }
      issued := next.id :: s.issued } := by
  have hids : ∀ r ∈ s.tables.notes, r.id ≠ next.id := fun r hr heq => hfresh (heq ▸ hs.issued r hr)
  have hrevisions : ∀ r ∈ s.tables.revisions, r.noteId ≠ next.id := fun r hr heq => hfresh (heq ▸ hs.revisionNotes r hr)
  refine ⟨?_, ?_, ?_, hs.requests, ?_, ?_, ?_, ?_, ?_, hs.asked, hs.decoded⟩
  · rw [map_append]
    exact nodup_append'.mpr ⟨hs.ids, nodup_singleton _, by simpa using hids⟩
  · rw [map_append]
    exact nodup_append'.mpr ⟨hs.keys, nodup_singleton _, by simpa using hkey⟩
  · rw [map_append]
    refine nodup_append'.mpr ⟨hs.numbers, nodup_singleton _, ?_⟩
    intro number hold hnew
    obtain rfl : number = (next.id, next.revision) := by simpa [snapshot] using hnew
    obtain ⟨revision, hmem, heq⟩ := mem_map.mp hold
    exact hrevisions revision hmem (congrArg Prod.fst heq)
  · intro r hr
    rcases mem_append.mp hr with hr | hr
    · exact mem_cons_of_mem _ (hs.issued r hr)
    · obtain rfl := mem_singleton.mp hr
      exact mem_cons_self
  · intro revision hmem
    rcases mem_append.mp hmem with hmem | hmem
    · exact mem_cons_of_mem _ (hs.revisionNotes revision hmem)
    · obtain rfl := mem_singleton.mp hmem
      exact mem_cons_self
  · exact fun connection hmem => mem_cons_of_mem _ (hs.connectionNotes connection hmem)
  · exact fun accepted hmem => mem_cons_of_mem _ (hs.acceptedNotes accepted hmem)
  · intro r hr
    rcases mem_append.mp hr with hr | hr
    · refine (hs.notes r hr).keeps ⟨Nat.le_refl _, fun revision hnote => ?_, fun _ _ h => h,
        fun _ h _ => h, fun _ h _ => h⟩
      have hother : revision ≠ snapshot next actorId := by
        rintro rfl
        exact hids r hr hnote.symm
      simp [hother]
    · obtain rfl := mem_singleton.mp hr
      refine ⟨⟨?_, ?_, ?_⟩, ?_, ?_, fun _ => hstate, Nat.le_of_eq htouched, ?_⟩
      · intro revision hmem hnote
        rcases mem_append.mp hmem with hmem | hmem
        · exact absurd hnote (hrevisions revision hmem)
        · obtain rfl := mem_singleton.mp hmem
          exact Nat.le_refl _
      · intro k hk
        exact ⟨snapshot r actorId, by simp, rfl, by simp [snapshot]; omega⟩
      · intro revision hmem hnote _
        rcases mem_append.mp hmem with hmem | hmem
        · exact absurd hnote (hrevisions revision hmem)
        · obtain rfl := mem_singleton.mp hmem
          exact ⟨rfl, rfl, rfl⟩
      · intro accepted hmem hnote
        exact absurd (hnote ▸ hs.acceptedNotes accepted hmem) hfresh
      · intro userId requestId bytes value hmem
        exact absurd (hs.acceptedNotes _ hmem) hfresh
      · intro connection hmem hnote
        exact absurd (hnote ▸ hs.connectionNotes connection hmem) hfresh

/-- Fewer connections. -/
theorem Sound.connections {connections : List Connection} (hs : Sound doc s)
    (hsubset : connections ⊆ s.tables.connections) : Sound doc { s with tables := { s.tables with connections } } :=
  { hs with
    connectionNotes := fun connection hmem => hs.connectionNotes connection (hsubset hmem)
    notes := fun r hr => (hs.notes r hr).keeps ⟨Nat.le_refl _, fun _ _ => Iff.rfl, fun _ _ h => h,
      fun _ h _ => hsubset h, fun _ h _ => h⟩ }

theorem Sound.delete (hs : Sound doc s) (id : Nat) :
    Sound doc { s with tables := s.tables.delete id } where
  ids := hs.ids.sublist (filter_sublist.map _)
  keys := hs.keys.sublist (filter_sublist.map _)
  numbers := hs.numbers.sublist (filter_sublist.map _)
  requests := hs.requests.sublist (filter_sublist.map _)
  issued := fun r hr => hs.issued r (mem_filter.mp hr).1
  revisionNotes := fun r hr => hs.revisionNotes r (mem_filter.mp hr).1
  connectionNotes := fun c hc => hs.connectionNotes c (mem_filter.mp hc).1
  acceptedNotes := hs.acceptedNotes
  notes := by
    intro r hr
    obtain ⟨hr, hne⟩ := mem_filter.mp hr
    refine (hs.notes r hr).keeps ⟨Nat.le_refl _, fun revision hnote => ?_, fun request hnote h => ?_,
      fun _ h _ => (mem_filter.mp h).1, fun _ h _ => h⟩
    · simp only [Tables.delete, mem_filter, hnote]
      exact and_iff_left hne
    · refine mem_filter.mpr ⟨h, ?_⟩
      rw [hnote]
      exact hne
  asked := fun request hmem => hs.asked request (mem_filter.mp hmem).1
  decoded := hs.decoded

theorem Sound.tick (hs : Sound doc s) (ms : Nat) : Sound doc { s with clock := s.clock + ms } :=
  { hs with
    notes := fun r hr => (hs.notes r hr).keeps ⟨Nat.le_add_right _ _, fun _ _ => Iff.rfl,
      fun _ _ h => h, fun _ h _ => h, fun _ h _ => h⟩ }

end

end TsEpistle.LiveNotes
