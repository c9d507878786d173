import TsEpistle.Notifications.Steps

/-! What enqueueing writes. A sound database has one delivery for each job that delivers, with the
job's own event; then a recipient's job is left alone, added, or moved to a later event. -/

namespace TsEpistle.Notifications
open Library Checked List

/-- What the key of a job says about its payload. -/
def Keyed (db : Database) : DeduplicationKey → Payload → Prop
  | .pageWatchUpdate userId pageId _, .delivery payload =>
    payload.userId = userId ∧ ∃ event ∈ db.told,
      event.id = payload.eventId ∧ event.type = .updated ∧ event.pageId = pageId
  | .pageWatch userId eventId, .delivery payload =>
    payload.userId = userId ∧ payload.eventId = eventId ∧ ∃ event ∈ db.told, event.id = eventId
  | .notificationAudience eventId afterUserId, .audience eventId' afterUserId' _ =>
    eventId' = eventId ∧ afterUserId' = afterUserId ∧ ∃ event ∈ db.told, event.id = eventId
  | _, _ => False

structure Database.Sound (db : Database) : Prop where
  eventIds : (db.told.map NotificationOutboxEvent.id).Nodup
  jobIds : (db.jobs.map Job.id).Nodup
  jobKeys : (db.jobs.map Job.key).Nodup
  deliveryIds : (db.deliveries.map DeliveryRow.id).Nodup
  deliveryJobs : (db.deliveries.map DeliveryRow.jobId).Nodup
  used : ∀ job ∈ db.jobs, job.id < db.fresh
  usedDeliveries : ∀ row ∈ db.deliveries, row.id < db.fresh ∧ row.jobId < db.fresh
  keyed : ∀ job ∈ db.jobs, Keyed db job.key job.payload
  delivery : ∀ job ∈ db.jobs, ∀ payload, job.payload = .delivery payload →
    ∃ row ∈ db.deliveries, row.Matches payload ∧ row.jobId = job.id

variable {db db' : Database} {event : NotificationOutboxEvent} {audienceAt : Nat}
  {recipient : NotificationRecipient}

variable {key : DeduplicationKey}

theorem Keyed.mono {payload : Payload} (hsub : ∀ event ∈ db.told, event ∈ db'.told) (h : Keyed db key payload) :
    Keyed db' key payload := by
  cases key <;> cases payload <;> simp only [Keyed] at h ⊢
  · obtain ⟨huser, event, hevent, h⟩ := h
    exact ⟨huser, event, hsub event hevent, h⟩
  · obtain ⟨huser, hid, event, hevent, h⟩ := h
    exact ⟨huser, hid, event, hsub event hevent, h⟩
  · obtain ⟨hid, hafter, event, hevent, h⟩ := h
    exact ⟨hid, hafter, event, hsub event hevent, h⟩

theorem Database.Sound.event_unique (sound : db.Sound) {event other : NotificationOutboxEvent}
    (hevent : event ∈ db.told) (hother : other ∈ db.told) (hid : event.id = other.id) : event = other :=
  inj_on_of_nodup_map sound.eventIds hevent hother hid

theorem Database.Sound.job_unique (sound : db.Sound) {job other : Job} (hjob : job ∈ db.jobs)
    (hother : other ∈ db.jobs) (hid : job.id = other.id) : job = other :=
  inj_on_of_nodup_map sound.jobIds hjob hother hid

theorem Database.Sound.event_iff (sound : db.Sound) {id : Nat} :
    db.event id = some event ↔ event ∈ db.told ∧ event.id = id :=
  Table.get_eq_some_iff _ sound.eventIds

/-- The payload that a recipient of this event gets. -/
def deliveryPayload (event : NotificationOutboxEvent) (recipient : NotificationRecipient)
    (deliveryId : Nat) : DeliveryPayload :=
  { deliveryId
    eventId := event.id
    userId := recipient.userId
    category := recipient.category
    channels := recipient.channels }

/-- The job of a recipient after the event has reached it. -/
inductive Enqueued (event : NotificationOutboxEvent) (audienceAt : Nat)
    (recipient : NotificationRecipient) (db : Database) : Database → Prop where
  | kept (job : Job) (current : DeliveryPayload) (mem : job ∈ db.jobs)
      (key : job.key = recipientKey event recipient audienceAt)
      (holds : job.payload = .delivery current)
      (settled : current.eventId = event.id ∨ (aggregated event recipient = true
        ∧ (job.state = .pending → ∃ previous ∈ db.told, previous.id = current.eventId ∧ ¬ event.After previous))) :
      Enqueued event audienceAt recipient db db
  | added (nextRunAt : Nat)
      (new : ∀ job ∈ db.jobs, job.key ≠ recipientKey event recipient audienceAt) :
      Enqueued event audienceAt recipient db
        { db with
          jobs := db.jobs ++
            [{ id := db.fresh
               key := recipientKey event recipient audienceAt
               payload := .delivery (deliveryPayload event recipient db.fresh)
               state := .pending
               nextRunAt }]
          deliveries := db.deliveries ++ [⟨db.fresh, event.id, recipient.userId, db.fresh, false⟩]
          fresh := db.fresh + 1 }
  | rewritten (job : Job) (current : DeliveryPayload) (previous : NotificationOutboxEvent)
      (mem : job ∈ db.jobs) (key : job.key = recipientKey event recipient audienceAt)
      (holds : job.payload = .delivery current) (pending : job.state = .pending)
      (shared : aggregated event recipient = true) (told : previous ∈ db.told)
      (previousId : previous.id = current.eventId) (later : event.After previous) :
      Enqueued event audienceAt recipient db
        { db with
          jobs := Table.replace Job.id
            { job with
              payload := .delivery (deliveryPayload event recipient current.deliveryId) } db.jobs
          deliveries := Table.updateWhere (fun row => row.id = current.deliveryId)
            (fun row => { row with eventId := event.id }) db.deliveries }

theorem insertDelivery_merges {row old : DeliveryRow} (h : insertDelivery db row = .ok db')
    (hold : old ∈ db.deliveries) (hid : old.id = row.id) :
    db' = { db with
      deliveries := Table.updateWhere (fun other => other.id = row.id)
        (fun other => { other with eventId := row.eventId }) db.deliveries } := by
  unfold insertDelivery at h
  split at h
  · cases h
  · rw [if_pos ⟨old, hold, hid⟩] at h
    cases h
    rfl

theorem insertDelivery_adds {row : DeliveryRow} (h : insertDelivery db row = .ok db')
    (hnew : ∀ other ∈ db.deliveries, other.id ≠ row.id) : db' = { db with deliveries := db.deliveries ++ [row] } := by
  unfold insertDelivery at h
  split at h
  · cases h
  · rw [if_neg (by rintro ⟨other, hother, hid⟩; exact hnew other hother hid)] at h
    cases h
    rfl

/-- Merging the event that the row has already. -/
theorem merge_same {row : DeliveryRow} (sound : db.Sound) (hrow : row ∈ db.deliveries) :
    Table.updateWhere (fun other => other.id = row.id)
      (fun other => { other with eventId := row.eventId }) db.deliveries = db.deliveries := by
  rw [Table.updateWhere]
  conv_rhs => rw [← map_id db.deliveries]
  refine map_congr_left fun other hother => ?_
  dsimp only [id_eq]
  split
  · rename_i hid
    have heq : other = row := inj_on_of_nodup_map sound.deliveryIds hother hrow (of_decide_eq_true hid)
    rw [heq]
  · rfl

theorem enqueue_some {payload : Payload} {nextRunAt : Nat} {job : Job} (h : db.job key = some job) :
    enqueue db key payload nextRunAt = db := by
  simp [enqueue, h]

theorem enqueue_none {payload : Payload} {nextRunAt : Nat} (h : db.job key = none) :
    enqueue db key payload nextRunAt =
      { db with
        jobs := db.jobs ++ [{ id := db.fresh, key, payload, state := .pending, nextRunAt }]
        fresh := db.fresh + 1 } := by
  simp [enqueue, h]

theorem job_none (h : db.job key = none) : ∀ job ∈ db.jobs, job.key ≠ key := by
  intro job hjob
  simpa using find?_eq_none.mp h job hjob

theorem joinBucket_ok {job : Job} {payload current : DeliveryPayload} {selected : Nat}
    (sound : db.Sound) (hjob : job ∈ db.jobs)
    (h : joinBucket db event payload job current = .ok (db', selected)) :
    (db' = db ∧ selected = current.eventId ∧ (current.eventId = event.id ∨
        (job.state = .pending → ∃ previous ∈ db.told, previous.id = current.eventId ∧ ¬ event.After previous)))
      ∨ (job.state = .pending ∧ selected = event.id
        ∧ (∃ previous ∈ db.told, previous.id = current.eventId ∧ event.After previous)
        ∧ db' = { db with
            jobs := Table.replace Job.id
              { job with payload := .delivery { payload with deliveryId := current.deliveryId } }
              db.jobs }) := by
  unfold joinBucket at h
  split at h
  · rename_i hjoin
    split at h
    · cases h
    · rename_i previous hprevious
      obtain ⟨hmem, hid⟩ := sound.event_iff.mp hprevious
      split at h
      · rename_i hafter
        cases h
        refine .inr ⟨hjoin.2, rfl, ⟨previous, hmem, hid, hafter⟩, ?_⟩
        rw [Table.updateWhere_eq_replace Job.id sound.jobIds hjob]
        · simp [hjoin.2]
        · intro row hrow
          exact (of_decide_eq_true hrow).1
        · rfl
      · rename_i hafter
        cases h
        exact .inl ⟨rfl, rfl, .inr fun _ => ⟨previous, hmem, hid, hafter⟩⟩
  · rename_i hjoin
    cases h
    refine .inl ⟨rfl, rfl, ?_⟩
    by_cases hid : current.eventId = event.id
    · exact .inl hid
    · exact .inr fun hpending => absurd ⟨hid, hpending⟩ hjoin

theorem enqueueRecipient_ok (sound : db.Sound) (h : enqueueRecipient event audienceAt db recipient = .ok db') :
    Enqueued event audienceAt recipient db db' := by
  unfold enqueueRecipient at h
  dsimp only at h
  cases hjob : db.job (recipientKey event recipient audienceAt) with
  | none =>
    have hnew := job_none hjob
    have hget : ∀ job : Job, job.key = recipientKey event recipient audienceAt →
        Table.get Job.key (db.jobs ++ [job]) (recipientKey event recipient audienceAt) = some job := by
      intro job hkey
      rw [Table.get_append, show Table.get Job.key db.jobs _ = none from hjob]
      simp [Table.get, hkey]
    rw [enqueue_none hjob] at h
    rw [Database.job, hget _ rfl] at h
    dsimp only at h
    have hfresh : ∀ other ∈ db.deliveries, other.id ≠ db.fresh := by
      intro other hother
      have := (sound.usedDeliveries other hother).1
      omega
    split at h
    · obtain ⟨⟨mid, selected⟩, hmid, h⟩ := bind_ok h
      simp only [joinBucket, ne_eq, not_true_eq_false, false_and, if_false] at hmid
      cases hmid
      obtain rfl := insertDelivery_adds h hfresh
      exact .added _ hnew
    · obtain ⟨⟨mid, selected⟩, hmid, h⟩ := bind_ok h
      cases hmid
      obtain rfl := insertDelivery_adds h hfresh
      exact .added _ hnew
  | some job =>
    obtain ⟨hmem, hkey⟩ := Table.get_mem Job.key hjob
    rw [enqueue_some hjob, hjob] at h
    dsimp only at h
    split at h
    · cases h
    · rename_i current hpayload
      obtain ⟨row, hrow, ⟨hid, heventId, huserId⟩, hrowJob⟩ := sound.delivery job hmem current hpayload
      split at h
      · rename_i hshared
        obtain ⟨⟨mid, selected⟩, hmid, h⟩ := bind_ok h
        obtain ⟨rfl, rfl, hsettled⟩ | ⟨hpending, rfl, ⟨previous, htold, hpid, hafter⟩, rfl⟩ :=
          joinBucket_ok sound hmem hmid
        · obtain rfl := insertDelivery_merges h hrow hid
          have hsame := merge_same sound hrow
          rw [hid, heventId] at hsame
          dsimp only
          rw [hsame]
          exact .kept job current hmem hkey hpayload (hsettled.imp_right fun hs => ⟨hshared, hs⟩)
        · obtain rfl := insertDelivery_merges h hrow hid
          exact .rewritten job current previous hmem hkey hpayload hpending hshared htold hpid
            hafter
      · rename_i hshared
        obtain ⟨⟨mid, selected⟩, hmid, h⟩ := bind_ok h
        cases hmid
        have hown : current.eventId = event.id := by
          have hkeyed := sound.keyed job hmem
          rw [hkey, hpayload, recipientKey, if_neg hshared] at hkeyed
          exact hkeyed.2.1
        obtain rfl := insertDelivery_merges h hrow hid
        have hsame := merge_same sound hrow
        rw [hid, heventId, hown] at hsame
        dsimp only
        rw [hsame]
        exact .kept job current hmem hkey hpayload (.inl hown)

/-! ## A sound database stays sound -/

theorem nodup_snoc {α β : Type} {f : α → β} {l : List α} {a : α} (h : (l.map f).Nodup)
    (hnew : ∀ x ∈ l, f x ≠ f a) : ((l ++ [a]).map f).Nodup := by
  rw [map_append, map_singleton, nodup_append]
  refine ⟨h, by simp, ?_⟩
  intro x hx y hy
  obtain ⟨z, hz, rfl⟩ := mem_map.mp hx
  rw [mem_singleton] at hy
  rw [hy]
  exact hnew z hz

theorem Database.Sound.payload_keys (sound : db.Sound) {job : Job} (hjob : job ∈ db.jobs) (payload : Payload) :
    (Table.replace Job.id { job with payload } db.jobs).map Job.key = db.jobs.map Job.key :=
  Table.map_replace_of_mem Job.id Job.key sound.jobIds hjob rfl rfl

/-- The delivery of a job is no other job's. -/
theorem Database.Sound.delivery_unique (sound : db.Sound) {job other : Job} (hjob : job ∈ db.jobs)
    (hother : other ∈ db.jobs) {row row' : DeliveryRow} (hrow : row ∈ db.deliveries) (hrow' : row' ∈ db.deliveries)
    (hid : row.id = row'.id) (hjobId : row.jobId = job.id) (hotherId : row'.jobId = other.id) : job = other := by
  obtain rfl := inj_on_of_nodup_map sound.deliveryIds hrow hrow' hid
  exact sound.job_unique hjob hother (hjobId.symm.trans hotherId)

theorem shared_key (audienceAt : Nat) (h : aggregated event recipient = true) :
    event.type = .updated ∧ recipientKey event recipient audienceAt =
      .pageWatchUpdate recipient.userId recipient.pageId (bucketStart audienceAt) := by
  refine ⟨(of_decide_eq_true h).1, ?_⟩
  rw [recipientKey, if_pos h]

/-- The job under a recipient's key delivers to the recipient. -/
theorem Database.Sound.keyed_user (sound : db.Sound) {job : Job} {current : DeliveryPayload}
    (hjob : job ∈ db.jobs) (hkey : job.key = recipientKey event recipient audienceAt)
    (hpayload : job.payload = .delivery current) : current.userId = recipient.userId := by
  have hkeyed := sound.keyed job hjob
  rw [hkey, hpayload, recipientKey] at hkeyed
  split at hkeyed
  · exact hkeyed.1
  · exact hkeyed.1

theorem Enqueued.sound (h : Enqueued event audienceAt recipient db db') (hevent : event ∈ db.told)
    (hpage : recipient.pageId = event.pageId) (sound : db.Sound) : db'.Sound := by
  cases h with
  | kept => exact sound
  | added nextRunAt new =>
    have htold : ∀ told ∈ db.told, told ∈ db.told := fun _ h => h
    refine ⟨sound.eventIds, ?_, ?_, ?_, ?_, ?_, ?_, ?_, ?_⟩
    · refine nodup_snoc sound.jobIds fun job hjob => ?_
      exact Nat.ne_of_lt (sound.used job hjob)
    · exact nodup_snoc sound.jobKeys new
    · refine nodup_snoc sound.deliveryIds fun row hrow => ?_
      exact Nat.ne_of_lt (sound.usedDeliveries row hrow).1
    · refine nodup_snoc sound.deliveryJobs fun row hrow => ?_
      exact Nat.ne_of_lt (sound.usedDeliveries row hrow).2
    · intro job hjob
      obtain hjob | hjob := mem_append.mp hjob
      · exact Nat.lt_succ_of_lt (sound.used job hjob)
      · rw [mem_singleton.mp hjob]
        exact Nat.lt_succ_self _
    · intro row hrow
      obtain hrow | hrow := mem_append.mp hrow
      · have := sound.usedDeliveries row hrow
        exact ⟨Nat.lt_succ_of_lt this.1, Nat.lt_succ_of_lt this.2⟩
      · rw [mem_singleton.mp hrow]
        exact ⟨Nat.lt_succ_self _, Nat.lt_succ_self _⟩
    · intro job hjob
      obtain hjob | hjob := mem_append.mp hjob
      · exact Keyed.mono htold (sound.keyed job hjob)
      · rw [mem_singleton.mp hjob]
        by_cases hshared : aggregated event recipient = true
        · obtain ⟨htype, hkey⟩ := shared_key audienceAt hshared
          dsimp only
          rw [hkey]
          exact ⟨rfl, event, hevent, rfl, htype, hpage.symm⟩
        · dsimp only
          rw [recipientKey, if_neg hshared]
          exact ⟨rfl, rfl, event, hevent, rfl⟩
    · intro job hjob payload hpayload
      obtain hjob | hjob := mem_append.mp hjob
      · obtain ⟨row, hrow, h⟩ := sound.delivery job hjob payload hpayload
        exact ⟨row, mem_append_left _ hrow, h⟩
      · rw [mem_singleton.mp hjob] at hpayload ⊢
        cases hpayload
        exact ⟨_, mem_append_right _ (mem_singleton_self _), ⟨rfl, rfl, rfl⟩, rfl⟩
  | rewritten job current previous mem key holds pending shared told previousId later =>
    obtain ⟨htype, hkey⟩ := shared_key audienceAt shared
    obtain ⟨own, hown, howns, hownJob⟩ := sound.delivery job mem current holds
    refine ⟨sound.eventIds, ?_, ?_, ?_, ?_, ?_, ?_, ?_, ?_⟩
    · rw [Table.map_replace]
      exact sound.jobIds
    · exact (sound.payload_keys mem _).symm ▸ sound.jobKeys
    · rw [Table.map_updateWhere]
      · exact sound.deliveryIds
      · exact fun _ => rfl
    · rw [Table.map_updateWhere]
      · exact sound.deliveryJobs
      · exact fun _ => rfl
    · intro other hother
      obtain rfl | ⟨hother, -⟩ := Table.mem_replace Job.id hother
      · exact sound.used job mem
      · exact sound.used other hother
    · exact Table.forall_updateWhere sound.usedDeliveries fun row _ _ hrow => hrow
    · intro other hother
      obtain rfl | ⟨hother, -⟩ := Table.mem_replace Job.id hother
      · dsimp only
        rw [key, hkey]
        exact ⟨rfl, event, hevent, rfl, htype, hpage.symm⟩
      · exact Keyed.mono (fun _ h => h) (sound.keyed other hother)
    · intro other hother payload hpayload
      obtain rfl | ⟨hother, hne⟩ := Table.mem_replace Job.id hother
      · cases hpayload
        refine ⟨{ own with eventId := event.id }, ?_, ⟨howns.1, rfl, ?_⟩, hownJob⟩
        · refine Table.mem_updateWhere.mpr ⟨own, hown, ?_⟩
          simp [howns.1]
        · exact howns.2.2.trans (sound.keyed_user mem key holds)
      · obtain ⟨row, hrow, hrows, hrowJob⟩ := sound.delivery other hother payload hpayload
        refine ⟨row, Table.mem_updateWhere.mpr ⟨row, hrow, if_neg ?_⟩, hrows, hrowJob⟩
        intro hid
        have hid := of_decide_eq_true hid
        have heq := sound.delivery_unique mem hother hown hrow (howns.1.trans hid.symm) hownJob
          hrowJob
        exact hne (by rw [heq])

theorem Database.Sound.enqueueAudience (sound : db.Sound) (hevent : event ∈ db.told)
    (afterUserId nextRunAt : Nat) :
    (enqueue db (.notificationAudience event.id afterUserId)
      (.audience event.id afterUserId audienceAt) nextRunAt).Sound := by
  cases hjob : db.job (.notificationAudience event.id afterUserId) with
  | some job =>
    rw [enqueue_some hjob]
    exact sound
  | none =>
    rw [enqueue_none hjob]
    refine ⟨sound.eventIds, ?_, ?_, sound.deliveryIds, sound.deliveryJobs, ?_, ?_, ?_, ?_⟩
    · refine nodup_snoc sound.jobIds fun job hjob => ?_
      exact Nat.ne_of_lt (sound.used job hjob)
    · exact nodup_snoc sound.jobKeys (job_none hjob)
    · intro job hjob
      obtain hjob | hjob := mem_append.mp hjob
      · exact Nat.lt_succ_of_lt (sound.used job hjob)
      · rw [mem_singleton.mp hjob]
        exact Nat.lt_succ_self _
    · intro row hrow
      have := sound.usedDeliveries row hrow
      exact ⟨Nat.lt_succ_of_lt this.1, Nat.lt_succ_of_lt this.2⟩
    · intro job hjob
      obtain hjob | hjob := mem_append.mp hjob
      · exact Keyed.mono (fun _ h => h) (sound.keyed job hjob)
      · rw [mem_singleton.mp hjob]
        exact ⟨rfl, rfl, event, hevent, rfl⟩
    · intro job hjob payload hpayload
      obtain hjob | hjob := mem_append.mp hjob
      · exact sound.delivery job hjob payload hpayload
      · rw [mem_singleton.mp hjob] at hpayload
        cases hpayload

/-! ## What enqueueing leaves -/

/-- Jobs that are no longer pending, deliveries that were made and keys that were taken stay. -/
structure Calm (db db' : Database) : Prop where
  told : db'.told = db.told
  inbox : db'.inbox = db.inbox
  readers : db'.readers = db.readers
  clock : db'.clock = db.clock
  preferences : db'.preferences = db.preferences
  events : db'.events = db.events
  fresh : db.fresh ≤ db'.fresh
  jobs : ∀ job ∈ db'.jobs, job.state ≠ .pending → job ∈ db.jobs
  keys : ∀ job ∈ db.jobs, ∃ job' ∈ db'.jobs, job'.key = job.key
  delivered : ∀ row ∈ db.deliveries, row.delivered = true →
    ∃ row' ∈ db'.deliveries, row'.jobId = row.jobId ∧ row'.delivered = true
  watchers : ∀ row ∈ db'.watchers, row ∈ db.watchers

theorem Calm.refl (db : Database) : Calm db db :=
  ⟨rfl, rfl, rfl, rfl, rfl, rfl, le_rfl, fun _ h _ => h, fun job h => ⟨job, h, rfl⟩,
    fun row h hd => ⟨row, h, rfl, hd⟩, fun _ h => h⟩

theorem Calm.trans {db'' : Database} (h : Calm db db') (h' : Calm db' db'') : Calm db db'' := by
  refine ⟨h'.told.trans h.told, h'.inbox.trans h.inbox, h'.readers.trans h.readers,
    h'.clock.trans h.clock, h'.preferences.trans h.preferences, h'.events.trans h.events,
    h.fresh.trans h'.fresh, ?_, ?_, ?_, fun row hrow => h.watchers row (h'.watchers row hrow)⟩
  · intro job hjob hstate
    exact h.jobs job (h'.jobs job hjob hstate) hstate
  · intro job hjob
    obtain ⟨job', hjob', hkey⟩ := h.keys job hjob
    obtain ⟨job'', hjob'', hkey'⟩ := h'.keys job' hjob'
    exact ⟨job'', hjob'', hkey'.trans hkey⟩
  · intro row hrow hdelivered
    obtain ⟨row', hrow', hid, hdelivered'⟩ := h.delivered row hrow hdelivered
    obtain ⟨row'', hrow'', hid', hdelivered''⟩ := h'.delivered row' hrow' hdelivered'
    exact ⟨row'', hrow'', hid'.trans hid, hdelivered''⟩

theorem Enqueued.calm (h : Enqueued event audienceAt recipient db db') (sound : db.Sound) : Calm db db' := by
  cases h with
  | kept => exact Calm.refl db
  | added nextRunAt new =>
    refine ⟨rfl, rfl, rfl, rfl, rfl, rfl, Nat.le_succ _, ?_, ?_, ?_, fun _ h => h⟩
    · intro job hjob hstate
      obtain hjob | hjob := mem_append.mp hjob
      · exact hjob
      · rw [mem_singleton.mp hjob] at hstate
        exact absurd rfl hstate
    · intro job hjob
      exact ⟨job, mem_append_left _ hjob, rfl⟩
    · intro row hrow hdelivered
      exact ⟨row, mem_append_left _ hrow, rfl, hdelivered⟩
  | rewritten job current previous mem key holds pending shared told previousId later =>
    refine ⟨rfl, rfl, rfl, rfl, rfl, rfl, le_rfl, ?_, ?_, ?_, fun _ h => h⟩
    · intro other hother hstate
      obtain rfl | ⟨hother, -⟩ := Table.mem_replace Job.id hother
      · exact absurd pending hstate
      · exact hother
    · intro other hother
      have hin : other.key ∈ db.jobs.map Job.key := mem_map_of_mem hother
      rw [← sound.payload_keys mem (.delivery (deliveryPayload event recipient current.deliveryId))]
        at hin
      exact mem_map.mp hin
    · intro row hrow hdelivered
      by_cases hid : row.id = current.deliveryId
      · exact ⟨{ row with eventId := event.id }, Table.mem_updateWhere.mpr ⟨row, hrow, by simp [hid]⟩, rfl, hdelivered⟩
      · exact ⟨row, Table.mem_updateWhere.mpr ⟨row, hrow, by simp [hid]⟩, rfl, hdelivered⟩

theorem enqueue_calm (key : DeduplicationKey) (payload : Payload) (nextRunAt : Nat) :
    Calm db (enqueue db key payload nextRunAt) := by
  cases hjob : db.job key with
  | some job =>
    rw [enqueue_some hjob]
    exact Calm.refl db
  | none =>
    rw [enqueue_none hjob]
    refine ⟨rfl, rfl, rfl, rfl, rfl, rfl, Nat.le_succ _, ?_, ?_, ?_, fun _ h => h⟩
    · intro job hjob hstate
      obtain hjob | hjob := mem_append.mp hjob
      · exact hjob
      · rw [mem_singleton.mp hjob] at hstate
        exact absurd rfl hstate
    · intro job hjob
      exact ⟨job, mem_append_left _ hjob, rfl⟩
    · intro row hrow hdelivered
      exact ⟨row, hrow, rfl, hdelivered⟩

end TsEpistle.Notifications
