import TsEpistle.Notifications.Audience

/-! What one operation can do, and the leases of jobs: the worker that holds a job has its
payload, and a job succeeds only after its delivery is marked or its page is visited. -/

namespace TsEpistle.Notifications
open Library List

/-! ## Steps -/

/-- What one action of a worker does. -/
inductive Worked (worker : Worker) (s : State) : Action → State → Prop where
  | idle {action : Action} : Worked worker s action s
  | paged (event : NotificationOutboxEvent) (afterUserId audienceAt : Nat)
      (discussion : Discussion) (db : Database) (started : worker.phase = .started)
      (payload : worker.payload = .audience event.id afterUserId audienceAt)
      (told : event ∈ s.db.told)
      (paged : Paged event afterUserId audienceAt discussion s.db db) :
      Worked worker s (.audience discussion)
        (State.goto
          { s with
            db
            visits := s.visits ++ [⟨event.id, afterUserId, candidates s.db event discussion⟩] }
          worker.leaseToken .finished)
  | orphaned {action : Action} (eventId afterUserId audienceAt : Nat)
      (payload : worker.payload = .audience eventId afterUserId audienceAt)
      (gone : ∀ event ∈ s.db.told, event.id ≠ eventId) :
      Worked worker s action (s.goto worker.leaseToken .finished)
  | threw {action : Action} : Worked worker s action (s.goto worker.leaseToken .threw)
  | found {action : Action} : Worked worker s action (s.goto worker.leaseToken .found)
  | settledBefore {action : Action} (payload : DeliveryPayload)
      (holds : worker.payload = .delivery payload)
      (none : ∀ row ∈ s.db.deliveries, row.Matches payload → row.delivered = true) :
      Worked worker s action (s.goto worker.leaseToken .finished)
  | refused (payload : DeliveryPayload) (event : NotificationOutboxEvent)
      (circumstances : Circumstances) (holds : worker.payload = .delivery payload)
      (told : event ∈ s.db.told) (id : event.id = payload.eventId)
      (verdict : verdict s.db event payload circumstances = .refused) :
      Worked worker s (.check circumstances) (s.goto worker.leaseToken .refused)
  | unreadable (payload : DeliveryPayload) (event : NotificationOutboxEvent)
      (circumstances : Circumstances) (holds : worker.payload = .delivery payload)
      (told : event ∈ s.db.told) (id : event.id = payload.eventId)
      (verdict : verdict s.db event payload circumstances = .unreadable) :
      Worked worker s (.check circumstances)
        (State.goto { s with db := purgeRecipientPage s.db event.pageId payload.userId } worker.leaseToken .refused)
  | cleared (payload : DeliveryPayload) (event : NotificationOutboxEvent)
      (circumstances : Circumstances) (inAppEnabled : Bool)
      (holds : worker.payload = .delivery payload)
      (told : event ∈ s.db.told) (id : event.id = payload.eventId)
      (verdict : verdict s.db event payload circumstances = .cleared inAppEnabled) :
      Worked worker s (.check circumstances)
        (State.goto
          { s with clearances := s.clearances ++ [⟨event.id, payload.userId, s.db.readers⟩] }
          worker.leaseToken (.cleared inAppEnabled))
  | inserted (payload : DeliveryPayload) (event : NotificationOutboxEvent) (inAppEnabled : Bool)
      (holds : worker.payload = .delivery payload) (phase : worker.phase = .cleared inAppEnabled)
      (told : event ∈ s.db.told) (id : event.id = payload.eventId) :
      Worked worker s .insert
        (State.goto
          { s with
            db :=
              if inAppEnabled then
                insertNotification s.db ⟨event.id, payload.userId, event.pageId⟩
              else s.db }
          worker.leaseToken .inserted)
  | settled (payload : DeliveryPayload) (holds : worker.payload = .delivery payload)
      (phase : worker.phase = .refused ∨ worker.phase = .inserted) :
      Worked worker s .settle
        (State.goto { s with db := markDelivered s.db payload } worker.leaseToken .finished)
  | completed (finished : worker.phase = .finished) :
      Worked worker s .complete
        { s with db := updateHeld s.db worker fun job => { job with state := .succeeded } }
  | failed (retryDelay : Nat) :
      Worked worker s (.fail retryDelay)
        { s with
          db := updateHeld s.db worker fun job =>
            { job with
              state := .pending
              nextRunAt := s.db.clock + retryDelay } }

variable {worker : Worker}

theorem work_ok {s : State} (sound : s.db.Sound) (action : Action) : Worked worker s action (work s worker action) := by
  have hevent : ∀ {event id}, s.db.event id = some event → event ∈ s.db.told ∧ event.id = id := sound.event_iff.mp
  cases action with
  | audience discussion =>
    unfold work
    dsimp only
    split
    · rename_i eventId afterUserId audienceAt hphase hpayload
      unfold workAudience
      split
      · rename_i hgone
        refine .orphaned _ _ _ hpayload fun event htold hid => ?_
        rw [sound.event_iff.mpr ⟨htold, hid⟩] at hgone
        cases hgone
      · rename_i event hsome
        obtain ⟨htold, rfl⟩ := hevent hsome
        split
        · exact .threw
        · rename_i db hdb
          exact .paged event _ _ discussion db hphase hpayload htold
            (enqueueNotificationAudience_ok sound htold hdb)
    · exact .idle
  | find =>
    unfold work
    dsimp only
    split
    · rename_i payload hphase hpayload
      split
      · exact .found
      · rename_i hnone
        refine .settledBefore payload hpayload fun row hrow hmatches => ?_
        by_contra hdelivered
        exact hnone ⟨row, hrow, hmatches, by simpa using hdelivered⟩
    · exact .idle
  | check circumstances =>
    unfold work
    dsimp only
    split
    · rename_i payload hphase hpayload
      unfold workCheck
      split
      · exact .threw
      · rename_i event hsome
        obtain ⟨htold, hid⟩ := hevent hsome
        split
        · rename_i hverdict
          exact .refused payload event circumstances hpayload htold hid hverdict
        · rename_i hverdict
          exact .unreadable payload event circumstances hpayload htold hid hverdict
        · rename_i inAppEnabled hverdict
          exact .cleared payload event circumstances inAppEnabled hpayload htold hid hverdict
    · exact .idle
  | insert =>
    unfold work
    dsimp only
    split
    · rename_i inAppEnabled payload hphase hpayload
      unfold workInsert
      split
      · exact .threw
      · rename_i event hsome
        obtain ⟨htold, hid⟩ := hevent hsome
        exact .inserted payload event inAppEnabled hpayload hphase htold hid
    · exact .idle
  | settle =>
    unfold work
    dsimp only
    split
    · rename_i payload hphase hpayload
      exact .settled payload hpayload (.inl hphase)
    · rename_i payload hphase hpayload
      exact .settled payload hpayload (.inr hphase)
    · exact .idle
  | throw =>
    unfold work
    dsimp only
    split
    · exact .idle
    · exact .threw
  | complete =>
    unfold work
    dsimp only
    split
    · rename_i hphase
      exact .completed hphase
    · exact .idle
  | fail retryDelay =>
    unfold work
    dsimp only
    split
    · exact .failed retryDelay
    · exact .idle

/-- What one operation does. -/
inductive Step (s : State) : Op → State → Prop where
  | idle {op : Op} : Step s op s
  | around {op : Op} (db : Database) (jobs : db.jobs = s.db.jobs)
      (deliveries : db.deliveries = s.db.deliveries) (inbox : db.inbox = s.db.inbox)
      (fresh : db.fresh = s.db.fresh) (events : db.events = s.db.events)
      (watchers : ∀ row ∈ db.watchers, row ∈ s.db.watchers ∨ (0 < row.userId ∧ row.userId ≠ 2)) :
      Step s op { s with db }
  | written (event : NotificationOutboxEvent)
      (new : event.id ∉ s.db.told.map NotificationOutboxEvent.id) :
      Step s (.write event)
        { s with db := { s.db with events := s.db.events ++ [⟨event, false⟩] } }
  | published (event : NotificationOutboxEvent) (now : Nat) (discussion : Discussion)
      (reached : Database) (visits : List Visit) (unpublished : ⟨event, false⟩ ∈ s.db.events)
      (paged : (event.type = .other ∧ reached = s.db ∧ visits = s.visits)
        ∨ (event.type ≠ .other ∧ Paged event 0 now discussion s.db reached
          ∧ visits = s.visits ++ [⟨event.id, 0, candidates s.db event discussion⟩])) :
      Step s (.publish event.id now discussion)
        { s with
          db := { reached with
            events := Table.updateWhere
              (fun row => row.event.id = event.id ∧ row.published = false)
              (fun row => { row with published := true }) reached.events }
          visits }
  | claimed (job : Job) (mem : job ∈ s.db.jobs) (claimable : job.claimable s.db.clock) :
      Step s (.claim job.id) (claim s job)
  | worked (worker : Worker) (action : Action) (s' : State) (mem : worker ∈ s.workers)
      (worked : Worked worker s action s') : Step s (.work worker.leaseToken action) s'

theorem exec_ok {op : Op} {s : State} (sound : s.db.Sound) (h : enabled op s) : Step s op (exec op s) := by
  cases op with
  | write event => exact .written event h
  | publish eventId now discussion =>
    unfold exec
    dsimp only
    split
    · exact .idle
    · rename_i row hrow
      have hmem := mem_of_find?_eq_some hrow
      have hfound := find?_some hrow
      obtain ⟨event, published⟩ := row
      obtain ⟨rfl, rfl⟩ : event.id = eventId ∧ published = false := of_decide_eq_true hfound
      have htold : event ∈ s.db.told := mem_map_of_mem hmem
      unfold publish
      split
      · exact .idle
      · rename_i db hdb
        unfold publishOutboxEvent at hdb
        by_cases hother : event.type = .other
        · rw [if_pos hother] at hdb
          cases hdb
          rw [if_pos hother]
          exact .published event now discussion s.db _ hmem (.inl ⟨hother, rfl, rfl⟩)
        · rw [if_neg hother] at hdb
          obtain ⟨reached, hreached, hdb⟩ := Checked.bind_ok hdb
          cases hdb
          rw [if_neg hother]
          exact .published event now discussion reached _ hmem
            (.inr ⟨hother, enqueueNotificationAudience_ok sound htold hreached, rfl⟩)
  | watch row =>
    refine .around _ rfl rfl rfl rfl rfl fun other hother => ?_
    obtain hother | hother := mem_append.mp hother
    · exact .inl (mem_of_mem_filter hother)
    · rw [mem_singleton.mp hother]
      exact .inr h
  | unwatch pageId userId =>
    exact .around _ rfl rfl rfl rfl rfl fun _ h => .inl (mem_of_mem_filter h)
  | prefer | allow | withdraw | tick => exact .around _ rfl rfl rfl rfl rfl fun _ h => .inl h
  | claim jobId =>
    unfold exec
    dsimp only
    split
    · exact .idle
    · rename_i job hjob
      obtain ⟨hmem, rfl⟩ := Table.get_mem Job.id hjob
      split
      · rename_i hclaimable
        exact .claimed job hmem hclaimable
      · exact .idle
  | work leaseToken action =>
    unfold exec
    dsimp only
    split
    · exact .idle
    · rename_i worker hworker
      obtain ⟨hmem, rfl⟩ := Table.get_mem Worker.leaseToken hworker
      exact .worked worker action _ hmem (work_ok sound action)

/-! ## Leases -/

/-- What a job asks for has been done: its delivery is marked, or its page is visited. -/
def State.Done (s : State) (job : Job) : Prop :=
  match job.payload with
  | .delivery _ => ∃ row ∈ s.db.deliveries, row.jobId = job.id ∧ row.delivered = true
  | .audience eventId afterUserId _ =>
    ∃ visit ∈ s.visits, visit.eventId = eventId ∧ visit.afterUserId = afterUserId

structure Leased (s : State) : Prop where
  sound : s.db.Sound
  tokens : (s.workers.map Worker.leaseToken).Nodup
  used : ∀ worker ∈ s.workers, worker.leaseToken < s.db.fresh
  held : ∀ job ∈ s.db.jobs, ∀ leaseToken, job.state = .running leaseToken →
    ∃ worker ∈ s.workers, worker.leaseToken = leaseToken ∧ worker.jobId = job.id ∧ worker.payload = job.payload
  succeeded : ∀ job ∈ s.db.jobs, job.state = .succeeded → s.Done job
  finished : ∀ job ∈ s.db.jobs, ∀ worker ∈ s.workers,
    job.state = .running worker.leaseToken → worker.phase = .finished → s.Done job

variable {s s' : State} {db : Database}

theorem Leased.initial (h : Initial s) : Leased s := by
  have htold : s.db.told = [] := by rw [Database.told, h.events, map_nil]
  refine ⟨⟨?_, ?_, ?_, ?_, ?_, ?_, ?_, ?_, ?_⟩, ?_, ?_, ?_, ?_, ?_⟩ <;>
    simp [htold, h.jobs, h.deliveries, h.workers]

/-- The worker of a job that is running. -/
theorem Leased.holder (leased : Leased s) {job : Job} (hjob : job ∈ s.db.jobs) (hworker : worker ∈ s.workers)
    (hstate : job.state = .running worker.leaseToken) : worker.jobId = job.id ∧ worker.payload = job.payload := by
  obtain ⟨other, hother, htoken, hid, hpayload⟩ := leased.held job hjob _ hstate
  obtain rfl := inj_on_of_nodup_map leased.tokens hother hworker htoken
  exact ⟨hid, hpayload⟩

theorem State.Done.mono {job : Job} (h : s.Done job)
    (hdelivered : ∀ row ∈ s.db.deliveries, row.delivered = true →
      ∃ row' ∈ s'.db.deliveries, row'.jobId = row.jobId ∧ row'.delivered = true)
    (hvisits : ∀ visit ∈ s.visits, visit ∈ s'.visits) : s'.Done job := by
  unfold State.Done at h ⊢
  split
  · rename_i payload hpayload
    rw [hpayload] at h
    obtain ⟨row, hrow, hid, hdone⟩ := h
    obtain ⟨row', hrow', hid', hdone'⟩ := hdelivered row hrow hdone
    exact ⟨row', hrow', hid'.trans hid, hdone'⟩
  · rename_i eventId afterUserId audienceAt hpayload
    rw [hpayload] at h
    obtain ⟨visit, hvisit, h⟩ := h
    exact ⟨visit, hvisits visit hvisit, h⟩

/-- Nothing happens to the jobs that are no longer pending. -/
theorem Leased.mono (leased : Leased s) (sound : s'.db.Sound) (hworkers : s'.workers = s.workers)
    (hfresh : s.db.fresh ≤ s'.db.fresh)
    (hjobs : ∀ job ∈ s'.db.jobs, job.state ≠ .pending → job ∈ s.db.jobs)
    (hdelivered : ∀ row ∈ s.db.deliveries, row.delivered = true →
      ∃ row' ∈ s'.db.deliveries, row'.jobId = row.jobId ∧ row'.delivered = true)
    (hvisits : ∀ visit ∈ s.visits, visit ∈ s'.visits) : Leased s' := by
  refine ⟨sound, ?_, ?_, ?_, ?_, ?_⟩
  · rw [hworkers]
    exact leased.tokens
  · intro worker hworker
    rw [hworkers] at hworker
    exact (leased.used worker hworker).trans_le hfresh
  · intro job hjob leaseToken hstate
    rw [hworkers]
    exact leased.held job (hjobs job hjob (by simp [hstate])) leaseToken hstate
  · intro job hjob hstate
    have hold := hjobs job hjob (by simp [hstate])
    exact (leased.succeeded job hold hstate).mono hdelivered hvisits
  · intro job hjob worker hworker hstate hphase
    rw [hworkers] at hworker
    have hold := hjobs job hjob (by simp [hstate])
    exact (leased.finished job hold worker hworker hstate hphase).mono hdelivered hvisits

theorem mem_goto {leaseToken : Nat} {phase : Phase} (h : worker ∈ (s.goto leaseToken phase).workers) :
    ∃ old ∈ s.workers, worker.leaseToken = old.leaseToken ∧ worker.jobId = old.jobId ∧ worker.payload = old.payload ∧
    ((old.leaseToken = leaseToken ∧ worker.phase = phase) ∨ (old.leaseToken ≠ leaseToken ∧ worker = old)) := by
  obtain ⟨old, hold, rfl⟩ := Table.mem_updateWhere.mp h
  refine ⟨old, hold, ?_⟩
  split
  · rename_i htoken
    exact ⟨rfl, rfl, rfl, .inl ⟨of_decide_eq_true htoken, rfl⟩⟩
  · rename_i htoken
    exact ⟨rfl, rfl, rfl, .inr ⟨by simpa using htoken, rfl⟩⟩

theorem Leased.goto (leased : Leased s) {leaseToken : Nat} {phase : Phase}
    (hdone : phase = .finished → ∀ job ∈ s.db.jobs, job.state = .running leaseToken → s.Done job) :
    Leased (s.goto leaseToken phase) := by
  refine ⟨leased.sound, ?_, ?_, ?_, leased.succeeded, ?_⟩
  · rw [State.goto, Table.map_updateWhere]
    · exact leased.tokens
    · exact fun _ => rfl
  · intro worker hworker
    obtain ⟨old, hold, htoken, -⟩ := mem_goto hworker
    exact htoken ▸ leased.used old hold
  · intro job hjob token hstate
    obtain ⟨worker, hworker, htoken, hid, hpayload⟩ := leased.held job hjob token hstate
    refine ⟨if worker.leaseToken = leaseToken then { worker with phase } else worker,
      Table.mem_updateWhere.mpr ⟨worker, hworker, by simp⟩, ?_⟩
    split
    · exact ⟨htoken, hid, hpayload⟩
    · exact ⟨htoken, hid, hpayload⟩
  · intro job hjob worker hworker hstate hfinished
    obtain ⟨old, hold, htoken, -, -, ⟨hown, hphase⟩ | ⟨-, rfl⟩⟩ := mem_goto hworker
    · refine hdone (hphase.symm.trans hfinished) job hjob ?_
      rw [hstate, htoken, hown]
    · exact leased.finished job hjob worker hold hstate hfinished

/-- Jobs that change only in their state and the time they run next. -/
def Job.identity (job : Job) : Nat × DeduplicationKey × Payload := (job.id, job.key, job.payload)

theorem mem_identity {jobs jobs' : List Job} (h : jobs'.map Job.identity = jobs.map Job.identity) : ∀ job ∈ jobs',
    ∃ old ∈ jobs, old.id = job.id ∧ old.key = job.key ∧ old.payload = job.payload := by
  intro job hjob
  have hin : job.identity ∈ jobs'.map Job.identity := mem_map_of_mem hjob
  rw [h] at hin
  obtain ⟨old, hold, heq⟩ := mem_map.mp hin
  simp only [Job.identity, Prod.mk.injEq] at heq
  exact ⟨old, hold, heq⟩

theorem Database.Sound.restated (sound : s.db.Sound) {jobs : List Job} {fresh : Nat}
    (hjobs : jobs.map Job.identity = s.db.jobs.map Job.identity) (hfresh : s.db.fresh ≤ fresh) :
    Database.Sound { s.db with jobs, fresh } := by
  have hmap : ∀ {β : Type} (g : Nat × DeduplicationKey × Payload → β),
      jobs.map (g ∘ Job.identity) = s.db.jobs.map (g ∘ Job.identity) := by
    intro β g
    rw [← map_map, hjobs, map_map]
  have hmem := mem_identity hjobs
  refine ⟨sound.eventIds, ?_, ?_, sound.deliveryIds, sound.deliveryJobs, ?_, ?_, ?_, ?_⟩
  · have := hmap fun identity => identity.1
    exact (show jobs.map Job.id = s.db.jobs.map Job.id from this) ▸ sound.jobIds
  · have := hmap fun identity => identity.2.1
    exact (show jobs.map Job.key = s.db.jobs.map Job.key from this) ▸ sound.jobKeys
  · intro job hjob
    obtain ⟨old, hold, hid, -⟩ := hmem job hjob
    exact hid ▸ (sound.used old hold).trans_le hfresh
  · intro row hrow
    have := sound.usedDeliveries row hrow
    exact ⟨this.1.trans_le hfresh, this.2.trans_le hfresh⟩
  · intro job hjob
    obtain ⟨old, hold, -, hkey, hpayload⟩ := hmem job hjob
    exact hkey ▸ hpayload ▸ (sound.keyed old hold).mono fun _ h => h
  · intro job hjob payload hpayload
    obtain ⟨old, hold, hid, -, hpayload'⟩ := hmem job hjob
    obtain ⟨row, hrow, hmatches, hjobId⟩ := sound.delivery old hold payload (hpayload'.trans hpayload)
    exact ⟨row, hrow, hmatches, hjobId.trans hid⟩

theorem updateHeld_sound (sound : s.db.Sound) (worker : Worker) {change : Job → Job}
    (hchange : ∀ job, (change job).identity = job.identity) : (updateHeld s.db worker change).Sound :=
  sound.restated (Table.map_updateWhere Job.identity hchange _) le_rfl

theorem markDelivered_sound (sound : db.Sound) (payload : DeliveryPayload) : (markDelivered db payload).Sound := by
  refine ⟨sound.eventIds, sound.jobIds, sound.jobKeys, ?_, ?_, sound.used, ?_, ?_, ?_⟩
  · rw [markDelivered, Table.map_updateWhere]
    · exact sound.deliveryIds
    · exact fun _ => rfl
  · rw [markDelivered, Table.map_updateWhere]
    · exact sound.deliveryJobs
    · exact fun _ => rfl
  · exact Table.forall_updateWhere sound.usedDeliveries fun row _ _ hrow => hrow
  · exact fun job hjob => (sound.keyed job hjob).mono fun _ h => h
  · intro job hjob own hown
    obtain ⟨row, hrow, hmatches, hjobId⟩ := sound.delivery job hjob own hown
    refine ⟨if row.Matches payload then { row with delivered := true } else row,
      Table.mem_updateWhere.mpr ⟨row, hrow, by simp⟩, ?_⟩
    split
    · exact ⟨hmatches, hjobId⟩
    · exact ⟨hmatches, hjobId⟩

theorem markDelivered_kept (payload : DeliveryPayload) : ∀ row ∈ db.deliveries, row.delivered = true →
    ∃ row' ∈ (markDelivered db payload).deliveries, row'.jobId = row.jobId ∧ row'.delivered = true := by
  intro row hrow hdelivered
  refine ⟨if row.Matches payload then { row with delivered := true } else row,
    Table.mem_updateWhere.mpr ⟨row, hrow, by simp⟩, ?_⟩
  split
  · exact ⟨rfl, rfl⟩
  · exact ⟨rfl, hdelivered⟩

/-- Only what the rows of the outbox, the watchers, the readers and the inbox say has changed. -/
theorem Database.Sound.congr {db' : Database} (sound : db.Sound) (hjobs : db'.jobs = db.jobs)
    (hdeliveries : db'.deliveries = db.deliveries) (hfresh : db'.fresh = db.fresh)
    (htold : db'.told = db.told) : db'.Sound := by
  refine ⟨?_, ?_, ?_, ?_, ?_, ?_, ?_, ?_, ?_⟩ <;>
    simp only [hjobs, hdeliveries, hfresh, htold]
  · exact sound.eventIds
  · exact sound.jobIds
  · exact sound.jobKeys
  · exact sound.deliveryIds
  · exact sound.deliveryJobs
  · exact sound.used
  · exact sound.usedDeliveries
  · exact fun job hjob => (sound.keyed job hjob).mono fun _ h => htold ▸ h
  · exact sound.delivery

theorem claim_identity (sound : s.db.Sound) {job : Job} (hjob : job ∈ s.db.jobs) :
    (claim s job).db.jobs.map Job.identity = s.db.jobs.map Job.identity :=
  Table.map_replace_of_mem Job.id Job.identity sound.jobIds hjob rfl rfl

theorem updateHeld_identity (db : Database) (worker : Worker) {change : Job → Job}
    (hchange : ∀ job, (change job).identity = job.identity) :
    (updateHeld db worker change).jobs.map Job.identity = db.jobs.map Job.identity :=
  Table.map_updateWhere Job.identity hchange _

theorem Leased.claim (leased : Leased s) {job : Job} (hjob : job ∈ s.db.jobs) : Leased (claim s job) := by
  have sound := leased.sound
  refine ⟨?_, ?_, ?_, ?_, ?_, ?_⟩
  · exact sound.restated (claim_identity sound hjob) (Nat.le_succ _)
  · refine nodup_snoc leased.tokens fun worker hworker => ?_
    exact Nat.ne_of_lt (leased.used worker hworker)
  · intro worker hworker
    obtain hworker | hworker := mem_append.mp hworker
    · exact Nat.lt_succ_of_lt (leased.used worker hworker)
    · rw [mem_singleton.mp hworker]
      exact Nat.lt_succ_self _
  · intro other hother leaseToken hstate
    obtain rfl | ⟨hother, -⟩ := Table.mem_replace Job.id hother
    · cases hstate
      exact ⟨_, mem_append_right _ (mem_singleton_self _), rfl, rfl, rfl⟩
    · obtain ⟨worker, hworker, h⟩ := leased.held other hother leaseToken hstate
      exact ⟨worker, mem_append_left _ hworker, h⟩
  · intro other hother hstate
    obtain rfl | ⟨hother, -⟩ := Table.mem_replace Job.id hother
    · cases hstate
    · exact leased.succeeded other hother hstate
  · intro other hother worker hworker hstate hphase
    obtain hworker | hworker := mem_append.mp hworker
    · obtain rfl | ⟨hother, -⟩ := Table.mem_replace Job.id hother
      · have hused := leased.used worker hworker
        have htoken : s.db.fresh = worker.leaseToken := by simpa using hstate
        omega
      · exact leased.finished other hother worker hworker hstate hphase
    · rw [mem_singleton.mp hworker] at hphase
      cases hphase

theorem Leased.insertNotification (leased : Leased s) (row : NotificationRow) :
    Leased { s with db := insertNotification s.db row } := by
  unfold Notifications.insertNotification
  split
  · exact leased
  · exact leased.mono (leased.sound.congr rfl rfl rfl rfl) rfl le_rfl (fun _ h _ => h)
      (fun row h hd => ⟨row, h, rfl, hd⟩) fun _ h => h

/-- A worker that has finished ends its job. -/
theorem Leased.completed (leased : Leased s) (hworker : worker ∈ s.workers) (finished : worker.phase = .finished) :
    Leased { s with db := updateHeld s.db worker fun job => { job with state := .succeeded } } := by
  refine ⟨updateHeld_sound leased.sound worker fun _ => rfl, leased.tokens, leased.used, ?_, ?_, ?_⟩
  · intro job hjob leaseToken hstate
    obtain ⟨old, hold, rfl⟩ := Table.mem_updateWhere.mp hjob
    split at hstate
    · cases hstate
    · rename_i hother
      rw [if_neg hother]
      exact leased.held old hold leaseToken hstate
  · intro job hjob hstate
    obtain ⟨old, hold, rfl⟩ := Table.mem_updateWhere.mp hjob
    split
    · rename_i hown
      have hown := (of_decide_eq_true hown).2
      exact leased.finished old hold worker hworker hown finished
    · rename_i hother
      rw [if_neg hother] at hstate
      exact leased.succeeded old hold hstate
  · intro job hjob other hotherMem hstate hphase
    obtain ⟨old, hold, rfl⟩ := Table.mem_updateWhere.mp hjob
    split at hstate
    · cases hstate
    · rename_i hother
      rw [if_neg hother]
      exact leased.finished old hold other hotherMem hstate hphase

/-- A worker that has failed gives its job back. -/
theorem Leased.failed (leased : Leased s) (worker : Worker) (retryDelay : Nat) :
    Leased
      { s with
        db := updateHeld s.db worker fun job =>
          { job with
            state := .pending
            nextRunAt := s.db.clock + retryDelay } } := by
  refine leased.mono (updateHeld_sound leased.sound worker fun _ => rfl) rfl le_rfl ?_
    (fun row h hd => ⟨row, h, rfl, hd⟩) fun _ h => h
  intro job hjob hstate
  obtain ⟨old, hold, rfl⟩ := Table.mem_updateWhere.mp hjob
  split at hstate
  · exact absurd rfl hstate
  · rename_i hother
    rw [if_neg hother]
    exact hold

theorem Leased.worked (leased : Leased s) {action : Action} (hworker : worker ∈ s.workers)
    (h : Worked worker s action s') : Leased s' := by
  have sound := leased.sound
  cases h with
  | idle => exact leased
  | threw | found | refused => exact leased.goto nofun
  | paged event afterUserId audienceAt discussion db started payload told paged =>
    have hcalm := paged.calm
    have hleased : Leased
        { s with
          db
          visits := s.visits ++ [⟨event.id, afterUserId, candidates s.db event discussion⟩] } :=
      leased.mono (paged.sound sound told) rfl hcalm.fresh hcalm.jobs hcalm.delivered
        fun visit hvisit => mem_append_left _ hvisit
    refine hleased.goto fun _ job hjob hstate => ?_
    obtain ⟨-, hpayload⟩ := hleased.holder hjob hworker hstate
    rw [State.Done, ← hpayload, payload]
    exact ⟨_, mem_append_right _ (mem_singleton_self _), rfl, rfl⟩
  | orphaned eventId afterUserId audienceAt payload gone =>
    refine leased.goto fun _ job hjob hstate => ?_
    obtain ⟨-, hpayload⟩ := leased.holder hjob hworker hstate
    have hkeyed := sound.keyed job hjob
    rw [← hpayload, payload] at hkeyed
    cases hkey : job.key with
    | pageWatchUpdate | pageWatch => rw [hkey] at hkeyed; exact hkeyed.elim
    | notificationAudience id _ =>
      rw [hkey] at hkeyed
      obtain ⟨rfl, -, event, hevent, hid⟩ := hkeyed
      exact absurd hid (gone event hevent)
  | settledBefore payload holds none =>
    refine leased.goto fun _ job hjob hstate => ?_
    obtain ⟨-, hpayload⟩ := leased.holder hjob hworker hstate
    obtain ⟨row, hrow, hmatches, hjobId⟩ := sound.delivery job hjob payload (hpayload.symm.trans holds)
    rw [State.Done, ← hpayload, holds]
    exact ⟨row, hrow, hjobId, none row hrow hmatches⟩
  | unreadable payload event circumstances holds told id verdict =>
    have hleased : Leased { s with db := purgeRecipientPage s.db event.pageId payload.userId } :=
      leased.mono (sound.congr rfl rfl rfl rfl) rfl le_rfl (fun _ h _ => h)
        (fun row h hd => ⟨row, h, rfl, hd⟩) fun _ h => h
    exact hleased.goto nofun
  | cleared payload event circumstances inAppEnabled holds told id verdict =>
    have hleased : Leased { s with
        clearances := s.clearances ++ [⟨event.id, payload.userId, s.db.readers⟩] } :=
      leased.mono sound rfl le_rfl (fun _ h _ => h) (fun row h hd => ⟨row, h, rfl, hd⟩)
        fun _ h => h
    exact hleased.goto nofun
  | inserted payload event inAppEnabled holds phase told id =>
    refine Leased.goto ?_ nofun
    split
    · exact leased.insertNotification _
    · exact leased
  | settled payload holds phase =>
    have hleased : Leased { s with db := markDelivered s.db payload } :=
      leased.mono (markDelivered_sound sound payload) rfl le_rfl (fun _ h _ => h)
        (markDelivered_kept payload) fun _ h => h
    refine hleased.goto fun _ job hjob hstate => ?_
    obtain ⟨-, hpayload⟩ := leased.holder hjob hworker hstate
    obtain ⟨row, hrow, hmatches, hjobId⟩ := sound.delivery job hjob payload (hpayload.symm.trans holds)
    rw [State.Done, ← hpayload, holds]
    exact ⟨{ row with delivered := true }, Table.mem_updateWhere.mpr ⟨row, hrow, by simp [hmatches]⟩, hjobId, rfl⟩
  | completed finished => exact leased.completed hworker finished
  | failed retryDelay => exact leased.failed worker retryDelay

theorem told_published (events : List OutboxEventRow) (p : OutboxEventRow → Bool) :
    (Table.updateWhere p (fun row => { row with published := true }) events).map
      OutboxEventRow.event = events.map OutboxEventRow.event :=
  Table.map_updateWhere OutboxEventRow.event
    (f := fun row => { row with published := true }) (fun _ => rfl) events

/-- The database that a publisher has reached, and what it leaves. -/
theorem published_calm {event : NotificationOutboxEvent} {now : Nat} {discussion : Discussion}
    {reached : Database} {visits : List Visit} (sound : s.db.Sound)
    (htold : event ∈ s.db.told)
    (h : (event.type = .other ∧ reached = s.db ∧ visits = s.visits)
      ∨ (event.type ≠ .other ∧ Paged event 0 now discussion s.db reached
        ∧ visits = s.visits ++ [⟨event.id, 0, candidates s.db event discussion⟩])) :
    Calm s.db reached ∧ reached.Sound ∧ ∀ visit ∈ s.visits, visit ∈ visits := by
  obtain ⟨-, rfl, rfl⟩ | ⟨-, hpaged, rfl⟩ := h
  · exact ⟨Calm.refl _, sound, fun _ h => h⟩
  · exact ⟨hpaged.calm, hpaged.sound sound htold, fun _ h => mem_append_left _ h⟩

theorem Leased.step (leased : Leased s) {op : Op} (h : Step s op s') : Leased s' := by
  have sound := leased.sound
  cases h with
  | idle => exact leased
  | around db jobs deliveries inbox fresh events watchers =>
    refine leased.mono (sound.congr jobs deliveries fresh ?_) rfl fresh.ge ?_ ?_ fun _ h => h
    · simp only [Database.told, events]
    · exact fun job hjob _ => jobs ▸ hjob
    · exact fun row hrow hd => ⟨row, deliveries.symm ▸ hrow, rfl, hd⟩
  | written event new =>
    refine leased.mono ?_ rfl le_rfl (fun _ h _ => h) (fun row h hd => ⟨row, h, rfl, hd⟩)
      fun _ h => h
    have hsub : ∀ told ∈ s.db.told,
        told ∈ (s.db.events ++ [(⟨event, false⟩ : OutboxEventRow)]).map OutboxEventRow.event := by
      intro told htold
      rw [map_append]
      exact mem_append_left _ htold
    refine ⟨?_, sound.jobIds, sound.jobKeys, sound.deliveryIds, sound.deliveryJobs, sound.used,
      sound.usedDeliveries, fun job hjob => (sound.keyed job hjob).mono hsub, sound.delivery⟩
    rw [Database.told, map_append]
    refine nodup_snoc sound.eventIds fun told htold heq => ?_
    exact new (mem_map.mpr ⟨told, htold, heq⟩)
  | published event now discussion reached visits unpublished paged =>
    have htold : event ∈ s.db.told := mem_map_of_mem unpublished
    obtain ⟨hcalm, hsound, hvisits⟩ := published_calm sound htold paged
    refine leased.mono ?_ rfl hcalm.fresh hcalm.jobs hcalm.delivered hvisits
    exact hsound.congr rfl rfl rfl (told_published _ _)
  | claimed job mem claimable => exact leased.claim mem
  | worked worker action s' mem worked => exact leased.worked mem worked

end TsEpistle.Notifications
