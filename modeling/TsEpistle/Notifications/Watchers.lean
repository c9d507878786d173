import TsEpistle.Notifications.Aggregation

/-! Watchers and the last change. In a run whose newer updates all come in time, a user who
watches a page throughout is told about each of its events, or about a later update. -/

namespace TsEpistle.Notifications
open Library List

variable {s s' : State} {db db' : Database} {event : NotificationOutboxEvent}
  {audienceAt afterUserId : Nat} {discussion : Discussion} {recipient : NotificationRecipient}
  {page user : Nat}

/-- What a payload for the user carries. -/
def Carries (page user : Nat) (db : Database) (payload : DeliveryPayload) : Prop :=
  payload.userId = user → ∃ event ∈ db.told, event.id = payload.eventId ∧ event.actorId ≠ user
    ∧ (Followed page event → payload.category = .pageWatch ∧ payload.channels.inAppEnabled = true)

/-- A delivery is made only with its row in the inbox. -/
structure Serves (page user : Nat) (db : Database) : Prop where
  jobs : ∀ job ∈ db.jobs, ∀ payload, job.payload = .delivery payload → Carries page user db payload
  deliveries : ∀ row ∈ db.deliveries, row.userId = user → ∃ event ∈ db.told,
    event.id = row.eventId ∧ (Followed page event → row.delivered = true → ⟨row.eventId, user, page⟩ ∈ db.inbox)

/-- What a worker with a payload for the user has done. -/
def Phase.Serving (page user : Nat) (db : Database) (payload : DeliveryPayload) : Phase → Prop
  | .refused => False
  | .cleared inAppEnabled => inAppEnabled = true
  | .inserted => ⟨payload.eventId, user, page⟩ ∈ db.inbox
  | _ => True

structure Served (page user : Nat) (s : State) : Prop where
  serves : Serves page user s.db
  workers : ∀ worker ∈ s.workers, ∀ payload, worker.payload = .delivery payload →
    payload.userId = user → ∃ event ∈ s.db.told, event.id = payload.eventId
      ∧ event.actorId ≠ user ∧ (Followed page event → payload.category = .pageWatch
        ∧ payload.channels.inAppEnabled = true ∧ worker.phase.Serving page user s.db payload)
  visits : ∀ visit ∈ s.visits, ∃ event ∈ s.db.told, event.id = visit.eventId
    ∧ (Followed page event → user ∈ visit.users ∧ (event.actorId ≠ user →
        user ∈ audiencePage visit.users visit.afterUserId → Handled s.db user event))

theorem Served.initial (h : Initial s) : Served page user s := by
  refine ⟨⟨?_, ?_⟩, ?_, ?_⟩ <;> simp [h.jobs, h.deliveries, h.workers, h.visits]

variable {payload : DeliveryPayload}

theorem Carries.mono (h : Carries page user db payload)
    (htold : ∀ event ∈ db.told, event ∈ db'.told) : Carries page user db' payload := by
  intro huser
  obtain ⟨event, hevent, h⟩ := h huser
  exact ⟨event, htold event hevent, h⟩

theorem Handled.mono (h : Handled db user event) (htold : ∀ event ∈ db.told, event ∈ db'.told)
    (hjobs : ∀ job ∈ db.jobs, ∃ job' ∈ db'.jobs, job'.payload = job.payload) : Handled db' user event := by
  obtain ⟨job, hjob, payload, hpayload, huser, latest, hlatest, h⟩ := h
  obtain ⟨job', hjob', hsame⟩ := hjobs job hjob
  exact ⟨job', hjob', payload, hsame.trans hpayload, huser, latest, htold latest hlatest, h⟩

theorem Phase.Serving.mono {phase : Phase} (h : phase.Serving page user db payload)
    (hinbox : ⟨payload.eventId, user, page⟩ ∈ db.inbox →
      ⟨payload.eventId, user, page⟩ ∈ db'.inbox) : phase.Serving page user db' payload := by
  cases phase <;> simp only [Phase.Serving] at h ⊢
  · exact h
  · exact hinbox h

theorem Serves.enqueued (serves : Serves page user db)
    (htold : event ∈ db.told) (hactor : recipient.userId ≠ event.actorId)
    (hrecipient : recipient.userId = user → Followed page event →
      recipient.category = .pageWatch ∧ recipient.channels.inAppEnabled = true)
    (hintime : JoinsInTime db event audienceAt recipient)
    (step : Enqueued event audienceAt recipient db db') : Serves page user db' := by
  have hcarries : ∀ deliveryId, Carries page user db (deliveryPayload event recipient deliveryId) := by
    intro deliveryId huser
    exact ⟨event, htold, rfl, fun heq => hactor (huser.trans heq.symm), hrecipient huser⟩
  cases step with
  | kept => exact serves
  | added nextRunAt new =>
    constructor
    · intro job hjob payload hpayload
      obtain hjob | hjob := mem_append.mp hjob
      · exact serves.jobs job hjob payload hpayload
      · rw [mem_singleton.mp hjob] at hpayload
        cases hpayload
        exact hcarries _
    · refine forall_mem_append.mpr ⟨serves.deliveries, forall_mem_singleton.mpr ?_⟩
      intro huser
      exact ⟨event, htold, rfl, fun _ => nofun⟩
  | rewritten own current previous mem key holds pending shared told previousId later =>
    have hundelivered := (hintime.rows shared mem key holds told previousId later).2
    constructor
    · intro job hjob payload hpayload
      obtain rfl | ⟨hjob, -⟩ := Table.mem_replace Job.id hjob
      · cases hpayload
        exact hcarries _
      · exact serves.jobs job hjob payload hpayload
    · intro row hrow huser
      obtain ⟨old, hold, rfl⟩ := Table.mem_updateWhere.mp hrow
      split
      · rename_i hown
        refine ⟨event, htold, rfl, fun _ hdelivered => ?_⟩
        rw [hundelivered old hold (of_decide_eq_true hown)] at hdelivered
        cases hdelivered
      · rename_i hother
        rw [if_neg hother] at huser
        exact serves.deliveries old hold huser

theorem Serves.congr (serves : Serves page user db) (htold : ∀ event ∈ db.told, event ∈ db'.told)
    (hjobs : ∀ job ∈ db'.jobs, ∃ old ∈ db.jobs, old.payload = job.payload)
    (hdeliveries : db'.deliveries = db.deliveries)
    (hinbox : ∀ id, ⟨id, user, page⟩ ∈ db.inbox → ⟨id, user, page⟩ ∈ db'.inbox) : Serves page user db' := by
  constructor
  · intro job hjob payload hpayload
    obtain ⟨old, hold, hsame⟩ := hjobs job hjob
    exact (serves.jobs old hold payload (hsame.trans hpayload)).mono htold
  · intro row hrow huser
    rw [hdeliveries] at hrow
    obtain ⟨event, hevent, hid, h⟩ := serves.deliveries row hrow huser
    exact ⟨event, htold event hevent, hid, fun hfollowed hd => hinbox _ (h hfollowed hd)⟩

/-- A page that is visited in time, while the user watches. -/
theorem Paged.serves (h : Paged event afterUserId audienceAt discussion s.db db)
    (serves : Serves page user s.db) (watching : Watching page user s) (hguest : user ≠ 2)
    (hintime : ReachesInTime s.db event afterUserId audienceAt discussion) :
    Serves page user db ∧ (∀ other, Handled s.db user other → Handled db user other)
      ∧ (Followed page event → user ∈ candidates s.db event discussion
        ∧ (event.actorId ≠ user →
          user ∈ audiencePage (candidates s.db event discussion) afterUserId → Handled db user event)) := by
  have hpage : ∃ reached,
      Reached event audienceAt (recipients s.db event afterUserId discussion) s.db reached
      ∧ db.told = reached.told ∧ db.deliveries = reached.deliveries ∧ db.inbox = reached.inbox
      ∧ (∀ job ∈ reached.jobs, ∃ job' ∈ db.jobs, job'.payload = job.payload)
      ∧ ∀ job ∈ db.jobs, job ∈ reached.jobs ∨ ∀ payload, job.payload ≠ .delivery payload := by
    cases h with
    | continued reached cursor next page =>
      refine ⟨reached, page, ?_⟩
      cases hjob : reached.job (.notificationAudience event.id cursor) with
      | some job =>
        rw [enqueue_some hjob]
        exact ⟨rfl, rfl, rfl, fun job h => ⟨job, h, rfl⟩, fun job h => .inl h⟩
      | none =>
        rw [enqueue_none hjob]
        refine ⟨rfl, rfl, rfl, fun job h => ⟨job, mem_append_left _ h, rfl⟩,
          fun job h => (mem_append.mp h).imp_right fun h => ?_⟩
        rw [mem_singleton.mp h]
        exact fun _ => nofun
    | ended reached watchers sub next page =>
      exact ⟨reached, page, rfl, rfl, rfl, fun job h => ⟨job, h, rfl⟩, fun job h => .inl h⟩
  obtain ⟨reached, hreached, htold, hdeliveries, hinbox, hkept, hjobs⟩ := hpage
  have hsame : ∀ event ∈ reached.told, event ∈ db.told := fun _ h => htold ▸ h
  have hreachedServes : Serves page user reached
      ∧ ∀ recipient ∈ recipients s.db event afterUserId discussion, JoinsInTime reached event audienceAt recipient := by
    refine hreached.invariant (I := fun db => Serves page user db
      ∧ ∀ recipient ∈ recipients s.db event afterUserId discussion,
        JoinsInTime db event audienceAt recipient) ⟨serves, hintime⟩ ?_
    intro recipient hmem before after sound told _ step hbefore
    refine ⟨hbefore.1.enqueued told (mem_recipients hmem).2 ?_ (hbefore.2 _ hmem) step, ?_⟩
    · intro huser hfollowed
      exact (recipients_watching hfollowed watching.1 hguest).2 recipient hmem huser
    · exact fun other hother => (hbefore.2 other hother).enqueued sound told step
  refine ⟨?_, ?_, ?_⟩
  · constructor
    · intro job hjob payload hpayload
      obtain hjob | hnone := hjobs job hjob
      · exact (hreachedServes.1.jobs job hjob payload hpayload).mono hsame
      · exact absurd hpayload (hnone payload)
    · intro row hrow huser
      rw [hdeliveries] at hrow
      obtain ⟨event, hevent, h⟩ := hreachedServes.1.deliveries row hrow huser
      rw [hinbox]
      exact ⟨event, hsame event hevent, h⟩
  · intro other hother
    refine Handled.mono ?_ hsame hkept
    exact hreached.invariant (I := fun db => Handled db user other) hother
      fun _ _ _ _ sound told page step h => h.enqueued sound told page step
  · intro hfollowed
    refine ⟨candidates_watching hfollowed watching.1, fun hactor hon => ?_⟩
    obtain ⟨recipient, hmem, rfl⟩ := (recipients_watching hfollowed watching.1 hguest).1 hactor hon
    exact (hreached.handled hintime recipient hmem).mono hsame hkept

/-- Events, jobs and the user's rows stay. -/
theorem Served.mono (served : Served page user s) (htold : ∀ event ∈ s.db.told, event ∈ s'.db.told)
    (hjobs : ∀ job ∈ s'.db.jobs, ∃ old ∈ s.db.jobs, old.payload = job.payload)
    (hkept : ∀ job ∈ s.db.jobs, ∃ job' ∈ s'.db.jobs, job'.payload = job.payload)
    (hdeliveries : s'.db.deliveries = s.db.deliveries)
    (hinbox : ∀ id, ⟨id, user, page⟩ ∈ s.db.inbox → ⟨id, user, page⟩ ∈ s'.db.inbox) (hworkers : s'.workers = s.workers)
    (hvisits : s'.visits = s.visits) : Served page user s' := by
  refine ⟨served.serves.congr htold hjobs hdeliveries hinbox, ?_, ?_⟩
  · intro worker hworker payload hpayload huser
    rw [hworkers] at hworker
    obtain ⟨event, hevent, hid, hactor, h⟩ := served.workers worker hworker payload hpayload huser
    refine ⟨event, htold event hevent, hid, hactor, fun hfollowed => ?_⟩
    obtain ⟨hcategory, happ, hphase⟩ := h hfollowed
    exact ⟨hcategory, happ, hphase.mono (hinbox _)⟩
  · intro visit hvisit
    rw [hvisits] at hvisit
    obtain ⟨event, hevent, hid, h⟩ := served.visits visit hvisit
    refine ⟨event, htold event hevent, hid, fun hfollowed => ?_⟩
    obtain ⟨hcandidate, hhandled⟩ := h hfollowed
    exact ⟨hcandidate, fun hactor hon => (hhandled hactor hon).mono htold hkept⟩

theorem Served.goto (served : Served page user s) {leaseToken : Nat} {phase : Phase}
    (hphase : ∀ worker ∈ s.workers, worker.leaseToken = leaseToken →
      ∀ payload, worker.payload = .delivery payload → payload.userId = user →
        ∀ event ∈ s.db.told, event.id = payload.eventId → event.actorId ≠ user →
          Followed page event → payload.category = .pageWatch →
            payload.channels.inAppEnabled = true → worker.phase.Serving page user s.db payload →
              phase.Serving page user s.db payload) :
    Served page user (s.goto leaseToken phase) := by
  refine ⟨served.serves, ?_, served.visits⟩
  intro worker hworker payload hpayload huser
  obtain ⟨old, hold, -, -, hsame, ⟨hown, hnew⟩ | ⟨-, rfl⟩⟩ := mem_goto hworker
  · have hpayload' := hsame.symm.trans hpayload
    obtain ⟨event, hevent, hid, hactor, h⟩ := served.workers old hold payload hpayload' huser
    refine ⟨event, hevent, hid, hactor, fun hfollowed => ?_⟩
    obtain ⟨hcategory, happ, hserving⟩ := h hfollowed
    refine ⟨hcategory, happ, ?_⟩
    rw [hnew]
    exact hphase old hold hown payload hpayload' huser event hevent hid hactor hfollowed hcategory
      happ hserving
  · exact served.workers worker hold payload hpayload huser

theorem Served.paged (served : Served page user s) (watching : Watching page user s)
    (hguest : user ≠ 2) (htold : event ∈ s.db.told)
    (h : Paged event afterUserId audienceAt discussion s.db db)
    (hintime : ReachesInTime s.db event afterUserId audienceAt discussion) :
    Served page user
      { s with
        db
        visits := s.visits ++ [⟨event.id, afterUserId, candidates s.db event discussion⟩] } := by
  obtain ⟨hserves, hhandled, hfollowed⟩ := h.serves served.serves watching hguest hintime
  have hcalm := h.calm
  refine ⟨hserves, ?_, ?_⟩
  · intro other hother payload hpayload huser
    obtain ⟨event', hevent', hid, hactor, h⟩ := served.workers other hother payload hpayload huser
    refine ⟨event', hcalm.told ▸ hevent', hid, hactor, fun hfollows => ?_⟩
    obtain ⟨hcategory, happ, hserving⟩ := h hfollows
    exact ⟨hcategory, happ, hserving.mono fun hrow => hcalm.inbox ▸ hrow⟩
  · intro visit hvisit
    obtain hvisit | hvisit := mem_append.mp hvisit
    · obtain ⟨event', hevent', hid, h⟩ := served.visits visit hvisit
      refine ⟨event', hcalm.told ▸ hevent', hid, fun hfollows => ?_⟩
      obtain ⟨hcandidate, h⟩ := h hfollows
      exact ⟨hcandidate, fun hactor hon => hhandled _ (h hactor hon)⟩
    · rw [mem_singleton.mp hvisit]
      exact ⟨event, hcalm.told ▸ htold, rfl, hfollowed⟩

/-- While the user can read the page, nothing is withheld from the delivery. -/
theorem verdict_watching {circumstances : Circumstances} (hfollowed : Followed page event)
    (hactor : event.actorId ≠ payload.userId) (hcategory : payload.category = .pageWatch)
    (happ : payload.channels.inAppEnabled = true) (hreads : (page, payload.userId) ∈ db.readers) :
    verdict db event payload circumstances = .cleared true := by
  obtain ⟨rfl, htype⟩ := hfollowed
  have hdiscussion : event.type ≠ .discussion := by
    rintro hdiscussion
    simp [hdiscussion] at htype
  simp [verdict, resolveRecipient, hdiscussion, hcategory, hactor, happ, hreads, Channels.any]

theorem verdict_unreadable {circumstances : Circumstances} (h : verdict db event payload circumstances = .unreadable) :
    (event.pageId, payload.userId) ∉ db.readers := by
  unfold verdict at h
  split at h
  · cases h
  · split at h
    · cases h
    · split at h
      · rename_i hunreadable
        exact hunreadable
      · split at h <;> cases h

/-- A row that the inbox has for the event and the user already is the same one. -/
theorem Filled.inserted (filled : Filled s) (sound : s.db.Sound) (htold : event ∈ s.db.told) (user : Nat) :
    ⟨event.id, user, event.pageId⟩ ∈ (insertNotification s.db ⟨event.id, user, event.pageId⟩).inbox := by
  unfold insertNotification
  split
  · rename_i hthere
    obtain ⟨row, hrow, hevent, huser⟩ := hthere
    obtain ⟨other, hcleared, hid, hpage⟩ := filled.rows row hrow
    obtain rfl := sound.event_unique hcleared.told htold (hid.trans hevent)
    obtain ⟨eventId, userId, pageId⟩ := row
    obtain rfl : userId = user := huser
    obtain rfl : other.pageId = pageId := hpage
    obtain rfl : eventId = other.id := hevent
    exact hrow
  · exact mem_append_right _ (mem_singleton_self _)

theorem insertNotification_kept (db : Database) (row : NotificationRow) : (insertNotification db row).told = db.told ∧
    (insertNotification db row).jobs = db.jobs ∧ (insertNotification db row).deliveries = db.deliveries ∧
    ∀ other ∈ db.inbox, other ∈ (insertNotification db row).inbox := by
  unfold insertNotification
  split
  · exact ⟨rfl, rfl, rfl, fun _ h => h⟩
  · exact ⟨rfl, rfl, rfl, fun _ h => mem_append_left _ h⟩

theorem Served.updateHeld (served : Served page user s) (worker : Worker) {change : Job → Job}
    (hchange : ∀ job, (change job).identity = job.identity) :
    Served page user { s with db := updateHeld s.db worker change } := by
  have hmap := updateHeld_identity s.db worker hchange
  refine served.mono (fun _ h => h) ?_ ?_ rfl (fun _ h => h) rfl rfl
  · intro job hjob
    obtain ⟨old, hold, -, -, hpayload⟩ := mem_identity hmap job hjob
    exact ⟨old, hold, hpayload⟩
  · intro job hjob
    obtain ⟨job', hjob', -, -, hpayload⟩ := mem_identity hmap.symm job hjob
    exact ⟨job', hjob', hpayload⟩

/-- The worker that has a token is the one that works under it. -/
theorem Leased.worker_of_token (leased : Leased s) {worker other : Worker}
    (hworker : worker ∈ s.workers) (hpayload : worker.payload = .delivery payload)
    (hother : other ∈ s.workers) (htoken : other.leaseToken = worker.leaseToken) :
    other = worker ∧ ∀ payload', other.payload = .delivery payload' → payload' = payload := by
  obtain rfl := inj_on_of_nodup_map leased.tokens hother hworker htoken
  refine ⟨rfl, fun payload' hpayload' => ?_⟩
  rw [hpayload] at hpayload'
  cases hpayload'
  rfl

/-- A worker that serves the user finds the delivery clear. -/
theorem Leased.verdict_watching (leased : Leased s) (watching : Watching page user s) {worker other : Worker}
    {payload payload' : DeliveryPayload} {told : NotificationOutboxEvent} (circumstances : Circumstances)
    (hworker : worker ∈ s.workers) (holds : worker.payload = .delivery payload) (htold : told ∈ s.db.told)
    (hid : told.id = payload.eventId) (hother : other ∈ s.workers) (htoken : other.leaseToken = worker.leaseToken)
    (hpayload' : other.payload = .delivery payload') (huser : payload'.userId = user) (hevent : event ∈ s.db.told)
    (heventId : event.id = payload'.eventId) (hactor : event.actorId ≠ user) (hfollowed : Followed page event)
    (hcategory : payload'.category = .pageWatch) (happ : payload'.channels.inAppEnabled = true) :
    verdict s.db told payload circumstances = .cleared true := by
  obtain ⟨-, hsame⟩ := leased.worker_of_token hworker holds hother htoken
  obtain rfl := hsame payload' hpayload'
  obtain rfl := leased.sound.event_unique htold hevent (hid.trans heventId.symm)
  exact Notifications.verdict_watching hfollowed (huser ▸ hactor) hcategory happ (huser ▸ watching.2)

/-- The pages that the user can read are not the ones whose rows are purged. -/
theorem Served.purged (served : Served page user s) (watching : Watching page user s)
    (hunreadable : (event.pageId, payload.userId) ∉ s.db.readers) :
    Served page user { s with db := purgeRecipientPage s.db event.pageId payload.userId } := by
  refine served.mono (fun _ h => h) (fun job h => ⟨job, h, rfl⟩) (fun job h => ⟨job, h, rfl⟩) rfl ?_
    rfl rfl
  intro eventId hrow
  refine mem_filter.mpr ⟨hrow, ?_⟩
  simp only [decide_not, Bool.not_eq_true', decide_eq_false_iff_not]
  rintro ⟨rfl, rfl⟩
  exact hunreadable watching.2

theorem Served.insertNotification (served : Served page user s) (row : NotificationRow) :
    Served page user { s with db := insertNotification s.db row } := by
  obtain ⟨htold, hjobs, hdeliveries, hinbox⟩ := insertNotification_kept s.db row
  refine served.mono (fun _ h => ?_) (fun job h => ⟨job, ?_, rfl⟩) (fun job h => ⟨job, ?_, rfl⟩)
    hdeliveries (fun _ h => hinbox _ h) rfl rfl
  · exact htold ▸ h
  · exact hjobs ▸ h
  · exact hjobs.symm ▸ h

/-- A delivery is marked after its row is in the inbox. -/
theorem Served.settled (served : Served page user s) {worker : Worker} (hworker : worker ∈ s.workers)
    (holds : worker.payload = .delivery payload) (phase : worker.phase = .refused ∨ worker.phase = .inserted) :
    Served page user { s with db := markDelivered s.db payload } := by
  refine ⟨⟨served.serves.jobs, ?_⟩, served.workers, served.visits⟩
  intro row hrow huser
  obtain ⟨old, hold, rfl⟩ := Table.mem_updateWhere.mp hrow
  split
  · rename_i hmatches
    rw [if_pos hmatches] at huser
    obtain ⟨-, heventId, huserId⟩ := of_decide_eq_true hmatches
    obtain ⟨event, hevent, hid, hactor, h⟩ := served.workers worker hworker payload holds (huserId.symm.trans huser)
    refine ⟨event, hevent, hid.trans heventId.symm, fun hfollowed _ => ?_⟩
    obtain ⟨-, -, hserving⟩ := h hfollowed
    obtain hrefused | hinserted := phase
    · rw [hrefused] at hserving
      exact hserving.elim
    · rw [hinserted] at hserving
      exact heventId ▸ hserving
  · rename_i hother
    rw [if_neg hother] at huser
    exact served.serves.deliveries old hold huser

theorem Served.worked (served : Served page user s) (leased : Leased s) (filled : Filled s)
    (watching : Watching page user s) (hguest : user ≠ 2) {worker : Worker} {action : Action}
    (hintime : InTime (.work worker.leaseToken action) s) (hworker : worker ∈ s.workers)
    (h : Worked worker s action s') : Served page user s' := by
  have sound := leased.sound
  cases h with
  | idle => exact served
  | threw | found | orphaned | settledBefore => exact served.goto fun _ _ _ _ _ _ _ _ _ _ _ _ _ _ => trivial
  | paged event afterUserId audienceAt discussion db started payload told paged =>
    have hreaches : ReachesInTime s.db event afterUserId audienceAt discussion := by
      have := hintime worker hworker rfl started
      rw [payload] at this
      exact this event told rfl
    refine Served.goto ?_ fun _ _ _ _ _ _ _ _ _ _ _ _ _ _ => trivial
    exact served.paged watching hguest told paged hreaches
  | refused payload event circumstances holds told id verdict =>
    refine served.goto fun other hother htoken payload' hpayload' huser event' hevent' hid hactor
      hfollowed hcategory happ _ => ?_
    have hcleared := leased.verdict_watching watching circumstances hworker holds told id hother
      htoken hpayload' huser hevent' hid hactor hfollowed hcategory happ
    rw [verdict] at hcleared
    cases hcleared
  | unreadable payload event circumstances holds told id verdict =>
    refine (served.purged watching (verdict_unreadable verdict)).goto ?_
    intro other hother htoken payload' hpayload' huser event' hevent' hid hactor hfollowed
      hcategory happ _
    have hcleared := leased.verdict_watching watching circumstances hworker holds told id hother
      htoken hpayload' huser hevent' hid hactor hfollowed hcategory happ
    rw [verdict] at hcleared
    cases hcleared
  | cleared payload event circumstances inAppEnabled holds told id verdict =>
    refine Served.goto ?_ ?_
    · exact served.mono (fun _ h => h) (fun job h => ⟨job, h, rfl⟩)
        (fun job h => ⟨job, h, rfl⟩) rfl (fun _ h => h) rfl rfl
    · intro other hother htoken payload' hpayload' huser event' hevent' hid hactor hfollowed
        hcategory happ _
      have hcleared := leased.verdict_watching watching circumstances hworker holds told id hother
        htoken hpayload' huser hevent' hid hactor hfollowed hcategory happ
      rw [verdict] at hcleared
      cases hcleared
      exact rfl
  | inserted payload event inAppEnabled holds phase told id =>
    cases inAppEnabled with
    | false =>
      refine Served.goto served ?_
      intro other hother htoken payload' hpayload' _ _ _ _ _ _ _ _ hserving
      obtain ⟨rfl, -⟩ := leased.worker_of_token hworker holds hother htoken
      rw [phase] at hserving
      cases hserving
    | true =>
      refine (served.insertNotification ⟨event.id, payload.userId, event.pageId⟩).goto ?_
      intro other hother htoken payload' hpayload' huser event' hevent' hid _ hfollowed _ _ _
      obtain ⟨-, hsame⟩ := leased.worker_of_token hworker holds hother htoken
      obtain rfl := hsame payload' hpayload'
      have htold := (insertNotification_kept s.db ⟨event.id, payload'.userId, event.pageId⟩).1
      obtain rfl := sound.event_unique told (htold ▸ hevent') (id.trans hid.symm)
      obtain ⟨rfl, -⟩ := hfollowed
      have hrow := filled.inserted sound told payload'.userId
      rw [Phase.Serving, ← hid, ← huser]
      exact hrow
  | settled payload holds phase =>
    exact (served.settled hworker holds phase).goto fun _ _ _ _ _ _ _ _ _ _ _ _ _ _ => trivial
  | completed | failed => exact served.updateHeld worker fun _ => rfl

theorem Served.step (served : Served page user s) (leased : Leased s) (filled : Filled s)
    (watching : Watching page user s) (hguest : user ≠ 2) {op : Op} (hintime : InTime op s)
    (h : Step s op s') : Served page user s' := by
  cases h with
  | idle => exact served
  | around db jobs deliveries inbox fresh events watchers =>
    refine served.mono (fun event h => ?_) (fun job h => ⟨job, jobs ▸ h, rfl⟩)
      (fun job h => ⟨job, jobs.symm ▸ h, rfl⟩) deliveries (fun _ h => inbox.symm ▸ h) rfl rfl
    rw [Database.told, events]
    exact h
  | written event new =>
    refine served.mono (fun told h => ?_) (fun job h => ⟨job, h, rfl⟩)
      (fun job h => ⟨job, h, rfl⟩) rfl (fun _ h => h) rfl rfl
    rw [Database.told, map_append]
    exact mem_append_left _ h
  | published event now discussion reached visits unpublished paged =>
    have htold : event ∈ s.db.told := mem_map_of_mem unpublished
    have hafter : Served page user { s with db := reached, visits } := by
      obtain ⟨-, rfl, rfl⟩ | ⟨hother, hpaged, rfl⟩ := paged
      · exact served
      · have hreaches := hintime ⟨event, false⟩ unpublished rfl rfl hother
        exact served.paged watching hguest htold hpaged hreaches
    refine hafter.mono (fun told h => ?_) (fun job h => ⟨job, h, rfl⟩)
      (fun job h => ⟨job, h, rfl⟩) rfl (fun _ h => h) rfl rfl
    rw [Database.told, told_published]
    exact h
  | claimed job mem claimable =>
    have hmap := claim_identity leased.sound mem
    refine ⟨served.serves.congr (fun _ h => h) ?_ rfl fun _ h => h, ?_, ?_⟩
    · intro other hother
      obtain ⟨old, hold, -, -, hpayload⟩ := mem_identity hmap other hother
      exact ⟨old, hold, hpayload⟩
    · intro worker hworker payload hpayload huser
      obtain hworker | hworker := mem_append.mp hworker
      · exact served.workers worker hworker payload hpayload huser
      · rw [mem_singleton.mp hworker] at hpayload ⊢
        obtain ⟨event, hevent, hid, hactor, h⟩ := served.serves.jobs job mem payload hpayload huser
        exact ⟨event, hevent, hid, hactor, fun hfollowed =>
          ⟨(h hfollowed).1, (h hfollowed).2, trivial⟩⟩
    · intro visit hvisit
      obtain ⟨event, hevent, hid, h⟩ := served.visits visit hvisit
      refine ⟨event, hevent, hid, fun hfollowed => ?_⟩
      obtain ⟨hcandidate, hhandled⟩ := h hfollowed
      refine ⟨hcandidate, fun hactor hon => (hhandled hactor hon).mono (fun _ h => h) ?_⟩
      intro other hother
      obtain ⟨job', hjob', -, -, hpayload⟩ := mem_identity hmap.symm other hother
      exact ⟨job', hjob', hpayload⟩
  | worked worker action s' mem worked =>
    exact served.worked leased filled watching hguest hintime mem worked

/-! ## The last change -/

/-- Only accounts other than the guest's can watch. -/
theorem Filled.watching (filled : Filled s) (watching : Watching page user s) : 0 < user ∧ user ≠ 2 := by
  obtain ⟨row, hrow, -⟩ := Option.map_eq_some_iff.mp watching.1
  obtain ⟨hmem, -, rfl⟩ := watcher_some hrow
  exact filled.watchers row hmem

/-- Once nothing is left to do, a job that stands for the event has left its row. -/
theorem Handled.row (h : Handled s.db user event) (served : Served page user s)
    (leased : Leased s) (hquiet : Quiet s) (hfollowed : Followed page event) :
    ∃ latest ∈ s.db.told, (latest = event ∨ Supersedes latest event) ∧ ⟨latest.id, user, page⟩ ∈ s.db.inbox := by
  obtain ⟨job, hjob, payload, hpayload, huser, latest, hlatest, hid, hstands⟩ := h
  refine ⟨latest, hlatest, hstands, ?_⟩
  have hdone := leased.succeeded job hjob (hquiet.2 job hjob)
  rw [State.Done, hpayload] at hdone
  obtain ⟨row, hrow, hrowJob, hdelivered⟩ := hdone
  obtain ⟨own, hown, ⟨-, hownEvent, hownUser⟩, hownJob⟩ := leased.sound.delivery job hjob payload hpayload
  obtain rfl := inj_on_of_nodup_map leased.sound.deliveryJobs hrow hown
    (hrowJob.trans hownJob.symm)
  obtain ⟨other, hother, hotherId, hinbox⟩ := served.serves.deliveries row hrow (hownUser.trans huser)
  obtain rfl := leased.sound.event_unique hother hlatest
    (hotherId.trans (hownEvent.trans hid.symm))
  have hlatestFollowed : Followed page other := by
    obtain rfl | ⟨-, htype, hpage, -⟩ := hstands
    · exact hfollowed
    · exact ⟨hpage.trans hfollowed.1, .inr (.inl htype)⟩
  rw [hotherId]
  exact hinbox hlatestFollowed hdelivered

theorem Served.row (served : Served page user s) (leased : Leased s) (visited : Visited s) (hquiet : Quiet s)
    (huser : 0 < user) (htold : event ∈ s.db.told) (hfollowed : Followed page event) (hactor : event.actorId ≠ user) :
    ∃ latest ∈ s.db.told, (latest = event ∨ Supersedes latest event) ∧ ⟨latest.id, user, page⟩ ∈ s.db.inbox := by
  have hother : event.type ≠ .other := by
    rintro hother
    simp [Followed, hother] at hfollowed
  obtain ⟨row, hrow, rfl⟩ := mem_map.mp htold
  obtain ⟨visit, hvisit, hid, hzero⟩ := visited.published row hrow (hquiet.1 row hrow) hother
  have hseen : ∀ visit ∈ s.visits, visit.eventId = row.event.id → user ∈ visit.users
      ∧ (user ∈ audiencePage visit.users visit.afterUserId → Handled s.db user row.event) := by
    intro visit hvisit hid
    obtain ⟨other, hother, hotherId, h⟩ := served.visits visit hvisit
    obtain rfl := leased.sound.event_unique hother htold (hotherId.trans hid)
    exact ⟨(h hfollowed).1, (h hfollowed).2 hactor⟩
  obtain ⟨last, hlast, hlastId, hon⟩ := visited.comes leased hquiet.2 user
    (fun visit hvisit hid => (hseen visit hvisit hid).1) hvisit hid (hzero ▸ huser)
  exact ((hseen last hlast hlastId).2 hon).row served leased hquiet hfollowed

/-- Anything that runs keeps the database sound, the chain of pages and the inbox. -/
theorem reachable_invariants {start : State} (initial : Initial start)
    (run : notifications.Reachable start s) : Leased s ∧ Visited s ∧ Filled s := by
  refine run.invariant (I := fun s => Leased s ∧ Visited s ∧ Filled s)
    ⟨.initial initial, .initial initial, .initial initial⟩ ?_
  rintro op s hop ⟨leased, visited, filled⟩
  have hstep := exec_ok leased.sound hop
  exact ⟨leased.step hstep, visited.step leased.sound hstep, filled.step leased hstep⟩

/-- The runs in which the user watches the page, and can read it, before each operation. -/
def whileWatching (page user : Nat) : Machine State Op :=
  (notifications.restrict InTime).restrict fun _ s => Watching page user s

instance (page user : Nat) (op : Op) (s : State) :
    Decidable ((whileWatching page user).enabled op s) :=
  inferInstanceAs (Decidable ((enabled op s ∧ InTime op s) ∧ Watching page user s))

theorem Served.of_reachable {start : State} (initial : Initial start)
    (run : (whileWatching page user).Reachable start s) : Served page user s := by
  refine run.invariant_under (I := fun s => Leased s ∧ Visited s ∧ Filled s)
    ⟨.initial initial, .initial initial, .initial initial⟩ ?_ (.initial initial) ?_
  · rintro op s ⟨⟨hop, -⟩, -⟩ ⟨leased, visited, filled⟩
    have hstep := exec_ok leased.sound hop
    exact ⟨leased.step hstep, visited.step leased.sound hstep, filled.step leased hstep⟩
  · rintro op s ⟨⟨hop, hintime⟩, watching⟩ ⟨leased, -, filled⟩ served
    exact served.step leased filled watching (filled.watching watching).2 hintime
      (exec_ok leased.sound hop)

/-- **Watchers and the last change.** In every run an event has one row of the inbox at most for a
user, who is not its actor and could read the page at delivery; when nothing is left to do, whoever
has watched the page throughout has a row for each of its events, or for a later update where it was
an update, if newer updates joined the job of their bucket in time; and the pages of an audience
that has not changed have visited each candidate once. -/
theorem watchers_told {start : State} (initial : Initial start)
    (run : notifications.Reachable start s) :
    ((s.db.inbox.map fun row => (row.eventId, row.userId)).Nodup
      ∧ ∀ row ∈ s.db.inbox, ∃ event, s.Cleared event row.userId ∧ event.id = row.eventId ∧ event.pageId = row.pageId)
    ∧ (∀ page user, (whileWatching page user).Reachable start s → Watching page user s →
        Quiet s → ∀ event ∈ s.db.told, event.pageId = page → event.actorId ≠ user →
          (event.type = .updated → ∃ latest ∈ s.db.told,
            (latest = event ∨ Supersedes latest event) ∧ ⟨latest.id, user, page⟩ ∈ s.db.inbox)
          ∧ (event.type = .created ∨ event.type = .changed → ⟨event.id, user, page⟩ ∈ s.db.inbox))
    ∧ (Quiet s → ∀ event ∈ s.db.told, event.type ≠ .other → ∀ users,
        (∀ visit ∈ s.visits, visit.eventId = event.id → visit.users = users) →
          ∀ user ∈ users, 0 < user → ∃! afterUserId, ∃ visit ∈ s.visits,
            visit.eventId = event.id ∧ visit.afterUserId = afterUserId ∧ user ∈ audiencePage users afterUserId) := by
  obtain ⟨leased, visited, filled⟩ := reachable_invariants initial run
  refine ⟨⟨filled.unique, filled.rows⟩, ?_, ?_⟩
  · intro page user hwatched watching hquiet event htold hpage hactor
    have served := Served.of_reachable initial hwatched
    have huser := (filled.watching watching).1
    constructor
    · intro htype
      exact served.row leased visited hquiet huser htold ⟨hpage, .inr (.inl htype)⟩ hactor
    · intro htype
      have hfollowed : Followed page event := ⟨hpage, htype.elim .inl fun h => .inr (.inr h)⟩
      obtain ⟨latest, hlatest, rfl | ⟨hupdated, -⟩, hrow⟩ :=
        served.row leased visited hquiet huser htold hfollowed hactor
      · exact hrow
      · simp [hupdated] at htype
  · intro hquiet event htold hother users hsame user hmem huser
    obtain ⟨row, hrow, rfl⟩ := mem_map.mp htold
    obtain ⟨first, hfirst, hid, hzero⟩ := visited.published row hrow (hquiet.1 row hrow) hother
    obtain ⟨visit, hvisit, hvisitId, hon⟩ := visited.comes leased hquiet.2 user
      (fun visit hvisit hid => hsame visit hvisit hid ▸ hmem) hfirst hid (hzero ▸ huser)
    rw [hsame visit hvisit hvisitId] at hon
    refine ⟨visit.afterUserId, ⟨visit, hvisit, hvisitId, rfl, hon⟩, ?_⟩
    rintro afterUserId ⟨other, hother, hotherId, rfl, hon'⟩
    exact visited.page_unique hsame hother hvisit hotherId hvisitId hon' hon

/-- User 3 watches page 5. -/
def exampleStart : State :=
  { db :=
      { events := []
        watchers := [⟨5, 3, ⟨true, false⟩⟩]
        preferences := []
        readers := [(5, 3)]
        jobs := []
        deliveries := []
        inbox := []
        clock := 0
        fresh := 0 }
    workers := []
    visits := []
    clearances := [] }

theorem exampleStart_initial : Initial exampleStart := ⟨rfl, rfl, rfl, rfl, rfl, rfl, rfl, by decide⟩

def noDiscussion : Discussion := ⟨[], []⟩

/-- All statements of the first worker's handler, and the completion of its job. -/
def handlerOps : List Op :=
  [.find, .check ⟨noDiscussion, false⟩, .insert, .settle, .complete].map (.work 1)

/-- Two updates of one bucket, published before its job runs. -/
def exampleOps : List Op :=
  [.write ⟨1, .updated, 5, 4, 0⟩, .publish 1 0 noDiscussion, .tick 60000,
    .write ⟨2, .updated, 5, 4, 60000⟩, .publish 2 60000 noDiscussion, .tick 65000, .claim 0]
    ++ handlerOps

/-- The second update is published by a publisher that began before the bucket ended, when the
job of the bucket has run already. -/
def lateOps : List Op :=
  [.write ⟨1, .updated, 5, 4, 0⟩, .publish 1 0 noDiscussion, .tick 125000, .claim 0]
    ++ handlerOps
    ++ [.write ⟨2, .updated, 5, 4, 125000⟩, .publish 2 100000 noDiscussion]

theorem watchers_told_example :
    let s := notifications.after exampleOps exampleStart
    Quiet s ∧ (∃ latest ∈ s.db.told,
      (latest = ⟨1, .updated, 5, 4, 0⟩ ∨ Supersedes latest ⟨1, .updated, 5, 4, 0⟩)
        ∧ ⟨latest.id, 3, 5⟩ ∈ s.db.inbox) := by
  have told := watchers_told exampleStart_initial
    (s := notifications.after exampleOps exampleStart)
    ⟨exampleOps, by decide, rfl⟩
  have hquiet : Quiet (notifications.after exampleOps exampleStart) := by decide
  have hrow := told.2.1 5 3 ⟨exampleOps, by decide, rfl⟩ (by decide) hquiet
    ⟨1, .updated, 5, 4, 0⟩ (by decide) rfl (by decide)
  exact ⟨hquiet, hrow.1 rfl⟩

/-- The user watches throughout and nothing is left to do, but the last update of the page is not
in the inbox. -/
theorem late_update_lost :
    let s := notifications.after lateOps exampleStart
    Initial exampleStart
      ∧ (notifications.restrict fun _ s => Watching 5 3 s).Valid lateOps exampleStart
      ∧ Watching 5 3 s ∧ Quiet s ∧ ⟨2, .updated, 5, 4, 125000⟩ ∈ s.db.told
      ∧ ¬ ∃ latest ∈ s.db.told,
        (latest = ⟨2, .updated, 5, 4, 125000⟩ ∨ Supersedes latest ⟨2, .updated, 5, 4, 125000⟩)
          ∧ ⟨latest.id, 3, 5⟩ ∈ s.db.inbox :=
  ⟨exampleStart_initial, by decide, by decide, by decide,
    by decide, by decide⟩

end TsEpistle.Notifications
