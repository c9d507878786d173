import TsEpistle.Notifications.Inbox

/-! Updates that share a job. A newer update is kept if it comes while the job of its bucket is
pending and nothing has been delivered; then a job of the user stands for it from there on. -/

namespace TsEpistle.Notifications
open Library List

variable {db db' : Database} {event : NotificationOutboxEvent} {audienceAt afterUserId : Nat}
  {discussion : Discussion} {recipient : NotificationRecipient} {page user : Nat}

/-! ## Who watches -/

/-- The user watches the page with the channel of the inbox on, and can read it. -/
def Watching (page user : Nat) (s : State) : Prop :=
  (s.db.watcher page user).map (fun row => row.channels.inAppEnabled) = some true ∧ (page, user) ∈ s.db.readers

instance (page user : Nat) (s : State) : Decidable (Watching page user s) :=
  inferInstanceAs (Decidable (_ ∧ _))

/-- The events of a page that its watchers are told, deletion aside. -/
def Followed (page : Nat) (event : NotificationOutboxEvent) : Prop :=
  event.pageId = page ∧ (event.type = .created ∨ event.type = .updated ∨ event.type = .changed)

theorem watcher_some {row : WatcherRow} (h : db.watcher page user = some row) :
    row ∈ db.watchers ∧ row.pageId = page ∧ row.userId = user := by
  have hrow := find?_some (show List.find? _ db.watchers = some row from h)
  have hpair := of_decide_eq_true hrow
  exact ⟨mem_of_find?_eq_some h, hpair.1, hpair.2⟩

theorem selectPageRecipient_watching (hfollowed : Followed page event)
    (hwatch : (db.watcher page user).map (fun row => row.channels.inAppEnabled) = some true)
    (hactor : user ≠ event.actorId) (hguest : user ≠ 2) :
    ∃ recipient, selectPageRecipient db event user = some recipient ∧ recipient.userId = user
      ∧ recipient.category = .pageWatch ∧ recipient.channels.inAppEnabled = true := by
  obtain ⟨row, hrow, happ⟩ := Option.map_eq_some_iff.mp hwatch
  obtain ⟨rfl, htype⟩ := hfollowed
  have hkept : event.type ≠ .deleted := by
    rintro hdeleted
    simp [hdeleted] at htype
  refine ⟨⟨user, event.pageId, event.actorId, .pageWatch, row.channels⟩, ?_, rfl, rfl, happ⟩
  simp [selectPageRecipient, hactor, hguest, hkept, hrow, happ, Channels.any, Option.filter]

theorem candidates_watching (hfollowed : Followed page event)
    (hwatch : (db.watcher page user).map (fun row => row.channels.inAppEnabled) = some true) :
    user ∈ candidates db event discussion := by
  obtain ⟨row, hrow, happ⟩ := Option.map_eq_some_iff.mp hwatch
  obtain ⟨rfl, htype⟩ := hfollowed
  obtain ⟨hmem, hpage, huser⟩ := watcher_some hrow
  have hdiscussion : event.type ≠ .discussion := by
    rintro hdiscussion
    simp [hdiscussion] at htype
  have hwatchers : user ∈ (db.watchers.filter fun row =>
      row.pageId = event.pageId ∧ row.channels.any).map WatcherRow.userId := by
    refine mem_map.mpr ⟨row, mem_filter.mpr ⟨hmem, ?_⟩, huser⟩
    simp [hpage, Channels.any, happ]
  unfold candidates
  dsimp only
  rw [mem_insertionSort, mem_dedup, if_neg hdiscussion]
  split
  · exact hwatchers
  · exact mem_append_left _ hwatchers

theorem recipients_watching (hfollowed : Followed page event)
    (hwatch : (db.watcher page user).map (fun row => row.channels.inAppEnabled) = some true)
    (hguest : user ≠ 2) :
    (event.actorId ≠ user → user ∈ audiencePage (candidates db event discussion) afterUserId →
        ∃ recipient ∈ recipients db event afterUserId discussion, recipient.userId = user)
      ∧ ∀ recipient ∈ recipients db event afterUserId discussion, recipient.userId = user →
        recipient.category = .pageWatch ∧ recipient.channels.inAppEnabled = true := by
  have hdiscussion : event.type ≠ .discussion := by
    rintro hdiscussion
    simp [Followed, hdiscussion] at hfollowed
  unfold recipients selectRecipients
  rw [if_neg hdiscussion]
  constructor
  · intro hactor hpage
    obtain ⟨recipient, hselected, huser, -⟩ := selectPageRecipient_watching hfollowed hwatch hactor.symm hguest
    exact ⟨recipient, mem_filterMap.mpr ⟨user, hpage, hselected⟩, huser⟩
  · intro recipient hmem huser
    obtain ⟨userId, -, hselected⟩ := mem_filterMap.mp hmem
    obtain ⟨heq, -, hactor⟩ := selectPageRecipient_some hselected
    obtain rfl : userId = user := heq.symm.trans huser
    obtain ⟨other, hother, -, h⟩ := selectPageRecipient_watching hfollowed hwatch hactor hguest
    rw [hselected] at hother
    cases hother
    exact h

/-! ## In time -/

/-- An update that is newer than the one its bucket's job is about finds this job pending, and its
delivery not made. -/
def JoinsInTime (db : Database) (event : NotificationOutboxEvent) (audienceAt : Nat)
    (recipient : NotificationRecipient) : Prop :=
  aggregated event recipient = true →
    ∀ job ∈ db.jobs, job.key = recipientKey event recipient audienceAt →
      ∀ current ∈ job.payload.delivery?.toList,
        ∀ previous ∈ db.told, previous.id = current.eventId → event.After previous →
          job.state = .pending ∧ ∀ row ∈ db.deliveries, row.id = current.deliveryId → row.delivered = false

instance (db : Database) (event : NotificationOutboxEvent) (audienceAt : Nat)
    (recipient : NotificationRecipient) : Decidable (JoinsInTime db event audienceAt recipient) :=
  inferInstanceAs (Decidable (_ → ∀ _ ∈ _, _ → ∀ _ ∈ _, ∀ _ ∈ _, _ → _ → _ ∧ _))

/-- All that a page of the audience reaches is reached in time. -/
def ReachesInTime (db : Database) (event : NotificationOutboxEvent) (afterUserId audienceAt : Nat)
    (discussion : Discussion) : Prop :=
  ∀ recipient ∈ recipients db event afterUserId discussion, JoinsInTime db event audienceAt recipient

instance (db : Database) (event : NotificationOutboxEvent) (afterUserId audienceAt : Nat)
    (discussion : Discussion) :
    Decidable (ReachesInTime db event afterUserId audienceAt discussion) :=
  inferInstanceAs (Decidable (∀ _ ∈ _, _))

def Payload.ReachesInTime (db : Database) (discussion : Discussion) : Payload → Prop
  | .delivery _ => True
  | .audience eventId afterUserId audienceAt =>
    ∀ event ∈ db.told, event.id = eventId → Notifications.ReachesInTime db event afterUserId audienceAt discussion

instance (db : Database) (discussion : Discussion) :
    ∀ payload : Payload, Decidable (payload.ReachesInTime db discussion)
  | .delivery _ => inferInstanceAs (Decidable True)
  | .audience .. => inferInstanceAs (Decidable (∀ _ ∈ _, _ → _))

def InTime : Op → State → Prop
  | .publish eventId now discussion, s =>
    ∀ row ∈ s.db.events, row.event.id = eventId → row.published = false →
      row.event.type ≠ .other → ReachesInTime s.db row.event 0 now discussion
  | .work leaseToken (.audience discussion), s =>
    ∀ worker ∈ s.workers, worker.leaseToken = leaseToken → worker.phase = .started →
      worker.payload.ReachesInTime s.db discussion
  | _, _ => True

instance : ∀ op s, Decidable (InTime op s)
  | .publish .., _ => inferInstanceAs (Decidable (∀ _ ∈ _, _ → _ → _ → _))
  | .work _ (.audience _), _ => inferInstanceAs (Decidable (∀ _ ∈ _, _ → _ → _))
  | .work _ .find, _ | .work _ (.check _), _ | .work _ .insert, _ | .work _ .settle, _
  | .work _ .throw, _ | .work _ .complete, _ | .work _ (.fail _), _ | .write _, _ | .watch _, _
  | .unwatch .., _ | .prefer _, _ | .allow .., _ | .withdraw .., _ | .claim _, _ | .tick _, _ =>
    inferInstanceAs (Decidable True)

theorem JoinsInTime.rows (h : JoinsInTime db event audienceAt recipient) (hshared : aggregated event recipient = true)
    {job : Job} (hjob : job ∈ db.jobs) (hkey : job.key = recipientKey event recipient audienceAt)
    {current : DeliveryPayload} (hholds : job.payload = .delivery current) {previous : NotificationOutboxEvent}
    (htold : previous ∈ db.told) (hid : previous.id = current.eventId) (hafter : event.After previous) :
    job.state = .pending ∧ ∀ row ∈ db.deliveries, row.id = current.deliveryId → row.delivered = false :=
  h hshared job hjob hkey current (by simp [hholds, Payload.delivery?]) previous htold hid hafter

theorem NotificationOutboxEvent.not_after_self (event : NotificationOutboxEvent) : ¬ event.After event := by
  unfold NotificationOutboxEvent.After
  omega

theorem NotificationOutboxEvent.After.trans {first second third : NotificationOutboxEvent}
    (h : third.After second) (h' : second.After first) : third.After first := by
  unfold NotificationOutboxEvent.After at *
  omega

/-- Other recipients of the event do not delay this one. -/
theorem JoinsInTime.enqueued {other : NotificationRecipient} (h : JoinsInTime db event audienceAt other)
    (sound : db.Sound) (htold : event ∈ db.told) (step : Enqueued event audienceAt recipient db db') :
    JoinsInTime db' event audienceAt other := by
  -- a job that holds the event itself holds nothing older
  have hself : ∀ {previous : NotificationOutboxEvent}, previous ∈ db.told →
      previous.id = event.id → ¬ event.After previous := by
    intro previous hprevious hid hafter
    obtain rfl := sound.event_unique hprevious htold hid
    exact previous.not_after_self hafter
  intro hshared job hjob hkey current hcurrent previous hprevious hid hafter
  have hholds : job.payload = .delivery current := by
    cases hpayload : job.payload <;> simp_all [Payload.delivery?]
  cases step with
  | kept => exact h.rows hshared hjob hkey hholds hprevious hid hafter
  | added nextRunAt new =>
    obtain hjob | hjob := mem_append.mp hjob
    · obtain ⟨hpending, hrows⟩ := h.rows hshared hjob hkey hholds hprevious hid hafter
      refine ⟨hpending, fun row hrow hrowId => ?_⟩
      obtain hrow | hrow := mem_append.mp hrow
      · exact hrows row hrow hrowId
      · rw [mem_singleton.mp hrow]
    · rw [mem_singleton.mp hjob] at hholds
      cases hholds
      exact absurd hafter (hself hprevious hid)
  | rewritten own held before mem key holds pending shared told beforeId later =>
    obtain rfl | ⟨hjob, -⟩ := Table.mem_replace Job.id hjob
    · cases hholds
      exact absurd hafter (hself hprevious hid)
    · obtain ⟨hpending, hrows⟩ := h.rows hshared hjob hkey hholds hprevious hid hafter
      refine ⟨hpending, fun row hrow hrowId => ?_⟩
      obtain ⟨old, hold, rfl⟩ := Table.mem_updateWhere.mp hrow
      split at hrowId
      · rename_i hheld
        rw [if_pos hheld]
        exact hrows old hold hrowId
      · rename_i hheld
        rw [if_neg hheld]
        exact hrows old hold hrowId

/-! ## The event a job stands for -/

/-- A later update of the same page. -/
def Supersedes (latest event : NotificationOutboxEvent) : Prop :=
  event.type = .updated ∧ latest.type = .updated ∧ latest.pageId = event.pageId ∧ latest.After event

instance (latest event : NotificationOutboxEvent) : Decidable (Supersedes latest event) :=
  inferInstanceAs (Decidable (_ ∧ _ ∧ _ ∧ _))

/-- A job of the user is about the event, or about a later update. -/
def Handled (db : Database) (userId : Nat) (event : NotificationOutboxEvent) : Prop :=
  ∃ job ∈ db.jobs, ∃ payload, job.payload = .delivery payload ∧ payload.userId = userId
    ∧ ∃ latest ∈ db.told, latest.id = payload.eventId ∧ (latest = event ∨ Supersedes latest event)

/-- What a shared job is about, by its key. -/
theorem Database.Sound.shared_event (sound : db.Sound) {job : Job} {current : DeliveryPayload} (hjob : job ∈ db.jobs)
    (hkey : job.key = recipientKey event recipient audienceAt) (hholds : job.payload = .delivery current)
    (hshared : aggregated event recipient = true) {previous : NotificationOutboxEvent} (htold : previous ∈ db.told)
    (hid : previous.id = current.eventId) : previous.type = .updated ∧ previous.pageId = recipient.pageId := by
  have hkeyed := sound.keyed job hjob
  rw [hkey, (shared_key _ hshared).2, hholds] at hkeyed
  obtain ⟨-, other, hother, hotherId, h⟩ := hkeyed
  obtain rfl := sound.event_unique hother htold (hotherId.trans hid.symm)
  exact h

theorem Handled.enqueued {userId : Nat} {other : NotificationOutboxEvent} (h : Handled db userId other)
    (sound : db.Sound) (htold : event ∈ db.told) (hpage : recipient.pageId = event.pageId)
    (step : Enqueued event audienceAt recipient db db') : Handled db' userId other := by
  obtain ⟨job, hjob, payload, hpayload, huser, latest, hlatest, hid, hstands⟩ := h
  cases step with
  | kept => exact ⟨job, hjob, payload, hpayload, huser, latest, hlatest, hid, hstands⟩
  | added nextRunAt new =>
    exact ⟨job, mem_append_left _ hjob, payload, hpayload, huser, latest, hlatest, hid, hstands⟩
  | rewritten own current previous mem key holds pending shared told previousId later =>
    by_cases hown : job.id = own.id
    · obtain rfl := sound.job_unique hjob mem hown
      rw [hpayload] at holds
      cases holds
      obtain rfl := sound.event_unique hlatest told (hid.trans previousId.symm)
      obtain ⟨htype, hprevious⟩ := sound.shared_event mem key hpayload shared told previousId
      have hupdated := (shared_key audienceAt shared).1
      refine ⟨_, Table.mem_updateWhere.mpr ⟨job, mem, if_pos (by simp)⟩, _, rfl, ?_, event, htold, rfl, .inr ?_⟩
      · exact (sound.keyed_user mem key hpayload).symm.trans huser
      · obtain rfl | ⟨htype', -, hpage', hafter⟩ := hstands
        · exact ⟨htype, hupdated, hpage.symm.trans hprevious.symm, later⟩
        · exact ⟨htype', hupdated, (hpage.symm.trans hprevious.symm).trans hpage', later.trans hafter⟩
    · exact ⟨job, Table.mem_updateWhere.mpr ⟨job, hjob, if_neg (by simpa using hown)⟩, payload,
        hpayload, huser, latest, hlatest, hid, hstands⟩

/-- The recipient's own job. -/
theorem Enqueued.handled (step : Enqueued event audienceAt recipient db db') (sound : db.Sound)
    (htold : event ∈ db.told) (hpage : recipient.pageId = event.pageId)
    (hintime : JoinsInTime db event audienceAt recipient) : Handled db' recipient.userId event := by
  cases step with
  | kept job current mem key holds settled =>
    have huser := sound.keyed_user mem key holds
    refine ⟨job, mem, current, holds, huser, ?_⟩
    by_cases hown : current.eventId = event.id
    · exact ⟨event, htold, hown.symm, .inl rfl⟩
    · obtain ⟨hshared, hpending⟩ := settled.resolve_left hown
      have hkeyed := sound.keyed job mem
      rw [key, (shared_key _ hshared).2, holds] at hkeyed
      obtain ⟨-, previous, hprevious, hid, htype, hprevPage⟩ := hkeyed
      have hnot : ¬ event.After previous := by
        intro hafter
        have hstate := (hintime.rows hshared mem key holds hprevious hid hafter).1
        obtain ⟨other, hother, hotherId, hnotAfter⟩ := hpending hstate
        obtain rfl := sound.event_unique hother hprevious (hotherId.trans hid.symm)
        exact hnotAfter hafter
      have hne : previous.id ≠ event.id := fun heq => hown (hid.symm.trans heq)
      refine ⟨previous, hprevious, hid, .inr ⟨(shared_key audienceAt hshared).1, htype, hprevPage.trans hpage, ?_⟩⟩
      unfold NotificationOutboxEvent.After at hnot ⊢
      omega
  | added nextRunAt new =>
    exact ⟨_, mem_append_right _ (mem_singleton_self _), _, rfl, rfl, event, htold, rfl, .inl rfl⟩
  | rewritten own current previous mem key holds pending shared told previousId later =>
    exact ⟨_, Table.mem_updateWhere.mpr ⟨own, mem, if_pos (by simp)⟩, _, rfl, rfl, event, htold, rfl, .inl rfl⟩

/-- Everybody whom a page has reached in time is handled. -/
theorem Reached.handled {l : List NotificationRecipient} (h : Reached event audienceAt l db db')
    (hintime : ∀ recipient ∈ l, JoinsInTime db event audienceAt recipient) :
    ∀ recipient ∈ l, Handled db' recipient.userId event := by
  induction h with
  | nil => nofun
  | cons sound told page step tail ih =>
    intro recipient hmem
    obtain rfl | hmem := mem_cons.mp hmem
    · have hstart := step.handled sound told page (hintime _ (mem_cons_self ..))
      exact tail.invariant (I := fun db => Handled db recipient.userId event) hstart
        fun _ _ _ _ sound told page step h => h.enqueued sound told page step
    · refine ih (fun other hother => ?_) recipient hmem
      exact (hintime other (mem_cons_of_mem _ hother)).enqueued sound told step

end TsEpistle.Notifications
