import TsEpistle.Notifications.Visits

/-! The inbox: an event has at most one row for a user, and only after a check of the delivery
has found that the user can read the page and is not the one who acted. -/

namespace TsEpistle.Notifications
open Library List

variable {s s' : State} {db : Database} {event : NotificationOutboxEvent}

/-- A delivery of the event has found that the user could read the page then. -/
structure State.Cleared (s : State) (event : NotificationOutboxEvent) (userId : Nat) : Prop where
  told : event ∈ s.db.told
  other : event.actorId ≠ userId
  readable : ∃ clearance ∈ s.clearances, clearance.eventId = event.id
    ∧ clearance.userId = userId ∧ (event.pageId, userId) ∈ clearance.readers

structure Filled (s : State) : Prop where
  unique : (s.db.inbox.map fun row => (row.eventId, row.userId)).Nodup
  rows : ∀ row ∈ s.db.inbox, ∃ event, s.Cleared event row.userId ∧ event.id = row.eventId ∧ event.pageId = row.pageId
  workers : ∀ worker ∈ s.workers, ∀ payload inAppEnabled, worker.payload = .delivery payload →
    worker.phase = .cleared inAppEnabled → ∃ event, s.Cleared event payload.userId ∧ event.id = payload.eventId
  watchers : ∀ row ∈ s.db.watchers, 0 < row.userId ∧ row.userId ≠ 2

theorem Filled.initial (h : Initial s) : Filled s := by
  refine ⟨?_, ?_, ?_, h.watchers⟩ <;> simp [h.inbox, h.workers]

theorem State.Cleared.mono {userId : Nat} (h : s.Cleared event userId) (htold : ∀ event ∈ s.db.told, event ∈ s'.db.told)
    (hclearances : ∀ clearance ∈ s.clearances, clearance ∈ s'.clearances) : s'.Cleared event userId := by
  obtain ⟨clearance, hmem, hreadable⟩ := h.readable
  exact ⟨htold event h.told, h.other, clearance, hclearances clearance hmem, hreadable⟩

theorem verdict_cleared {payload : DeliveryPayload} {circumstances : Circumstances}
    {inAppEnabled : Bool} (h : verdict db event payload circumstances = .cleared inAppEnabled) :
    event.actorId ≠ payload.userId ∧ (event.pageId, payload.userId) ∈ db.readers := by
  unfold verdict at h
  split at h
  · cases h
  · split at h
    · cases h
    · rename_i hallowed
      split at h
      · cases h
      · rename_i hreadable
        exact ⟨fun heq => hallowed (.inl heq), by simpa using hreadable⟩

/-- No row is added to the inbox. -/
theorem Filled.mono (filled : Filled s) (hinbox : List.Sublist s'.db.inbox s.db.inbox)
    (htold : ∀ event ∈ s.db.told, event ∈ s'.db.told)
    (hclearances : ∀ clearance ∈ s.clearances, clearance ∈ s'.clearances)
    (hworkers : ∀ worker ∈ s'.workers, worker.phase = .started
      ∨ ∃ old ∈ s.workers, old.payload = worker.payload ∧ old.phase = worker.phase)
    (hwatchers : ∀ row ∈ s'.db.watchers, row ∈ s.db.watchers ∨ (0 < row.userId ∧ row.userId ≠ 2)) : Filled s' := by
  refine ⟨filled.unique.sublist (hinbox.map _), ?_, ?_, ?_⟩
  · intro row hrow
    obtain ⟨event, hcleared, h⟩ := filled.rows row (hinbox.subset hrow)
    exact ⟨event, hcleared.mono htold hclearances, h⟩
  · intro worker hworker payload inAppEnabled hpayload hphase
    obtain hstarted | ⟨old, hold, hsame, hsamePhase⟩ := hworkers worker hworker
    · rw [hphase] at hstarted
      cases hstarted
    · obtain ⟨event, hcleared, hid⟩ := filled.workers old hold payload inAppEnabled
        (hsame.trans hpayload) (hsamePhase.trans hphase)
      exact ⟨event, hcleared.mono htold hclearances, hid⟩
  · intro row hrow
    exact (hwatchers row hrow).elim (filled.watchers row) id

theorem Filled.goto (filled : Filled s) {leaseToken : Nat} {phase : Phase}
    (hphase : ∀ inAppEnabled, phase = .cleared inAppEnabled → ∀ worker ∈ s.workers,
      worker.leaseToken = leaseToken → ∀ payload, worker.payload = .delivery payload →
        ∃ event, s.Cleared event payload.userId ∧ event.id = payload.eventId) :
    Filled (s.goto leaseToken phase) := by
  have hgoto : ∀ {event userId}, s.Cleared event userId →
      (s.goto leaseToken phase).Cleared event userId :=
    fun h => h.mono (fun _ h => h) fun _ h => h
  refine ⟨filled.unique, ?_, ?_, filled.watchers⟩
  · intro row hrow
    obtain ⟨event, hcleared, h⟩ := filled.rows row hrow
    exact ⟨event, hgoto hcleared, h⟩
  · intro worker hworker payload inAppEnabled hpayload hcleared
    obtain ⟨old, hold, -, -, hsame, ⟨hown, hnew⟩ | ⟨-, rfl⟩⟩ := mem_goto hworker
    · obtain ⟨event, hevent, hid⟩ := hphase inAppEnabled (hnew.symm.trans hcleared) old hold hown
        payload (hsame.symm.trans hpayload)
      exact ⟨event, hgoto hevent, hid⟩
    · obtain ⟨event, hevent, hid⟩ := filled.workers worker hold payload inAppEnabled hpayload
        hcleared
      exact ⟨event, hgoto hevent, hid⟩

theorem mem_insertNotification {row other : NotificationRow}
    (h : other ∈ (insertNotification db row).inbox) : other ∈ db.inbox ∨ other = row := by
  unfold insertNotification at h
  split at h
  · exact .inl h
  · exact (mem_append.mp h).imp_right mem_singleton.mp

theorem insertNotification_unique {row : NotificationRow}
    (h : (db.inbox.map fun row => (row.eventId, row.userId)).Nodup) :
    ((insertNotification db row).inbox.map fun row => (row.eventId, row.userId)).Nodup := by
  unfold insertNotification
  split
  · exact h
  · rename_i hnew
    refine nodup_snoc h fun other hother heq => ?_
    rw [Prod.mk.injEq] at heq
    exact hnew ⟨other, hother, heq⟩

theorem Filled.worked (filled : Filled s) (leased : Leased s) {worker : Worker} {action : Action}
    (hworker : worker ∈ s.workers) (h : Worked worker s action s') : Filled s' := by
  have hsame : ∀ {s' : State}, s'.db.inbox = s.db.inbox → s'.db.told = s.db.told →
      s'.clearances = s.clearances → s'.workers = s.workers →
      (∀ row ∈ s'.db.watchers, row ∈ s.db.watchers) → Filled s' := by
    intro s' hinbox htold hclearances hworkers hwatchers
    exact filled.mono (hinbox ▸ Sublist.refl _) (fun _ h => htold ▸ h)
      (fun _ h => hclearances ▸ h) (fun worker h => .inr ⟨worker, hworkers ▸ h, rfl, rfl⟩)
      fun row h => .inl (hwatchers row h)
  have hown : ∀ {payload : DeliveryPayload}, worker.payload = .delivery payload →
      ∀ other ∈ s.workers, other.leaseToken = worker.leaseToken →
        ∀ payload', other.payload = .delivery payload' → payload' = payload := by
    intro payload hpayload other hother htoken payload' hpayload'
    obtain rfl := inj_on_of_nodup_map leased.tokens hother hworker htoken
    rw [hpayload] at hpayload'
    cases hpayload'
    rfl
  cases h with
  | idle => exact filled
  | threw | found | refused | orphaned | settledBefore => exact filled.goto nofun
  | paged event afterUserId audienceAt discussion db started payload told paged =>
    have hcalm := paged.calm
    refine Filled.goto ?_ nofun
    exact hsame hcalm.inbox hcalm.told rfl rfl hcalm.watchers
  | unreadable payload event circumstances holds told id verdict =>
    refine Filled.goto ?_ nofun
    exact filled.mono filter_sublist (fun _ h => h) (fun _ h => h)
      (fun worker h => .inr ⟨worker, h, rfl, rfl⟩) fun row h => .inl (mem_of_mem_filter h)
  | cleared payload event circumstances inAppEnabled holds told id verdict =>
    refine Filled.goto ?_ ?_
    · exact filled.mono (Sublist.refl _) (fun _ h => h)
        (fun _ h => mem_append_left _ h) (fun worker h => .inr ⟨worker, h, rfl, rfl⟩)
        fun row h => .inl h
    · intro _ _ other hother htoken payload' hpayload'
      obtain rfl := hown holds other hother htoken payload' hpayload'
      obtain ⟨hactor, hreadable⟩ := verdict_cleared verdict
      exact ⟨event, ⟨told, hactor, _, mem_append_right _ (mem_singleton_self _), rfl, rfl, hreadable⟩, id⟩
  | inserted payload event inAppEnabled holds phase told id =>
    refine Filled.goto ?_ nofun
    split
    · obtain ⟨cleared, hcleared, hclearedId⟩ :=
        filled.workers worker hworker payload inAppEnabled holds phase
      obtain rfl := leased.sound.event_unique hcleared.told told (hclearedId.trans id.symm)
      have hdb : (insertNotification s.db ⟨cleared.id, payload.userId, cleared.pageId⟩).told =
          s.db.told ∧ (insertNotification s.db
            ⟨cleared.id, payload.userId, cleared.pageId⟩).watchers = s.db.watchers := by
        unfold insertNotification
        split
        · exact ⟨rfl, rfl⟩
        · exact ⟨rfl, rfl⟩
      have hmono : ∀ {event userId}, s.Cleared event userId → State.Cleared
          { s with
            db := insertNotification s.db ⟨cleared.id, payload.userId, cleared.pageId⟩ }
          event userId := by
        intro event userId h
        exact h.mono (fun _ h => hdb.1 ▸ h) fun _ h => h
      refine ⟨insertNotification_unique filled.unique, ?_, ?_, ?_⟩
      · intro row hrow
        obtain hrow | rfl := mem_insertNotification hrow
        · obtain ⟨event, hevent, h⟩ := filled.rows row hrow
          exact ⟨event, hmono hevent, h⟩
        · exact ⟨cleared, hmono hcleared, rfl, rfl⟩
      · intro other hother payload' inAppEnabled' hpayload' hphase'
        obtain ⟨event, hevent, h⟩ := filled.workers other hother _ _ hpayload' hphase'
        exact ⟨event, hmono hevent, h⟩
      · exact fun row hrow => filled.watchers row (hdb.2 ▸ hrow)
    · exact filled
  | settled payload holds phase =>
    refine Filled.goto ?_ nofun
    exact hsame rfl rfl rfl rfl fun _ h => h
  | completed | failed => exact hsame rfl rfl rfl rfl fun _ h => h

theorem Filled.step (filled : Filled s) (leased : Leased s) {op : Op} (h : Step s op s') : Filled s' := by
  cases h with
  | idle => exact filled
  | around db jobs deliveries inbox fresh events watchers =>
    refine filled.mono (inbox ▸ Sublist.refl _) ?_ (fun _ h => h)
      (fun worker h => .inr ⟨worker, h, rfl, rfl⟩) watchers
    intro event hevent
    rw [Database.told, events]
    exact hevent
  | written event new =>
    refine filled.mono (Sublist.refl _) ?_ (fun _ h => h)
      (fun worker h => .inr ⟨worker, h, rfl, rfl⟩) fun row h => .inl h
    intro told htold
    rw [Database.told, map_append]
    exact mem_append_left _ htold
  | published event now discussion reached visits unpublished paged =>
    have htold : event ∈ s.db.told := mem_map_of_mem unpublished
    obtain ⟨hcalm, -, -⟩ := published_calm leased.sound htold paged
    refine filled.mono (hcalm.inbox ▸ Sublist.refl _) ?_ (fun _ h => h)
      (fun worker h => .inr ⟨worker, h, rfl, rfl⟩) fun row h => .inl (hcalm.watchers row h)
    intro told htold
    rw [Database.told, told_published]
    rw [← hcalm.told] at htold
    exact htold
  | claimed job mem claimable =>
    refine filled.mono (Sublist.refl _) (fun _ h => h) (fun _ h => h) ?_
      fun row h => .inl h
    intro worker hworker
    obtain hworker | hworker := mem_append.mp hworker
    · exact .inr ⟨worker, hworker, rfl, rfl⟩
    · rw [mem_singleton.mp hworker]
      exact .inl rfl
  | worked worker action s' mem worked => exact filled.worked leased mem worked

end TsEpistle.Notifications
