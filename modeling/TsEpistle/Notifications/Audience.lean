import TsEpistle.Notifications.Enqueue

/-! The pages of an audience. A page reaches its recipients one by one, and the cursor of the next
page is the last user of this one, so the pages of one list of candidates divide it. -/

namespace TsEpistle.Notifications
open Library Checked List

variable {db db' : Database} {event : NotificationOutboxEvent} {audienceAt afterUserId : Nat}
  {discussion : Discussion}

/-! ## Candidates and recipients -/

theorem candidates_ordered (db : Database) (event : NotificationOutboxEvent)
    (discussion : Discussion) : (candidates db event discussion).Pairwise (· < ·) := by
  unfold candidates
  dsimp only
  generalize (if event.type = .discussion then discussion.candidates else _) = users
  have hsorted := pairwise_insertionSort (· ≤ ·) users.dedup
  have hnodup : (users.dedup.insertionSort (· ≤ ·)).Nodup := (perm_insertionSort _ _).nodup_iff.mpr users.nodup_dedup
  exact (hsorted.and hnodup).imp fun h => lt_of_le_of_ne h.1 h.2

variable {recipient : NotificationRecipient}

theorem selectPageRecipient_some {userId : Nat} (h : selectPageRecipient db event userId = some recipient) :
    recipient.userId = userId ∧ recipient.pageId = event.pageId ∧ userId ≠ event.actorId := by
  unfold selectPageRecipient at h
  split at h
  · cases h
  · rename_i hother
    obtain ⟨selected, -, rfl⟩ := Option.map_eq_some_iff.mp h
    exact ⟨rfl, rfl, fun heq => hother (.inl heq)⟩

theorem selectDiscussionRecipient_some {userId : Nat}
    (h : selectDiscussionRecipient event discussion userId = some recipient) :
    recipient.userId = userId ∧ recipient.pageId = event.pageId ∧ userId ≠ event.actorId := by
  unfold selectDiscussionRecipient at h
  split at h
  · cases h
  · rename_i hother
    obtain ⟨selected, -, rfl⟩ := Option.map_eq_some_iff.mp h
    exact ⟨rfl, rfl, fun heq => hother (.inl heq)⟩

theorem mem_recipients (h : recipient ∈ recipients db event afterUserId discussion) :
    recipient.pageId = event.pageId ∧ recipient.userId ≠ event.actorId := by
  unfold recipients selectRecipients at h
  split at h
  · obtain ⟨userId, -, hselected⟩ := mem_filterMap.mp h
    obtain ⟨rfl, hpage, hactor⟩ := selectDiscussionRecipient_some hselected
    exact ⟨hpage, hactor⟩
  · obtain ⟨userId, -, hselected⟩ := mem_filterMap.mp h
    obtain ⟨rfl, hpage, hactor⟩ := selectPageRecipient_some hselected
    exact ⟨hpage, hactor⟩

/-! ## Cursors -/

section
variable {users : List Nat} {userId cursor : Nat}

theorem rows_ordered (hordered : users.Pairwise (· < ·)) : (audienceRows users afterUserId).Pairwise (· < ·) :=
  (hordered.filter _).sublist (take_sublist _ _)

theorem mem_audiencePage (h : userId ∈ audiencePage users afterUserId) : userId ∈ users ∧ afterUserId < userId := by
  have hmem := mem_of_mem_take (mem_of_mem_take h)
  simpa using hmem

theorem nextUserId_some (h : nextUserId users afterUserId = some cursor) :
    AUDIENCE_BATCH_SIZE < (audienceRows users afterUserId).length
      ∧ (audiencePage users afterUserId).getLast? = some cursor := by
  unfold nextUserId at h
  split at h
  · rename_i hlong
    exact ⟨hlong, h⟩
  · cases h

theorem nextUserId_gt (h : nextUserId users afterUserId = some cursor) : afterUserId < cursor :=
  (mem_audiencePage (mem_of_getLast? (nextUserId_some h).2)).2

/-- Nobody on a page is after the cursor of the next one. -/
theorem le_nextUserId (hordered : users.Pairwise (· < ·)) (h : nextUserId users afterUserId = some cursor)
    (hmem : userId ∈ audiencePage users afterUserId) : userId ≤ cursor := by
  obtain ⟨front, hfront⟩ := getLast?_eq_some_iff.mp (nextUserId_some h).2
  have hpage : (audiencePage users afterUserId).Pairwise (· < ·) := (rows_ordered hordered).sublist (take_sublist _ _)
  rw [hfront] at hpage hmem
  obtain hmem | hmem := mem_append.mp hmem
  · exact (pairwise_append.mp hpage).2.2 userId hmem cursor (by simp) |>.le
  · exact (mem_singleton.mp hmem).le

/-- A candidate is on this page, or after the cursor of the next one. -/
theorem visited_or_later (hordered : users.Pairwise (· < ·)) (huser : userId ∈ users)
    (hafter : afterUserId < userId) : userId ∈ audiencePage users afterUserId
      ∨ ∃ cursor, nextUserId users afterUserId = some cursor ∧ cursor < userId := by
  have hmem : userId ∈ users.filter fun other => afterUserId < other := by simp [huser, hafter]
  have hsorted : (users.filter fun other => afterUserId < other).Pairwise (· < ·) := hordered.filter _
  have htake : audiencePage users afterUserId =
      (users.filter fun other => afterUserId < other).take AUDIENCE_BATCH_SIZE := by
    simp [audiencePage, audienceRows, take_take]
  rw [← List.take_append_drop AUDIENCE_BATCH_SIZE (users.filter fun other => afterUserId < other)]
    at hmem hsorted
  obtain hmem | hmem := mem_append.mp hmem
  · exact .inl (htake ▸ hmem)
  · right
    have hlong : AUDIENCE_BATCH_SIZE < (users.filter fun other => afterUserId < other).length := by
      by_contra hshort
      rw [drop_eq_nil_of_le (by omega)] at hmem
      cases hmem
    have hne : audiencePage users afterUserId ≠ [] := by
      rw [htake, ne_eq, take_eq_nil_iff, not_or]
      refine ⟨by decide, ?_⟩
      rintro hnil
      rw [hnil] at hlong
      cases hlong
    refine ⟨(audiencePage users afterUserId).getLast hne, ?_, ?_⟩
    · rw [nextUserId, if_pos, getLast?_eq_some_getLast hne]
      rw [audienceRows, length_take]
      omega
    · refine (pairwise_append.mp hsorted).2.2 _ ?_ userId hmem
      rw [← htake]
      exact getLast_mem hne

end

/-! ## One page -/

/-- The recipients of a page, one after the other. -/
inductive Reached (event : NotificationOutboxEvent) (audienceAt : Nat) :
    List NotificationRecipient → Database → Database → Prop where
  | nil {db : Database} : Reached event audienceAt [] db db
  | cons {recipient : NotificationRecipient} {rest : List NotificationRecipient}
      {db mid db' : Database} (sound : db.Sound) (told : event ∈ db.told)
      (page : recipient.pageId = event.pageId)
      (step : Enqueued event audienceAt recipient db mid)
      (tail : Reached event audienceAt rest mid db') :
      Reached event audienceAt (recipient :: rest) db db'

variable {l : List NotificationRecipient}

/-- **Page rule.** What every recipient of the page keeps, the page keeps. -/
theorem Reached.invariant {I : Database → Prop} (h : Reached event audienceAt l db db') (hI : I db)
    (step : ∀ recipient ∈ l, ∀ db db', db.Sound → event ∈ db.told →
      recipient.pageId = event.pageId → Enqueued event audienceAt recipient db db' →
      I db → I db') : I db' := by
  induction h with
  | nil => exact hI
  | cons sound told page enqueued tail ih =>
    refine ih (step _ (mem_cons_self ..) _ _ sound told page enqueued hI) ?_
    exact fun recipient hmem => step recipient (mem_cons_of_mem _ hmem)

theorem Reached.calm (h : Reached event audienceAt l db db') : Calm db db' :=
  h.invariant (I := Calm db) (Calm.refl db) fun _ _ _ _ sound _ _ step calm =>
    calm.trans (step.calm sound)

theorem Reached.sound (h : Reached event audienceAt l db db') (sound : db.Sound) : db'.Sound :=
  h.invariant (I := Database.Sound) sound fun _ _ _ _ _ told page step sound =>
    step.sound told page sound

theorem foldlM_reached (sound : db.Sound) (htold : event ∈ db.told)
    (hpage : ∀ recipient ∈ l, recipient.pageId = event.pageId)
    (h : l.foldlM (enqueueRecipient event audienceAt) db = .ok db') : Reached event audienceAt l db db' := by
  induction l generalizing db with
  | nil =>
    cases h
    exact .nil
  | cons recipient rest ih =>
    rw [foldlM_cons] at h
    obtain ⟨mid, hmid, h⟩ := bind_ok h
    have hstep := enqueueRecipient_ok sound hmid
    have hown := hpage recipient (mem_cons_self ..)
    refine .cons sound htold hown hstep ?_
    refine ih (hstep.sound htold hown sound) ?_ ?_ h
    · rw [(hstep.calm sound).told]
      exact htold
    · exact fun other hother => hpage other (mem_cons_of_mem _ hother)

/-- What a page of the audience has written. -/
inductive Paged (event : NotificationOutboxEvent) (afterUserId audienceAt : Nat)
    (discussion : Discussion) (db : Database) : Database → Prop where
  | continued (reached : Database) (cursor : Nat)
      (next : nextUserId (candidates db event discussion) afterUserId = some cursor)
      (page : Reached event audienceAt (recipients db event afterUserId discussion) db reached) :
      Paged event afterUserId audienceAt discussion db
        (enqueue reached (.notificationAudience event.id cursor) (.audience event.id cursor audienceAt) reached.clock)
  | ended (reached : Database) (watchers : List WatcherRow)
      (sub : ∀ row ∈ watchers, row ∈ reached.watchers)
      (next : nextUserId (candidates db event discussion) afterUserId = none)
      (page : Reached event audienceAt (recipients db event afterUserId discussion) db reached) :
      Paged event afterUserId audienceAt discussion db { reached with watchers }

theorem enqueueNotificationAudience_ok (sound : db.Sound) (htold : event ∈ db.told)
    (h : enqueueNotificationAudience db event afterUserId audienceAt discussion = .ok db') :
    Paged event afterUserId audienceAt discussion db db' := by
  unfold enqueueNotificationAudience at h
  dsimp only at h
  obtain ⟨reached, hreached, h⟩ := bind_ok h
  have hpage : Reached event audienceAt (recipients db event afterUserId discussion) db reached :=
    foldlM_reached sound htold (fun recipient hmem => (mem_recipients hmem).1) hreached
  split at h
  · rename_i cursor hnext
    cases h
    exact .continued reached cursor hnext hpage
  · rename_i hnext
    split at h
    · cases h
      exact .ended reached _ (fun _ h => mem_of_mem_filter h) hnext hpage
    · cases h
      exact .ended db' db'.watchers (fun _ h => h) hnext hpage

theorem Paged.calm (h : Paged event afterUserId audienceAt discussion db db') : Calm db db' := by
  cases h with
  | continued reached cursor next page => exact page.calm.trans (enqueue_calm _ _ _)
  | ended reached watchers sub next page =>
    have hcalm := page.calm
    exact ⟨hcalm.told, hcalm.inbox, hcalm.readers, hcalm.clock, hcalm.preferences, hcalm.events,
      hcalm.fresh, hcalm.jobs, hcalm.keys, hcalm.delivered,
      fun row hrow => hcalm.watchers row (sub row hrow)⟩

theorem Paged.sound (h : Paged event afterUserId audienceAt discussion db db') (sound : db.Sound)
    (htold : event ∈ db.told) : db'.Sound := by
  cases h with
  | continued reached cursor next page =>
    refine (page.sound sound).enqueueAudience ?_ cursor reached.clock
    rw [page.calm.told]
    exact htold
  | ended reached watchers sub next page =>
    have hsound := page.sound sound
    exact ⟨hsound.eventIds, hsound.jobIds, hsound.jobKeys, hsound.deliveryIds,
      hsound.deliveryJobs, hsound.used, hsound.usedDeliveries,
      fun job hjob => (hsound.keyed job hjob).mono fun _ h => h, hsound.delivery⟩

end TsEpistle.Notifications
