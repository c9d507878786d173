import TsEpistle.Notifications.Delivery

/-! The pages that an event's audience is visited in, and the rows of the inbox. The cursors of
one event form a chain, so that every candidate is on a page of it, and on one page only. -/

namespace TsEpistle.Notifications
open Library List

variable {s s' : State} {db db' : Database} {event : NotificationOutboxEvent}
  {audienceAt afterUserId : Nat} {discussion : Discussion}

/-- A page has ended where the one after `afterUserId` begins. -/
def State.Continued (s : State) (eventId afterUserId : Nat) : Prop :=
  ∃ visit ∈ s.visits, visit.eventId = eventId ∧ nextUserId visit.users visit.afterUserId = some afterUserId

structure Visited (s : State) : Prop where
  published : ∀ row ∈ s.db.events, row.published = true → row.event.type ≠ .other →
    ∃ visit ∈ s.visits, visit.eventId = row.event.id ∧ visit.afterUserId = 0
  continues : ∀ visit ∈ s.visits, ∀ cursor,
    nextUserId visit.users visit.afterUserId = some cursor →
      ∃ job ∈ s.db.jobs, job.key = .notificationAudience visit.eventId cursor
  asked : ∀ job ∈ s.db.jobs, ∀ eventId afterUserId audienceAt,
    job.payload = .audience eventId afterUserId audienceAt → s.Continued eventId afterUserId
  taken : ∀ worker ∈ s.workers, ∀ eventId afterUserId audienceAt,
    worker.payload = .audience eventId afterUserId audienceAt → s.Continued eventId afterUserId
  cursors : ∀ visit ∈ s.visits, visit.afterUserId = 0 ∨ s.Continued visit.eventId visit.afterUserId
  ordered : ∀ visit ∈ s.visits, visit.users.Pairwise (· < ·)

theorem Visited.initial (h : Initial s) : Visited s := by
  refine ⟨?_, ?_, ?_, ?_, ?_, ?_⟩ <;> simp [h.events, h.jobs, h.workers, h.visits]

/-- No page is visited. -/
theorem Visited.mono (visited : Visited s) (hvisits : s'.visits = s.visits)
    (hevents : ∀ row ∈ s'.db.events, row.published = true → row ∈ s.db.events)
    (hkeys : ∀ job ∈ s.db.jobs, ∃ job' ∈ s'.db.jobs, job'.key = job.key)
    (hjobs : ∀ job ∈ s'.db.jobs, ∃ old ∈ s.db.jobs, old.payload = job.payload)
    (hworkers : ∀ worker ∈ s'.workers, (∃ old ∈ s.workers, old.payload = worker.payload)
      ∨ ∃ job ∈ s.db.jobs, job.payload = worker.payload) : Visited s' := by
  have hcontinued : ∀ {eventId afterUserId}, s.Continued eventId afterUserId →
      s'.Continued eventId afterUserId := by
    intro eventId afterUserId h
    rw [State.Continued, hvisits]
    exact h
  refine ⟨?_, ?_, ?_, ?_, ?_, ?_⟩
  · intro row hrow hpublished htype
    rw [hvisits]
    exact visited.published row (hevents row hrow hpublished) hpublished htype
  · intro visit hvisit cursor hnext
    rw [hvisits] at hvisit
    obtain ⟨job, hjob, hkey⟩ := visited.continues visit hvisit cursor hnext
    obtain ⟨job', hjob', hkey'⟩ := hkeys job hjob
    exact ⟨job', hjob', hkey'.trans hkey⟩
  · intro job hjob eventId afterUserId audienceAt hpayload
    obtain ⟨old, hold, heq⟩ := hjobs job hjob
    exact hcontinued (visited.asked old hold _ _ _ (heq.trans hpayload))
  · intro worker hworker eventId afterUserId audienceAt hpayload
    obtain ⟨old, hold, heq⟩ | ⟨job, hjob, heq⟩ := hworkers worker hworker
    · exact hcontinued (visited.taken old hold _ _ _ (heq.trans hpayload))
    · exact hcontinued (visited.asked job hjob _ _ _ (heq.trans hpayload))
  · intro visit hvisit
    rw [hvisits] at hvisit
    exact (visited.cursors visit hvisit).imp_right hcontinued
  · intro visit hvisit
    rw [hvisits] at hvisit
    exact visited.ordered visit hvisit

theorem Visited.goto (visited : Visited s) (leaseToken : Nat) (phase : Phase) : Visited (s.goto leaseToken phase) := by
  refine visited.mono rfl (fun _ h _ => h) (fun job h => ⟨job, h, rfl⟩)
    (fun job h => ⟨job, h, rfl⟩) fun worker hworker => ?_
  obtain ⟨old, hold, -, -, hpayload, -⟩ := mem_goto hworker
  exact .inl ⟨old, hold, hpayload.symm⟩

/-- Recipients add no page. -/
theorem Reached.audiences {l : List NotificationRecipient} (h : Reached event audienceAt l db db') :
    ∀ job ∈ db'.jobs, ∀ eventId afterUserId at', job.payload = .audience eventId afterUserId at' →
      ∃ old ∈ db.jobs, old.payload = job.payload := by
  refine h.invariant (I := fun db' => ∀ job ∈ db'.jobs, ∀ eventId afterUserId at',
    job.payload = .audience eventId afterUserId at' → ∃ old ∈ db.jobs, old.payload = job.payload)
    (fun job hjob _ _ _ _ => ⟨job, hjob, rfl⟩) ?_
  intro recipient _ before after _ _ _ step hbefore job hjob eventId afterUserId at' hpayload
  cases step with
  | kept => exact hbefore job hjob _ _ _ hpayload
  | added nextRunAt new =>
    obtain hjob | hjob := mem_append.mp hjob
    · exact hbefore job hjob _ _ _ hpayload
    · rw [mem_singleton.mp hjob] at hpayload
      cases hpayload
  | rewritten own current previous mem key holds pending shared told previousId later =>
    obtain rfl | ⟨hjob, -⟩ := Table.mem_replace Job.id hjob
    · cases hpayload
    · exact hbefore job hjob _ _ _ hpayload

/-- What a page leaves: it has a job for the page after it, and none for any other. -/
theorem Paged.audiences (h : Paged event afterUserId audienceAt discussion db db') :
    (∀ cursor, nextUserId (candidates db event discussion) afterUserId = some cursor →
        ∃ job ∈ db'.jobs, job.key = .notificationAudience event.id cursor)
      ∧ ∀ job ∈ db'.jobs, ∀ eventId after' at', job.payload = .audience eventId after' at' →
          (∃ old ∈ db.jobs, old.payload = job.payload) ∨ (eventId = event.id
            ∧ nextUserId (candidates db event discussion) afterUserId = some after') := by
  cases h with
  | continued reached cursor next page =>
    constructor
    · intro cursor' hcursor
      obtain rfl : cursor = cursor' := Option.some.inj (next.symm.trans hcursor)
      cases hjob : reached.job (.notificationAudience event.id cursor) with
      | some job =>
        rw [enqueue_some hjob]
        obtain ⟨hmem, hkey⟩ := Table.get_mem Job.key hjob
        exact ⟨job, hmem, hkey⟩
      | none =>
        rw [enqueue_none hjob]
        exact ⟨_, mem_append_right _ (mem_singleton_self _), rfl⟩
    · intro job hmem eventId after' at' hpayload
      cases hjob : reached.job (.notificationAudience event.id cursor) with
      | some _ =>
        rw [enqueue_some hjob] at hmem
        exact .inl (page.audiences job hmem _ _ _ hpayload)
      | none =>
        rw [enqueue_none hjob] at hmem
        obtain hmem | hmem := mem_append.mp hmem
        · exact .inl (page.audiences job hmem _ _ _ hpayload)
        · rw [mem_singleton.mp hmem] at hpayload
          cases hpayload
          exact .inr ⟨rfl, next⟩
  | ended reached watchers sub next page =>
    constructor
    · intro cursor hcursor
      rw [next] at hcursor
      cases hcursor
    · intro job hmem eventId after' at' hpayload
      exact .inl (page.audiences job hmem _ _ _ hpayload)

/-- One page is visited. -/
theorem Visited.paged (visited : Visited s) (h : Paged event afterUserId audienceAt discussion s.db db)
    (hcursor : afterUserId = 0 ∨ s.Continued event.id afterUserId) :
    Visited { s with db, visits := s.visits ++ [⟨event.id, afterUserId, candidates s.db event discussion⟩] } := by
  have hcalm := h.calm
  obtain ⟨hnext, haudiences⟩ := h.audiences
  have hcontinued : ∀ {eventId after'}, s.Continued eventId after' →
      State.Continued
        { s with
          db
          visits := s.visits ++ [⟨event.id, afterUserId, candidates s.db event discussion⟩] }
        eventId after' := by
    rintro eventId after' ⟨visit, hvisit, hid, hcursor⟩
    exact ⟨visit, mem_append_left _ hvisit, hid, hcursor⟩
  refine ⟨?_, ?_, ?_, ?_, ?_, ?_⟩
  · intro row hrow hpublished htype
    rw [hcalm.events] at hrow
    obtain ⟨visit, hvisit, h⟩ := visited.published row hrow hpublished htype
    exact ⟨visit, mem_append_left _ hvisit, h⟩
  · intro visit hvisit cursor hcursor
    obtain hvisit | hvisit := mem_append.mp hvisit
    · obtain ⟨job, hjob, hkey⟩ := visited.continues visit hvisit cursor hcursor
      obtain ⟨job', hjob', hkey'⟩ := hcalm.keys job hjob
      exact ⟨job', hjob', hkey'.trans hkey⟩
    · rw [mem_singleton.mp hvisit] at hcursor ⊢
      exact hnext cursor hcursor
  · intro job hjob eventId after' at' hpayload
    obtain ⟨old, hold, heq⟩ | ⟨rfl, hcursor⟩ := haudiences job hjob _ _ _ hpayload
    · exact hcontinued (visited.asked old hold _ _ _ (heq.trans hpayload))
    · exact ⟨_, mem_append_right _ (mem_singleton_self _), rfl, hcursor⟩
  · intro worker hworker eventId after' at' hpayload
    exact hcontinued (visited.taken worker hworker _ _ _ hpayload)
  · intro visit hvisit
    obtain hvisit | hvisit := mem_append.mp hvisit
    · exact (visited.cursors visit hvisit).imp_right hcontinued
    · rw [mem_singleton.mp hvisit]
      exact hcursor.imp_right hcontinued
  · exact forall_mem_append.mpr ⟨visited.ordered, forall_mem_singleton.mpr (candidates_ordered ..)⟩

theorem Visited.updateHeld (visited : Visited s) (worker : Worker) {change : Job → Job}
    (hchange : ∀ job, (change job).identity = job.identity) :
    Visited { s with db := updateHeld s.db worker change } := by
  have hmap := updateHeld_identity s.db worker hchange
  refine visited.mono rfl (fun _ h _ => h) ?_ ?_ fun worker h => .inl ⟨worker, h, rfl⟩
  · intro job hjob
    obtain ⟨job', hjob', -, hkey, -⟩ := mem_identity hmap.symm job hjob
    exact ⟨job', hjob', hkey⟩
  · intro job hjob
    obtain ⟨old, hold, -, -, hpayload⟩ := mem_identity hmap job hjob
    exact ⟨old, hold, hpayload⟩

theorem Visited.worked (visited : Visited s) {worker : Worker} {action : Action}
    (hworker : worker ∈ s.workers) (h : Worked worker s action s') : Visited s' := by
  have hsame : ∀ {s' : State}, s'.visits = s.visits → s'.db.events = s.db.events →
      s'.db.jobs = s.db.jobs → s'.workers = s.workers → Visited s' := by
    intro s' hvisits hevents hjobs hworkers
    refine visited.mono hvisits (fun _ h _ => hevents ▸ h) (fun job h => ⟨job, hjobs ▸ h, rfl⟩)
      (fun job h => ⟨job, hjobs ▸ h, rfl⟩) fun worker h => .inl ⟨worker, hworkers ▸ h, rfl⟩
  cases h with
  | idle => exact visited
  | threw | found | refused | orphaned | settledBefore => exact visited.goto _ _
  | paged event afterUserId audienceAt discussion db started payload told paged =>
    exact (visited.paged paged (.inr (visited.taken worker hworker _ _ _ payload))).goto _ _
  | unreadable | cleared =>
    refine Visited.goto ?_ _ _
    exact hsame rfl rfl rfl rfl
  | inserted payload event inAppEnabled holds phase told id =>
    refine Visited.goto ?_ _ _
    refine hsame rfl ?_ ?_ rfl
    · dsimp only
      split
      · unfold insertNotification
        split <;> rfl
      · rfl
    · dsimp only
      split
      · unfold insertNotification
        split <;> rfl
      · rfl
  | settled =>
    refine Visited.goto ?_ _ _
    exact hsame rfl rfl rfl rfl
  | completed | failed => exact visited.updateHeld worker fun _ => rfl

theorem Visited.step (visited : Visited s) (sound : s.db.Sound) {op : Op} (h : Step s op s') : Visited s' := by
  cases h with
  | idle => exact visited
  | around db jobs deliveries inbox fresh events watchers =>
    exact visited.mono rfl (fun _ h _ => events ▸ h) (fun job h => ⟨job, jobs.symm ▸ h, rfl⟩)
      (fun job h => ⟨job, jobs ▸ h, rfl⟩) fun worker h => .inl ⟨worker, h, rfl⟩
  | written event new =>
    refine visited.mono rfl ?_ (fun job h => ⟨job, h, rfl⟩) (fun job h => ⟨job, h, rfl⟩)
      fun worker h => .inl ⟨worker, h, rfl⟩
    intro row hrow hpublished
    obtain hrow | hrow := mem_append.mp hrow
    · exact hrow
    · rw [mem_singleton.mp hrow] at hpublished
      cases hpublished
  | published event now discussion reached visits unpublished paged =>
    have hafter : Visited { s with db := reached, visits }
        ∧ (event.type ≠ .other → ∃ visit ∈ visits, visit.eventId = event.id ∧ visit.afterUserId = 0) := by
      obtain ⟨hother, rfl, rfl⟩ | ⟨-, hpaged, rfl⟩ := paged
      · exact ⟨visited, fun h => absurd hother h⟩
      · exact ⟨visited.paged hpaged (.inl rfl), fun _ =>
          ⟨_, mem_append_right _ (mem_singleton_self _), rfl, rfl⟩⟩
    obtain ⟨hvisited, hown⟩ := hafter
    have htold : event ∈ s.db.told := mem_map_of_mem unpublished
    obtain ⟨hcalm, -, -⟩ := published_calm sound htold paged
    refine ⟨?_, hvisited.continues, hvisited.asked, hvisited.taken, hvisited.cursors, hvisited.ordered⟩
    intro row hrow hpublished htype
    obtain ⟨old, hold, rfl⟩ := Table.mem_updateWhere.mp hrow
    split at htype
    · rename_i howns
      have hold : old.event ∈ s.db.told := mem_map_of_mem (hcalm.events ▸ hold)
      have heq := sound.event_unique hold htold (of_decide_eq_true howns).1
      rw [if_pos howns, heq]
      exact hown (heq ▸ htype)
    · rename_i hother
      rw [if_neg hother] at hpublished ⊢
      exact hvisited.published old hold hpublished htype
  | claimed job mem claimable =>
    refine visited.mono rfl (fun _ h _ => h) ?_ ?_ ?_
    · intro other hother
      obtain ⟨job', hjob', -, hkey, -⟩ := mem_identity (claim_identity sound mem).symm other hother
      exact ⟨job', hjob', hkey⟩
    · intro other hother
      obtain ⟨old, hold, -, -, hpayload⟩ := mem_identity (claim_identity sound mem) other hother
      exact ⟨old, hold, hpayload⟩
    · intro worker hworker
      obtain hworker | hworker := mem_append.mp hworker
      · exact .inl ⟨worker, hworker, rfl⟩
      · rw [mem_singleton.mp hworker]
        exact .inr ⟨job, mem, rfl⟩
  | worked worker action s' mem worked => exact visited.worked mem worked

/-! ## The chain of pages -/

/-- Once nothing is left to do, the pages have come to everybody who was a candidate on each. -/
theorem Visited.comes (visited : Visited s) (leased : Leased s) (hjobs : ∀ job ∈ s.db.jobs, job.state = .succeeded)
    {eventId : Nat} (userId : Nat) (hcandidate : ∀ visit ∈ s.visits, visit.eventId = eventId → userId ∈ visit.users)
    {visit : Visit} (hvisit : visit ∈ s.visits) (hid : visit.eventId = eventId) (hafter : visit.afterUserId < userId) :
    ∃ visit ∈ s.visits, visit.eventId = eventId ∧ userId ∈ audiencePage visit.users visit.afterUserId := by
  -- the cursor grows from page to page, and stays below the user
  induction hleft : userId - visit.afterUserId using Nat.strong_induction_on
    generalizing visit with
  | _ left ih =>
    obtain hpage | ⟨cursor, hcursor, hbelow⟩ := visited_or_later (visited.ordered visit hvisit)
      (hcandidate visit hvisit hid) hafter
    · exact ⟨visit, hvisit, hid, hpage⟩
    · obtain ⟨job, hjob, hkey⟩ := visited.continues visit hvisit cursor hcursor
      have hkeyed := leased.sound.keyed job hjob
      rw [hkey] at hkeyed
      have hdone := leased.succeeded job hjob (hjobs job hjob)
      unfold State.Done at hdone
      cases hpayload : job.payload with
      | delivery payload =>
        rw [hpayload] at hkeyed
        exact hkeyed.elim
      | audience eventId' cursor' audienceAt =>
        rw [hpayload] at hkeyed hdone
        obtain ⟨rfl, rfl, -⟩ := hkeyed
        obtain ⟨next, hnext, hnextId, hnextCursor⟩ := hdone
        have hgrows := nextUserId_gt hcursor
        refine ih (userId - next.afterUserId) ?_ hnext (hnextId.trans hid) ?_ rfl
        · omega
        · omega

/-- Where the candidates of an event have not changed, a page after another one begins no sooner
than at the cursor the earlier page has ended with. -/
theorem Visited.apart (visited : Visited s) {eventId : Nat} {users : List Nat}
    (hsame : ∀ visit ∈ s.visits, visit.eventId = eventId → visit.users = users) {first second : Visit}
    (hfirst : first ∈ s.visits) (hsecond : second ∈ s.visits) (hfirstId : first.eventId = eventId)
    (hsecondId : second.eventId = eventId) (hlt : first.afterUserId < second.afterUserId) : ∃ cursor,
    nextUserId users first.afterUserId = some cursor ∧ cursor ≤ second.afterUserId := by
  induction hsum : first.afterUserId + second.afterUserId using Nat.strong_induction_on
    generalizing first second with
  | _ sum ih =>
    obtain hzero | ⟨before, hbefore, hbeforeId, hcursor⟩ := visited.cursors second hsecond
    · omega
    · have hbeforeId := hbeforeId.trans hsecondId
      rw [hsame before hbefore hbeforeId] at hcursor
      have hgrows := nextUserId_gt hcursor
      obtain heq | hless | hless := Nat.lt_trichotomy before.afterUserId first.afterUserId
      · obtain ⟨cursor, hnext, hle⟩ :=
          ih _ (by omega) hbefore hfirst hbeforeId hfirstId heq rfl
        rw [hcursor] at hnext
        cases hnext
        omega
      · exact ⟨second.afterUserId, hless ▸ hcursor, le_rfl⟩
      · obtain ⟨cursor, hnext, hle⟩ :=
          ih _ (by omega) hfirst hbefore hfirstId hbeforeId hless rfl
        exact ⟨cursor, hnext, by omega⟩

/-- Nobody is on two pages. -/
theorem Visited.page_unique (visited : Visited s) {eventId userId : Nat} {users : List Nat}
    (hsame : ∀ visit ∈ s.visits, visit.eventId = eventId → visit.users = users) {first second : Visit}
    (hfirst : first ∈ s.visits) (hsecond : second ∈ s.visits) (hfirstId : first.eventId = eventId)
    (hsecondId : second.eventId = eventId) (hon : userId ∈ audiencePage users first.afterUserId)
    (hon' : userId ∈ audiencePage users second.afterUserId) : first.afterUserId = second.afterUserId := by
  have hordered : users.Pairwise (· < ·) := hsame first hfirst hfirstId ▸ visited.ordered first hfirst
  have hearlier : ∀ {first second : Visit}, first ∈ s.visits → second ∈ s.visits →
      first.eventId = eventId → second.eventId = eventId →
      userId ∈ audiencePage users first.afterUserId →
      userId ∈ audiencePage users second.afterUserId →
      ¬ first.afterUserId < second.afterUserId := by
    intro first second hfirst hsecond hfirstId hsecondId hon hon' hlt
    obtain ⟨cursor, hnext, hle⟩ := visited.apart hsame hfirst hsecond hfirstId hsecondId hlt
    have hbelow := le_nextUserId hordered hnext hon
    have habove := (mem_audiencePage hon').2
    omega
  have hless := hearlier hfirst hsecond hfirstId hsecondId hon hon'
  have hmore := hearlier hsecond hfirst hsecondId hfirstId hon' hon
  omega

end TsEpistle.Notifications
