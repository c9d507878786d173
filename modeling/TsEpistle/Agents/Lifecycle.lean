import TsEpistle.Agents.Progress

/-! The life of a run: it ends once, with one terminal event, as cancelled where that was
asked for; its events are numbered without gaps; a session has one run at a time; and what
no settlement waits for is moved by a recovery or a claim some day. -/

namespace TsEpistle.Agents
open Library Checked Option

variable {codec : Codec} {s : State} {op : Op}

/-! ## One run -/

/-- The events that end a run. -/
def EventBody.isEnd : EventBody → Bool
  | .ended _ => true
  | _ => false

/-- What holds of every run. -/
structure Run.Sound (run : Run) : Prop where
  numbered : run.events.map (·.sequence) = List.range' 1 run.eventSequence
  ended : (run.events.countP fun event => event.body.isEnd) = if run.isTerminal then 1 else 0
  leased : run.isClaimed = true → run.leaseExpiresAt.isSome = true

theorem range'_succ (n : Nat) : List.range' 1 (n + 1) = List.range' 1 n ++ [n + 1] := by
  rw [List.range'_concat]
  simp [Nat.add_comm]

variable {run : Run}

theorem Run.Sound.append (h : run.Sound) (hclaimed : run.isClaimed = true) {attempt : Nat}
    {body : EventBody} {now : Time} (hbody : body.isEnd = false) :
    (run.append attempt body now).Sound where
  numbered := by
    rw [show (run.append attempt body now).eventSequence = run.eventSequence + 1 from rfl, range'_succ, ← h.numbered]
    simp [Run.append]
  ended := by
    rw [show (run.append attempt body now).isTerminal = run.isTerminal from rfl, ← h.ended]
    simp [Run.append, List.countP_append, hbody]
  leased := fun _ => h.leased hclaimed

theorem PresentationEvent.body_isEnd (event : PresentationEvent) : event.body.isEnd = false := by
  cases event with
  | usage | presented => rfl

theorem isTerminal_of_active {status : ActiveStatus} (h : run.status = .active status) : run.isTerminal = false := by
  simp [Run.isTerminal, h]

/-- **Step.** -/
theorem RowStep.sound {o : Origin} {run run' : Run} {daily daily' : List DailyRow}
    (h : RowStep o run daily run' daily') (hrun : run.Sound) : run'.Sound := by
  -- a write of an active run that keeps its events
  have hactive : ∀ run'' : Run, run.isTerminal = false → run''.isTerminal = false →
      run''.events = run.events → run''.eventSequence = run.eventSequence →
      (run''.isClaimed = true → run''.leaseExpiresAt.isSome = true) → run''.Sound := by
    intro run'' hbefore hafter hevents hsequence hleased
    refine ⟨by rw [hevents, hsequence, hrun.numbered], ?_, hleased⟩
    rw [hevents, hrun.ended, hbefore, hafter]
  by_cases hterminal : run.isTerminal = true
  · obtain ⟨reservation, rfl⟩ := h.of_terminal hterminal
    exact ⟨hrun.numbered, hrun.ended, hrun.leased⟩
  have hbefore : run.isTerminal = false := by simpa using hterminal
  cases h with
  | held expiresAt now horigin hclaimed => exact hactive _ hbefore hbefore rfl rfl fun _ => rfl
  | moved input target horigin hstatus hallowed =>
    refine hactive _ hbefore rfl rfl rfl fun hclaimed => hrun.leased ?_
    -- the source of a transition is running or awaits an approval
    cases hsource : input.source with
    | queued => simp [transitionAllowed, hsource] at hallowed
    | running | awaitingApproval => simp [Run.isClaimed, hstatus, hsource]
  | resumed now horigin hstatus =>
    exact hactive _ hbefore rfl rfl rfl fun _ => hrun.leased (by simp [Run.isClaimed, hstatus])
  | suspended checkpoint state now horigin hledger hstate hown hstatus =>
    exact hactive _ hbefore rfl rfl rfl fun _ => hrun.leased (by simp [Run.isClaimed, hstatus])
  | dispatched attempt record now hclaimed => exact hrun.append hclaimed rfl
  | appended attempt event now horigin hclaimed => exact hrun.append hclaimed event.body_isEnd
  | requeued now hstatus =>
    exact hactive _ hbefore rfl rfl rfl fun hclaimed => by
      simp [Run.isClaimed, requeuedRun] at hclaimed
  | unleased now hstatus => exact hactive _ hbefore hbefore rfl rfl fun _ => rfl
  | raised ownerId target limits expiresAt now run' daily' h =>
    obtain ⟨reservation, rfl⟩ := ensureAgentRunQuota_reservation_only h
    exact hactive _ hbefore hbefore rfl rfl hrun.leased
  | released ownerId now run' daily' horigin h =>
    obtain ⟨reservation, rfl⟩ := h.reservation_only
    exact hactive _ hbefore hbefore rfl rfl hrun.leased
  | settled input current run' daily' hstatus => simp [Run.isTerminal, hstatus] at hbefore
  | ended input status run' daily' horigin hid hstatus hexpected h =>
    have hends := terminalizeActive_endsAs h
    obtain ⟨assistantStatus, hevents⟩ := hends.events
    refine ⟨?_, ?_, ?_⟩
    · rw [hevents, hends.eventSequence, range'_succ, range'_succ, ← hrun.numbered]
      simp
    · rw [hevents, List.countP_append, hrun.ended, hbefore]
      simp [EventBody.isEnd, Run.isTerminal, hends.status]
    · intro hclaimed
      simp [Run.isClaimed, hends.status] at hclaimed
  | granted options candidate reclaiming leaseToken horigin hid hcandidate hfence =>
    refine hactive _ hbefore ?_ rfl rfl fun _ => rfl
    unfold grantedRun Run.isTerminal
    dsimp only
    split
    · rename_i heq
      split at heq
      · rfl
      · rfl
    · rename_i heq
      split at heq
      · cases heq
      · cases heq
  | _ => exact hactive _ hbefore hbefore rfl rfl hrun.leased

/-- A cancellation that was asked for of a run which has not ended stays asked for, and is how the
run ends. -/
structure Run.Cancelling (run : Run) : Prop where
  requested : run.cancelRequestedAt.isSome = true
  ends : ∀ status, run.status = .terminal status → status = .cancelled

theorem RowStep.cancelling {o : Origin} {run run' : Run} {daily daily' : List DailyRow}
    (h : RowStep o run daily run' daily') (hrun : run.Cancelling) : run'.Cancelling := by
  by_cases hterminal : run.isTerminal = true
  · obtain ⟨reservation, rfl⟩ := h.of_terminal hterminal
    exact ⟨hrun.requested, hrun.ends⟩
  have hactive : ∀ status, run.status ≠ .terminal status := by
    intro status hstatus
    simp [Run.isTerminal, hstatus] at hterminal
  cases h with
  | moved input target => exact ⟨hrun.requested, by simp [transitionedRun]⟩
  | resumed now => exact ⟨hrun.requested, by simp⟩
  | suspended => exact ⟨hrun.requested, by simp [suspendedRun]⟩
  | requeued => exact ⟨hrun.requested, by simp [requeuedRun]⟩
  | requested => exact ⟨rfl, hrun.ends⟩
  | raised ownerId target limits expiresAt now run' daily' h =>
    obtain ⟨reservation, rfl⟩ := ensureAgentRunQuota_reservation_only h
    exact ⟨hrun.requested, hrun.ends⟩
  | released ownerId now run' daily' horigin h =>
    obtain ⟨reservation, rfl⟩ := h.reservation_only
    exact ⟨hrun.requested, hrun.ends⟩
  | settled input current run' daily' hstatus => exact absurd hstatus (hactive current)
  | ended input status run' daily' horigin hid hstatus hexpected h =>
    have hends := terminalizeActive_endsAs h
    have hcancelled : terminalStatus run input = .cancelled := by
      have hrequested := hrun.requested
      unfold terminalStatus
      rw [if_neg]
      intro hnone
      rw [isNone_iff_eq_none] at hnone
      rw [hnone] at hrequested
      cases hrequested
    refine ⟨hends.cancelled hcancelled, fun status hstatus => ?_⟩
    rw [hends.status, hcancelled] at hstatus
    cases hstatus
    rfl
  | granted options candidate reclaiming leaseToken =>
    refine ⟨hrun.requested, fun status hstatus => ?_⟩
    unfold grantedRun at hstatus
    dsimp only at hstatus
    split at hstatus
    · cases hstatus
    · cases hstatus
  | _ => exact ⟨hrun.requested, hrun.ends⟩

/-! ## Later states -/

theorem exec_carries {P : Run → Prop}
    (hrow : ∀ (o : Origin) run daily run' daily', RowStep o run daily run' daily' → P run → P run')
    {s' : State} (hs : Claiming s) (h : (coordinator codec).Reachable s s') {id : Uuid}
    (hrun : s.db.run id = some run) (hP : P run) : ∃ run', s'.db.run id = some run' ∧ P run' := by
  refine h.invariant_under (J := fun s' => ∃ run', s'.db.run id = some run' ∧ P run') hs
    (fun _ _ hop hs => hs.exec hop) ⟨run, hrun, hP⟩ ?_
  rintro op mid hop hs ⟨run', hrun', hP'⟩
  exact (exec_steps hs hop).carries (hrow _) hrun' hP'

/-! ## Sessions -/

/-- Runs of the session that have not ended. -/
def activeOf (sessionId : Uuid) (run : Run) : Bool := run.sessionId = sessionId && !run.isTerminal

theorem RowStep.activeOf {o : Origin} {run run' : Run} {daily daily' : List DailyRow}
    {sessionId : Uuid} (h : RowStep o run daily run' daily') (hrun' : activeOf sessionId run' = true) :
    Agents.activeOf sessionId run = true := by
  simp only [Agents.activeOf, Bool.and_eq_true, decide_eq_true_eq, Bool.not_eq_true'] at hrun' ⊢
  refine ⟨by rw [← h.identity.2.1]; exact hrun'.1, ?_⟩
  by_contra hterminal
  have hterminal : run.isTerminal = true := by simpa using hterminal
  obtain ⟨reservation, rfl⟩ := h.of_terminal hterminal
  have hactive := hrun'.2
  rw [show ({ run with reservation } : Run).isTerminal = run.isTerminal from rfl, hterminal] at hactive
  cases hactive

theorem sessions_exec (hs : Claiming s) (hop : (coordinator codec).enabled op s) {sessionId : Uuid}
    (hn : s.db.runs.countP (activeOf sessionId) ≤ 1) : (exec codec op s).db.runs.countP (activeOf sessionId) ≤ 1 := by
  refine Steps.countP_le (exec_steps hs hop) hs.unique (fun _ _ _ _ hstep => hstep.activeOf) ?_ hn
  intro db input reservation hsession hle
  by_cases hsame : input.sessionId = sessionId
  · have hnone : db.runs.countP (activeOf sessionId) = 0 := by
      rw [List.countP_eq_zero]
      intro run hrun hactive
      rw [List.any_eq_false] at hsession
      exact hsession run hrun (by rw [hsame]; exact hactive)
    rw [hnone]
    split
    · exact le_refl _
    · exact Nat.zero_le _
  · rw [if_neg]
    · exact hle
    · simp [activeOf, queuedRun, hsame]

/-! ## Progress -/

/-- From some time on a recovery selects the run, or a claim where it waits. -/
def Run.Selected (run : Run) : Prop :=
  ∃ time, ∀ now, time ≤ now → run.recoverable now = true ∨ (run.claimable now = true ∧ run.status ≠ .running)

theorem Run.Sound.selected (h : run.Sound) (hactive : run.isTerminal = false)
    (hsettled : run.pendingQuotaSettlement = false) : run.Selected := by
  by_cases hclaimed : run.isClaimed = true
  · obtain ⟨expiresAt, hexpires⟩ := isSome_iff_exists.mp (h.leased hclaimed)
    refine ⟨expiresAt, fun now hnow => .inl ?_⟩
    have hexpired : run.leaseExpired now = true := by simpa [Run.leaseExpired, hexpires] using hnow
    simp [Run.recoverable, hclaimed, hexpired, hsettled]
  · -- what is neither claimed nor ended is queued
    have hqueued : run.status = .queued := by
      cases hstatus : run.status with
      | terminal status => simp [Run.isTerminal, hstatus] at hactive
      | active status =>
        cases status with
        | queued => rfl
        | running | awaitingApproval => simp [Run.isClaimed, hstatus] at hclaimed
    refine ⟨run.availableAt, fun now hnow => ?_⟩
    cases hcancel : run.cancelRequestedAt with
    | none =>
      right
      simp [Run.claimable, hqueued, hnow, hcancel, hsettled]
    | some requestedAt =>
      left
      simp [Run.recoverable, hcancel, hactive, hqueued, hsettled]

/-- What recoveries do that select the run: each that commits moves it, and that of the run alone
commits unless it ends a run that cannot be charged. -/
structure Run.Recovers (run : Run) (db : Database) (now : Time) : Prop where
  moves : ∀ candidates db', candidates.Nodup → run.id ∈ candidates →
    recoverRuns db candidates now = .ok db' → ∃ run', db'.run run.id = some run' ∧ Recovered now run run'
  commits : (∃ db', recoverRuns db [run.id] now = .ok db') ↔ (run.endsInRecovery = true → run.Chargeable db.daily)

/-- What a claim does that comes to the waiting run with a slot for its owner: it grants the run, or
ends one without attempts that can be charged. -/
structure Run.Considered (codec : Codec) (run : Run) (db : Database) : Prop where
  grants : ∀ (claim : ClaimTransaction) rest mid leaseToken, claim.candidates = some (run :: rest) →
    (run.status = .awaitingApproval ∨ claim.active.ofOwner run.ownerId < claim.options.perUser) →
    terminalizeAll db claim.ended = .ok mid → mid.run run.id = some run →
    (run.status = .awaitingApproval ∨ run.attempts < run.maxAttempts) →
    ∃ db', claimRound codec db claim leaseToken = .ok (.granted db' run false)
      ∧ db'.run run.id = some (grantedRun claim.options run false leaseToken run)
  exhausts : ∀ (claim : ClaimTransaction) rest mid leaseToken, claim.candidates = some (run :: rest) →
    claim.active.ofOwner run.ownerId < claim.options.perUser →
    terminalizeAll db claim.ended = .ok mid → mid.run run.id = some run → run.Chargeable mid.daily →
    run.status = .queued → run.maxAttempts ≤ run.attempts →
    ∃ ended, claimRound codec db claim leaseToken = .ok (.next { claim with candidates := some rest, ended })
      ∧ ∃ db' run', terminalizeAll db ended = .ok db' ∧ db'.run run.id = some run' ∧ run'.status = .terminal .failed

theorem Booked.recovers {db : Database} (hb : Booked db) (hunique : (db.runs.map Run.id).Nodup)
    {now : Time} (hrun : db.run run.id = some run) (hrecoverable : run.recoverable now = true) :
    run.Recovers db now where
  moves _ _ hcandidates hmem h := (recoverRuns_moves hb hunique hcandidates hrun hmem hrecoverable h).1
  commits := recoverRuns_commits hb hrun hrecoverable

theorem Run.claimable_iff {now : Time} (h : run.claimable now = true) :
    run.cancelRequestedAt = none ∧ run.pendingQuotaSettlement = false := by
  simp only [Run.claimable, Bool.and_eq_true, isNone_iff_eq_none, Bool.not_eq_true'] at h
  exact ⟨h.1.2, h.2⟩

theorem Booked.considered {db : Database} (hb : Booked db) (hunique : (db.runs.map Run.id).Nodup)
    {now : Time} (hrun : db.run run.id = some run) (hclaimable : run.claimable now = true)
    (hwaiting : run.status ≠ .running) : run.Considered codec db := by
  obtain ⟨hcancel, hunpending⟩ := Run.claimable_iff hclaimable
  have hsettleable := hb.settleable (run_mem hrun).1 hunpending
  constructor
  · intro claim rest mid leaseToken hnext hslot hended hmid hattempts
    exact claimRound_grants hrun hsettleable hwaiting hnext hslot hended hmid hattempts leaseToken
  · intro claim rest mid leaseToken hnext hslot hended hmid hchargeable hqueued hattempts
    -- the terminalizations before it keep the books
    have hsteps : Steps Origin.ending db mid := terminalizeAll_steps (fun _ _ => trivial) hended
    have hmidSettleable := (hsteps.booked hunique hb).settleable (run_mem hmid).1 hunpending
    exact ⟨_, claimRound_exhausts hrun hqueued hcancel hsettleable hnext hslot hended hmid
      hmidSettleable hchargeable hattempts leaseToken⟩

theorem Run.pending_unselected (h : run.pendingQuotaSettlement = true) (now : Time) :
    run.recoverable now = false ∧ run.claimable now = false := by
  simp [Run.claimable, Run.recoverable, h]

/-! ## Runs -/

/-- **Lifecycle.** -/
theorem run_lifecycle {users : List Int} {sessions : List AgentSession} {clock : Time} {s' : State}
    (h : (coordinator codec).Reachable (.initial users sessions clock) s)
    (hlater : (coordinator codec).Reachable s s') :
    (∀ run ∈ s.db.runs, (run.events.countP fun event => event.body.isEnd) = if run.isTerminal then 1 else 0)
    ∧ (∀ id run status, s.db.run id = some run → run.status = .terminal status →
      ∃ run', s'.db.run id = some run' ∧ run'.status = .terminal status ∧ run'.events = run.events)
    ∧ (∀ id run, s.db.run id = some run → run.isTerminal = false →
      run.cancelRequestedAt.isSome = true →
      ∃ run', s'.db.run id = some run' ∧ ∀ status, run'.status = .terminal status → status = .cancelled)
    ∧ (∀ run ∈ s.db.runs, run.events.map (·.sequence) = List.range' 1 run.eventSequence)
    ∧ (∀ sessionId, (s.db.runs.countP fun run => run.sessionId = sessionId && !run.isTerminal) ≤ 1)
    ∧ (∀ run ∈ s.db.runs, run.isTerminal = false → run.pendingQuotaSettlement = false →
      run.Selected ∧ ∀ now, (run.recoverable now = true → run.Recovers s.db now)
        ∧ (run.claimable now = true → run.status ≠ .running → run.Considered codec s.db))
    ∧ ∀ run ∈ s.db.runs, run.pendingQuotaSettlement = true →
      ∀ now, run.recoverable now = false ∧ run.claimable now = false := by
  have hs : Claiming s := .of_reachable h
  have hsound : ∀ run ∈ s.db.runs, run.Sound := by
    refine h.invariant_under (J := fun s => ∀ run ∈ s.db.runs, run.Sound)
      (Claiming.initial users sessions clock) (fun _ _ hop hs => hs.exec hop) (by
        intro run hrun
        cases hrun) ?_
    intro op s hop hs hruns
    refine (exec_steps hs hop).forall_runs (fun _ _ _ _ hstep => hstep.sound) ?_ hruns
    intro input reservation _
    exact ⟨rfl, rfl, by simp [Run.isClaimed, queuedRun]⟩
  refine ⟨fun run hrun => (hsound run hrun).ended, ?_, ?_, fun run hrun => (hsound run hrun).numbered,
    fun sessionId => ?_, fun run hrun hactive hunpending => ?_, fun run _ => Run.pending_unselected⟩
  · intro id run status hrun hstatus
    refine exec_carries (P := fun run' => run'.status = .terminal status ∧ run'.events = run.events)
      ?_ hs hlater hrun ⟨hstatus, rfl⟩
    rintro o mid daily mid' daily' hstep ⟨hmid, hevents⟩
    obtain ⟨reservation, rfl⟩ := hstep.of_terminal (by simp [Run.isTerminal, hmid])
    exact ⟨hmid, hevents⟩
  · intro id run hrun hactive hcancel
    obtain ⟨run', hrun', hcancelling⟩ := exec_carries (P := Run.Cancelling)
      (fun _ _ _ _ _ hstep => hstep.cancelling) hs hlater hrun
      ⟨hcancel, fun status hstatus => by simp [Run.isTerminal, hstatus] at hactive⟩
    exact ⟨run', hrun', hcancelling.ends⟩
  · exact h.invariant_under (J := fun s => s.db.runs.countP (activeOf sessionId) ≤ 1)
      (Claiming.initial users sessions clock) (fun _ _ hop hs => hs.exec hop) (Nat.zero_le _)
      fun _ _ hop hs => sessions_exec hs hop
  · have hb := Booked.of_reachable h
    have hfound := run_of_mem hs.unique hrun
    exact ⟨(hsound run hrun).selected hactive hunpending,
      fun now => ⟨hb.recovers hs.unique hfound, hb.considered hs.unique hfound⟩⟩

/-- The first run, cancelled by its user while it runs and ended by its worker. -/
def exampleCancelled : List Op :=
  exampleClaimed ++ [.requestCancellation 7 (js "A") 2]

def exampleEnded : List Op :=
  [.terminalize (exampleLease 1 (js "t1")) .succeeded none none .none none none 3]

theorem run_lifecycle_example :
    let s := (coordinator exampleCodec).after exampleCancelled exampleStart
    let s' := (coordinator exampleCodec).after exampleEnded s
    (∃ run', s'.db.run (js "A") = some run' ∧ ∀ status, run'.status = .terminal status → status = .cancelled)
    ∧ ∀ run ∈ s.db.runs, run.events.map (·.sequence) = List.range' 1 run.eventSequence ∧ run.Selected
      ∧ ∀ now, run.recoverable now = true → run.Recovers s.db now := by
  intro s s'
  have hreachable : (coordinator exampleCodec).Reachable exampleStart s := ⟨exampleCancelled, by decide, rfl⟩
  have hlater : (coordinator exampleCodec).Reachable s s' := ⟨exampleEnded, by decide, rfl⟩
  have hactive : ∀ run ∈ s.db.runs, run.isTerminal = false ∧ run.pendingQuotaSettlement = false := by decide
  obtain ⟨-, -, hcancelled, hnumbered, -, hprogress, -⟩ := run_lifecycle hreachable hlater
  refine ⟨hcancelled (js "A") _ rfl (by decide) (by decide), fun run hrun => ⟨hnumbered run hrun, ?_⟩⟩
  obtain ⟨hselected, hmoves⟩ := hprogress run hrun (hactive run hrun).1 (hactive run hrun).2
  exact ⟨hselected, fun now => (hmoves now).1⟩

/-! ## The quarantine of a pending settlement -/

/-- No transition leads out of the queue. -/
theorem transition_queued {db : Database} {input : TransitionAgentRunInput} (hrun : db.run input.lease.id = some run)
    (hqueued : run.status = .queued) : ∃ e, transitionAgentRun db input = .error e := by
  cases h : transitionAgentRun db input with
  | error e => exact ⟨e, rfl⟩
  | ok db' =>
    exfalso
    obtain ⟨_, hallowed, h⟩ := bind_ok h
    have hallowed := check_ok hallowed
    have hsource : input.source ≠ .queued := by
      intro hsource
      simp [transitionAllowed, hsource] at hallowed
    cases htarget : input.target with
    | active target =>
      rw [htarget] at h
      obtain ⟨run', hrun', hcond, -⟩ := updateRun_eq_some.mp (changedOrLost_ok h)
      rw [hrun] at hrun'
      cases hrun'
      simp only [hqueued, Bool.and_eq_true, decide_eq_true_eq] at hcond
      exact hsource (AgentRunStatus.active.inj hcond.1).symm
    | terminal status =>
      rw [htarget] at h
      obtain ⟨run', ended, daily', hrun', hterm, -⟩ := terminalize_ok h
      have hrun' : db.run input.lease.id = some run' := hrun'
      rw [hrun] at hrun'
      cases hrun'
      unfold terminalizeRun at hterm
      rw [hqueued] at hterm
      obtain ⟨u, hcheck, -⟩ := bind_ok hterm
      obtain ⟨u, hcontains, -⟩ := bind_ok hcheck
      have hcontains := check_ok hcontains
      simp at hcontains
      exact hsource hcontains.symm

/-- The worker has recorded a settlement intent and gives the run back to the queue. -/
def exampleQuarantined : List Op :=
  let intent : PersistSettlementIntentInput :=
    ⟨js "A", 7, ⟨5, 0⟩, some ⟨[.running], none, some (some (js "w")), some (some (js "t1"))⟩, 2⟩
  let input : TransitionAgentRunInput := ⟨exampleLease 1 (js "t1"), .running, .queued, none, none, none, 3⟩
  exampleClaimed ++ [.persistIntent intent, .transition input]

/-- The worker has recorded more tokens than a sum holds, the user has cancelled the run, and the
worker gives it back to the queue. -/
def exampleOverflowed : List Op :=
  let lease := exampleLease 1 (js "t1")
  let event : PresentationEvent := .usage .modelTurn ⟨0, 0, maxSafeInteger, 0⟩
  exampleClaimed ++ [.appendPresentation lease event 2, .appendPresentation lease event 2,
    .requestCancellation 7 (js "A") 3, .transition ⟨lease, .running, .queued, none, none, none, 4⟩]

/-- A queued run with a pending settlement is not selected at any time; a cancelled one whose usage
cannot be read is selected, and each recovery with it fails. Their leases do not help. -/
theorem stranded_runs :
    ((coordinator exampleCodec).Valid exampleQuarantined exampleStart
      ∧ ∃ run, ((coordinator exampleCodec).after exampleQuarantined exampleStart).db.run (js "A")
          = some run
        ∧ run.isTerminal = false ∧ (∀ now, run.recoverable now = false ∧ run.claimable now = false)
        ∧ ∀ input : TransitionAgentRunInput, input.lease.id = js "A" → ∃ e, transitionAgentRun
          ((coordinator exampleCodec).after exampleQuarantined exampleStart).db input = .error e)
    ∧ (coordinator exampleCodec).Valid exampleOverflowed exampleStart
      ∧ ∃ run, ((coordinator exampleCodec).after exampleOverflowed exampleStart).db.run (js "A")
          = some run
        ∧ run.isTerminal = false ∧ run.pendingQuotaSettlement = false
        ∧ (∀ now, run.claimable now = false)
        ∧ (∀ candidates now db', candidates.Nodup → js "A" ∈ candidates → recoverRuns
          ((coordinator exampleCodec).after exampleOverflowed exampleStart).db candidates now ≠ .ok db')
        ∧ ∀ input : TransitionAgentRunInput, input.lease.id = js "A" → ∃ e, transitionAgentRun
          ((coordinator exampleCodec).after exampleOverflowed exampleStart).db input = .error e := by
  constructor
  · have hvalid : (coordinator exampleCodec).Valid exampleQuarantined exampleStart := by
      decide
    have hstate : ((((coordinator exampleCodec).after exampleQuarantined exampleStart).db.run
        (js "A")).map fun run => (run.status, run.pendingQuotaSettlement)) = some (.queued, true) := by
      decide
    obtain ⟨run, hrun, hcolumns⟩ := map_eq_some_iff.mp hstate
    have hqueued : run.status = .queued := congrArg Prod.fst hcolumns
    have hpending : run.pendingQuotaSettlement = true := congrArg Prod.snd hcolumns
    refine ⟨hvalid, run, hrun, isTerminal_of_active hqueued, Run.pending_unselected hpending, ?_⟩
    exact fun input hid => transition_queued (by rw [hid]; exact hrun) hqueued
  · have hvalid : (coordinator exampleCodec).Valid exampleOverflowed exampleStart := by
      decide
    have hstate : ((((coordinator exampleCodec).after exampleOverflowed exampleStart).db.run
        (js "A")).map fun run => (run.status, run.cancelRequestedAt, run.pendingQuotaSettlement,
          run.charge.toOption)) = some (.queued, some 3, false, none) := by
      decide
    have hreachable : (coordinator exampleCodec).Reachable exampleStart
        ((coordinator exampleCodec).after exampleOverflowed exampleStart) :=
      ⟨exampleOverflowed, hvalid, rfl⟩
    obtain ⟨run, hrun, hcolumns⟩ := map_eq_some_iff.mp hstate
    simp only [Prod.mk.injEq] at hcolumns
    obtain ⟨hqueued, hcancel, hunpending, hcharge⟩ := hcolumns
    have hactive := isTerminal_of_active hqueued
    refine ⟨hvalid, run, hrun, hactive, hunpending, fun now => ?_, ?_, ?_⟩
    · simp [Run.claimable, hcancel]
    · intro candidates now db' hcandidates hmem hrecovers
      have hid := (run_mem hrun).2
      have hrecoverable : run.recoverable now = true := by
        simp [Run.recoverable, hcancel, hactive, hqueued, hunpending]
      rw [← hid] at hrun hmem
      obtain ⟨charge, hread⟩ := (recoverRuns_moves (.of_reachable hreachable)
        (Claiming.of_reachable hreachable).unique hcandidates hrun hmem hrecoverable hrecovers).2
          (by simp [Run.endsInRecovery, hcancel])
      rw [hread] at hcharge
      cases hcharge
    · exact fun input hid => transition_queued (by rw [hid]; exact hrun) hqueued

end TsEpistle.Agents
