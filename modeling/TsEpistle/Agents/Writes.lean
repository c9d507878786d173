import TsEpistle.Agents.Steps

/-! The writes behind every operation: an operation is a sequence of them, and each
writes one run with the daily quotas, admits a run, asks for cancellations, or leaves the
runs as they are. -/

namespace TsEpistle.Agents
open Library Checked List Option

/-- The runs and inputs for which an operation makes the writes that depend on more than
the row: its heartbeats, moves, fences, suspensions, terminalizations, records, releases and grants. -/
structure Origin where
  holds : Run → Prop
  moves : Run → ActiveStatus → Prop
  fences : Run → Prop
  suspends : AgentApprovalContinuationCheckpoint → Prop
  ends : TerminalizeAgentRunInput → Prop
  records : Run → Run → Prop
  releases : Run → Prop
  grants : ClaimAgentRunOptions → Run → Bool → Uuid → Run → Prop

/-- Reserved, with no settlement pending. -/
def Reservation.open (reservation : Reservation) : Bool :=
  reservation.status = .reserved && reservation.reconciledAt.isNone && !reservation.consumed.positive

def requestedRun (now : Time) (run : Run) : Run :=
  { run with cancelRequestedAt := some now, updatedAt := now }

inductive RowStep (o : Origin) (run : Run) (daily : List DailyRow) : Run → List DailyRow → Prop
  | held (expiresAt now : Time) (horigin : o.holds run) (hclaimed : run.isClaimed = true)
      (hcancel : run.cancelRequestedAt = none) :
      RowStep o run daily { run with leaseExpiresAt := some expiresAt, updatedAt := now } daily
  | extended (reservation : Reservation) (expiresAt now : Time)
      (hfound : run.reservation = some reservation) (hreserved : reservation.status = .reserved) :
      RowStep o run daily
        { run with reservation := some { reservation with heartbeatAt := now, expiresAt } } daily
  | moved (input : TransitionAgentRunInput) (target : ActiveStatus) (horigin : o.moves run target)
      (hstatus : run.status = .active input.source)
      (hallowed : transitionAllowed input.source (.active target) = true) :
      RowStep o run daily (transitionedRun input target run) daily
  | resumed (now : Time) (horigin : o.moves run .running)
      (hstatus : run.status = .awaitingApproval) (hcancel : run.cancelRequestedAt = none) :
      RowStep o run daily { run with status := .running, updatedAt := now } daily
  | fenced (now : Time) (horigin : o.fences run) (hstatus : run.status = .running)
      (hcancel : run.cancelRequestedAt = none) :
      RowStep o run daily { run with sideEffectsStarted := true, updatedAt := now } daily
  | requested (now : Time) (hactive : run.isTerminal = false) : RowStep o run daily (requestedRun now run) daily
  | raised (ownerId : Int) (target : AgentQuotaRequest) (limits : AgentQuotaLimits)
      (expiresAt now : Time) (run' : Run) (daily' : List DailyRow)
      (h : ensureAgentRunQuota run daily ownerId target limits expiresAt now = .ok (run', daily')) :
      RowStep o run daily run' daily'
  | intended (reservation : Reservation) (consumed : Amount) (now : Time)
      (hfound : run.reservation = some reservation) (hreserved : reservation.status = .reserved)
      (hpending : reservation.reconciledAt = none) (hactive : run.isTerminal = false) :
      RowStep o run daily { run with
        reservation := some { reservation with
          consumed := reservation.consumed.max consumed, heartbeatAt := now } } daily
  | dispatched (attempt : Nat) (record : AgentDispatchAccountingRecord) (now : Time)
      (hclaimed : run.isClaimed = true) (reservation : Reservation)
      (hfound : run.reservation = some reservation) (hopen : reservation.open = true) :
      RowStep o run daily (run.append attempt (.dispatchAccounting record) now) daily
  | appended (attempt : Nat) (event : PresentationEvent) (now : Time)
      (horigin : o.records run (run.append attempt event.body now))
      (hclaimed : run.isClaimed = true) :
      RowStep o run daily (run.append attempt event.body now) daily
  | suspended (checkpoint : AgentApprovalContinuationCheckpoint) (state : RuntimeState)
      (now : Time) (horigin : o.moves run .awaitingApproval) (hledger : o.suspends checkpoint)
      (hstate : state.continuation = some checkpoint)
      (hown : checkpoint.runId = run.id ∧ checkpoint.ownerId = run.ownerId ∧ checkpoint.attempt = run.attempts)
      (hstatus : run.status = .running) (hcancel : run.cancelRequestedAt = none) :
      RowStep o run daily (suspendedRun run state now) daily
  | cleared (state : Option RuntimeState) (now : Time)
      (hstate : state.bind (·.continuation) = none) (hclaimed : run.isClaimed = true) :
      RowStep o run daily { run with runtimeState := state, updatedAt := now } daily
  | requeued (now : Time) (hstatus : run.status = .running) (hfence : run.sideEffectsStarted = false)
      (hcancel : run.cancelRequestedAt = none) :
      RowStep o run daily (requeuedRun now run) daily
  | unleased (now : Time) (hstatus : run.status = .awaitingApproval) : RowStep o run daily (unleasedRun now run) daily
  | ended (input : TerminalizeAgentRunInput) (status : ActiveStatus) (run' : Run)
      (daily' : List DailyRow) (horigin : o.ends input) (hid : input.runId = run.id)
      (hstatus : run.status = .active status)
      (hexpected : checkExpected run status input.expected = .ok ())
      (h : terminalizeActive run daily input = .ok (run', daily')) :
      RowStep o run daily run' daily'
  | settled (input : TerminalizeAgentRunInput) (current : AgentTerminalRunStatus) (run' : Run)
      (daily' : List DailyRow) (hstatus : run.status = .terminal current)
      (h : terminalizeAgain run daily current input = .ok (run', daily')) :
      RowStep o run daily run' daily'
  | released (ownerId : Int) (now : Time) (run' : Run) (daily' : List DailyRow)
      (horigin : o.releases run)
      (h : Settles run daily ownerId .zero .released now ⟨false, false⟩ run' daily') :
      RowStep o run daily run' daily'
  | granted (options : ClaimAgentRunOptions) (candidate : Run) (reclaiming : Bool)
      (leaseToken : Uuid) (horigin : o.grants options candidate reclaiming leaseToken run)
      (hid : candidate.id = run.id) (hactive : candidate.isTerminal = false)
      (hfence : grantFence candidate run = true) :
      RowStep o run daily (grantedRun options candidate reclaiming leaseToken run) daily

inductive DbStep (o : Origin) (db : Database) : Database → Prop
  | row (run run' : Run) (daily' : List DailyRow) (hrun : db.run run.id = some run)
      (h : RowStep o run db.daily run' daily') : DbStep o db (db.put run' daily')
  | admitted (input : AdmitAgentRunInput) (reservation : Reservation) (daily' : List DailyRow)
      (hsession : (db.runs.any fun run => run.sessionId = input.sessionId && !run.isTerminal) = false)
      (hnew : db.run input.id = none)
      (hreserve : reserveQuota none db.daily input.ownerId input.quota input.quotaLimits input.now
        input.reservationExpiresAt = .ok (reservation, daily')) :
      DbStep o db { db with runs := db.runs ++ [queuedRun input reservation], daily := daily' }
  | requested (p : Run → Bool) (sessions : List AgentSession) (now : Time)
      (hp : ∀ run, p run = true → run.status = .running) :
      DbStep o db { db with
        runs := Table.updateWhere p (requestedRun now) db.runs
        sessions }
  | credited (ownerId : Int) (now : Time) (daily' : List DailyRow)
      (h : resetAgentDailyTokenQuota db.users db.daily ownerId now = .ok daily') :
      DbStep o db { db with daily := daily' }
  | proposed (proposal : ProposalRow) (approval : ApprovalRow) :
      DbStep o db { db with
        proposals := db.proposals ++ [proposal], approvals := db.approvals ++ [approval] }

abbrev Steps (o : Origin) : Database → Database → Prop := Relation.ReflTransGen (DbStep o)

/-! ## Origins -/

/-- The terminalizations of an operation: a claim makes those it has gathered, a worker
its own, and the others cancel a run or end it for its side effect. -/
inductive Ends (s : State) : Op → TerminalizeAgentRunInput → Prop
  | worker (lease : AgentRunLease) (status : AgentTerminalRunStatus)
      (assistant : Option AgentMessageStatus) (quota : Option TerminalizeQuota)
      (runPatch : TerminalizeAgentRunPatch) (errorCode errorMessage : Option JsString)
      (now : Time) :
      Ends s (.terminalize lease status assistant quota runPatch errorCode errorMessage now)
        (workerOutcome lease [.running, .awaitingApproval] status assistant quota runPatch errorCode errorMessage now)
  | transition (input : TransitionAgentRunInput) (status : AgentTerminalRunStatus)
      (htarget : input.target = .terminal status) :
      Ends s (.transition input) (workerOutcome input.lease [input.source] status none none .none
        input.errorCode input.errorMessage input.now)
  | claim (leaseToken : Uuid) (transaction : ClaimTransaction) (input : TerminalizeAgentRunInput)
      (hclaim : s.claim = some transaction) (hinput : input ∈ transaction.ended) :
      Ends s (.claimNext leaseToken) input
  | abandoned (op : Op) (input : TerminalizeAgentRunInput)
      (hstatus : input.status = .cancelled ∨ input.status = .recoveryRequired) : Ends s op input

/-- The claim of `s` grants the candidate that is next. -/
def Grants (codec : Codec) (s : State) (op : Op) (options : ClaimAgentRunOptions) (candidate : Run)
    (reclaiming : Bool) (leaseToken : Uuid) : Prop :=
  op = .claimNext leaseToken ∧ ∃ claim rest, s.claim = some claim ∧ claim.options = options
    ∧ claim.candidates = some (candidate :: rest)
    ∧ considerCandidate codec s.db options claim.active candidate = .ok (.grant reclaiming)

def Op.origin (codec : Codec) (op : Op) (s : State) : Origin where
  holds run := ∃ lease milliseconds now, op = .heartbeat lease milliseconds now ∧ s.db.run lease.id = some run
  moves _ target := (∃ input, op = .transition input ∧ input.target = .active target)
    ∨ (∃ lease now, op = .resumeApproval lease now)
    ∨ target = .awaitingApproval ∧ ∃ input now, op = .persistContinuation input now
  fences run := ∃ lease now, op = .markSideEffectsStarted lease now ∧ lease.id = run.id
  suspends checkpoint := ledgerAgrees s.db checkpoint = true
  ends input := Ends s op input
  records run run' := ∃ lease event now, op = .appendPresentation lease event now
    ∧ s.db.run lease.id = some run ∧ run' = run.append lease.attempts event.body now
  releases run := ∃ ownerId now, op = .releaseExpired run.id ownerId now ∧ s.db.run run.id = some run
  grants options candidate reclaiming leaseToken run :=
    Grants codec s op options candidate reclaiming leaseToken ∧ s.db.run run.id = some run

/-! ## What a write keeps -/

variable {input : TerminalizeAgentRunInput} {now : Time} {ownerId : Int}

section
variable {run run' : Run} {daily daily' : List DailyRow} {o : Origin}

theorem Settles.reservation_only {consumed : Amount} {status : SettledStatus} {options : ReconcileAgentQuotaOptions}
    (h : Settles run daily ownerId consumed status now options run' daily') : ∃ reservation,
    run' = { run with reservation } := by
  cases h with
  | missing | already => exact ⟨run.reservation, rfl⟩
  | charged => exact ⟨_, rfl⟩

theorem ensureAgentRunQuota_reservation_only {target : AgentQuotaRequest}
    {limits : AgentQuotaLimits} {expiresAt now : Time}
    (h : ensureAgentRunQuota run daily ownerId target limits expiresAt now = .ok (run', daily')) :
    ∃ reservation, run' = { run with reservation } := by
  obtain ⟨⟨target, limit⟩, -, h⟩ := bind_ok h
  cases hfound : run.reservationOf ownerId with
  | none =>
    rw [hfound] at h
    cases h
  | some reservation =>
    rw [hfound] at h
    dsimp only at h
    obtain ⟨reserved, -, h⟩ := bind_ok h
    split at h
    · cases h
      exact ⟨run.reservation, rfl⟩
    · cases hrow : dailyRow daily ownerId reservation.day with
      | none =>
        rw [hrow] at h
        cases h
      | some row =>
        rw [hrow] at h
        dsimp only at h
        obtain ⟨daily₁, -, h⟩ := bind_ok h
        cases h
        exact ⟨_, rfl⟩

theorem terminalizeAgain_reservation_only {current : AgentTerminalRunStatus}
    (h : terminalizeAgain run daily current input = .ok (run', daily')) :
    ∃ reservation, run' = { run with reservation } := by
  obtain ⟨-, -, h⟩ := bind_ok h
  split at h
  · cases h
    exact ⟨run.reservation, rfl⟩
  · obtain ⟨intent, -, h⟩ := bind_ok h
    cases intent with
    | none =>
      cases h
      exact ⟨run.reservation, rfl⟩
    | some intent =>
      obtain ⟨usage, -, h⟩ := bind_ok h
      obtain ⟨charge, -, h⟩ := bind_ok h
      exact (reconcile_settles h).reservation_only

/-- The settlement of a run that ends is at least what its journal charges. -/
theorem settleEnded_ok {usage : Option AgentDispatchAccountingState}
    (h : settleEnded run daily input usage = .ok (run', daily')) : ∃ charge consumed status,
    persistedCharge usage = .ok charge ∧ charge.Le consumed ∧
    Settles run daily run.ownerId consumed status input.now ⟨input.quota.isNone, input.quota.isNone⟩ run' daily' := by
  -- the part after the intent has been read
  have hrest : ∀ intent : Option Amount,
      (persistedCharge usage >>= fun charge =>
        let persisted := charge.max (intent.getD .zero)
        let quota := input.quota.getD ⟨persisted, settledStatusOf persisted⟩
        reconcileAgentRunQuota run daily run.ownerId (quota.consumed.max persisted)
          (if persisted.positive then .consumed else quota.status) input.now
          ⟨input.quota.isNone, input.quota.isNone⟩) = .ok (run', daily') →
      ∃ charge consumed status, persistedCharge usage = .ok charge ∧ charge.Le consumed
        ∧ Settles run daily run.ownerId consumed status input.now
          ⟨input.quota.isNone, input.quota.isNone⟩ run' daily' := by
    intro intent hintent
    obtain ⟨charge, hcharge, hreconcile⟩ := bind_ok hintent
    exact ⟨charge, _, _, hcharge,
      (Amount.le_max_left charge _).trans (Amount.le_max_right _ _), reconcile_settles hreconcile⟩
  unfold settleEnded at h
  by_cases hquota : input.quota.isNone = true
  · simp only [hquota, if_true] at h
    obtain ⟨intent, -, h⟩ := bind_ok h
    exact hrest intent (by simpa only [hquota] using h)
  · rw [if_neg hquota] at h
    exact hrest none h

/-- The end of an active run. -/
structure EndsAs (run : Run) (input : TerminalizeAgentRunInput) (run' : Run) : Prop where
  id : run'.id = run.id
  sessionId : run'.sessionId = run.sessionId
  ownerId : run'.ownerId = run.ownerId
  status : run'.status = .terminal (terminalStatus run input)
  attempts : run'.attempts = run.attempts
  sideEffectsStarted : run'.sideEffectsStarted = run.sideEffectsStarted
  eventSequence : run'.eventSequence = run.eventSequence + 2
  events : ∃ assistantStatus, run'.events = run.events ++
    [⟨run.eventSequence + 1, run.attempts, .messageCompleted assistantStatus, input.now⟩,
      ⟨run.eventSequence + 2, run.attempts, .ended (terminalStatus run input), input.now⟩]
  runtimeState : run'.runtimeState = none
  cancelled : terminalStatus run input = .cancelled → run'.cancelRequestedAt.isSome = true

theorem terminalizeActive_endsAs (h : terminalizeActive run daily input = .ok (run', daily')) :
    EndsAs run input run' := by
  obtain ⟨-, -, h⟩ := bind_ok h
  obtain ⟨usage, -, h⟩ := bind_ok h
  obtain ⟨inputTokens, -, h⟩ := bind_ok h
  obtain ⟨outputTokens, -, h⟩ := bind_ok h
  obtain ⟨totalTokens, -, h⟩ := bind_ok h
  obtain ⟨estimatedCostMicros, -, h⟩ := bind_ok h
  obtain ⟨charge, consumed, status, -, -, h⟩ := settleEnded_ok h
  obtain ⟨reservation, rfl⟩ := h.reservation_only
  refine ⟨rfl, rfl, rfl, rfl, rfl, rfl, rfl, ⟨_, rfl⟩, rfl, fun hcancelled => ?_⟩
  simp [endedRun, hcancelled]

/-- Terminalizations, and nothing else. -/
def Origin.ending : Origin where
  holds _ := False
  moves _ _ := False
  fences _ := False
  suspends _ := False
  ends _ := True
  records _ _ := False
  releases _ := False
  grants _ _ _ _ _ := False

/-- What no write changes. -/
theorem RowStep.identity (h : RowStep o run daily run' daily') :
    run'.id = run.id ∧ run'.sessionId = run.sessionId ∧ run'.ownerId = run.ownerId := by
  cases h with
  | raised ownerId target limits expiresAt now run' daily' h =>
    obtain ⟨reservation, rfl⟩ := ensureAgentRunQuota_reservation_only h
    exact ⟨rfl, rfl, rfl⟩
  | ended input status run' daily' horigin hid hstatus hexpected h =>
    have hends := terminalizeActive_endsAs h
    exact ⟨hends.id, hends.sessionId, hends.ownerId⟩
  | settled input current run' daily' hstatus h =>
    obtain ⟨reservation, rfl⟩ := terminalizeAgain_reservation_only h
    exact ⟨rfl, rfl, rfl⟩
  | released ownerId now run' daily' horigin h =>
    obtain ⟨reservation, rfl⟩ := h.reservation_only
    exact ⟨rfl, rfl, rfl⟩
  | _ => exact ⟨rfl, rfl, rfl⟩

/-- A run that has ended keeps everything but its reservation. -/
theorem RowStep.of_terminal (h : RowStep o run daily run' daily') (hterminal : run.isTerminal = true) :
    ∃ reservation, run' = { run with reservation } := by
  have hactive : ∀ status, run.status ≠ .active status := by
    intro status hstatus
    simp [Run.isTerminal, hstatus] at hterminal
  have hclaimed : run.isClaimed = false := by
    simp [Run.isClaimed, hactive]
  cases h with
  | extended => exact ⟨_, rfl⟩
  | raised ownerId target limits expiresAt now run' daily' h =>
    exact ensureAgentRunQuota_reservation_only h
  | settled input current run' daily' hstatus h => exact terminalizeAgain_reservation_only h
  | released ownerId now run' daily' horigin h => exact h.reservation_only
  | granted options candidate reclaiming leaseToken horigin hid hcandidate hfence =>
    simp only [grantFence, Bool.and_eq_true, decide_eq_true_eq] at hfence
    rw [Run.isTerminal, ← hfence.1.1, ← Run.isTerminal, hterminal] at hcandidate
    cases hcandidate
  | held expiresAt now horigin hclaimed' => simp [hclaimed] at hclaimed'
  | moved input target horigin hstatus => exact absurd hstatus (hactive _)
  | resumed now horigin hstatus => exact absurd hstatus (hactive _)
  | fenced now horigin hstatus => exact absurd hstatus (hactive _)
  | requested now hactive' => simp [hterminal] at hactive'
  | intended reservation consumed now hfound hreserved hpending hactive' =>
    simp [hterminal] at hactive'
  | dispatched attempt record now hclaimed' => simp [hclaimed] at hclaimed'
  | appended attempt event now horigin hclaimed' => simp [hclaimed] at hclaimed'
  | suspended checkpoint state now horigin hledger hstate hown hstatus =>
    exact absurd hstatus (hactive _)
  | cleared state now hstate hclaimed' => simp [hclaimed] at hclaimed'
  | requeued now hstatus => exact absurd hstatus (hactive _)
  | unleased now hstatus => exact absurd hstatus (hactive _)
  | ended input status run' daily' horigin hid hstatus => exact absurd hstatus (hactive _)

theorem RowStep.id (h : RowStep o run daily run' daily') : run'.id = run.id := h.identity.1

end

/-! ## The writes of an operation -/

section
variable {o : Origin} {db db' : Database}

/-- `db'` is `db` with one write to the run. -/
def Wrote (o : Origin) (id : Uuid) (db db' : Database) : Prop :=
  ∃ run run' daily', db.run id = some run ∧ RowStep o run db.daily run' daily' ∧ db' = db.put run' daily'

theorem Wrote.step {id : Uuid} (h : Wrote o id db db') : DbStep o db db' := by
  obtain ⟨run, run', daily', hrun, hstep, rfl⟩ := h
  exact .row run run' daily' (by rw [(run_mem hrun).2]; exact hrun) hstep

theorem Wrote.run_ne {id id' : Uuid} (h : Wrote o id db db') (hne : id' ≠ id) : db'.run id' = db.run id' := by
  obtain ⟨run, run', daily', hrun, hstep, rfl⟩ := h
  have hid : run'.id = id := by rw [hstep.id, (run_mem hrun).2]
  rw [← hid] at hrun hne
  rw [put_run hrun, if_neg hne]

theorem updateRun_wrote {id : Uuid} {cond : Run → Bool} {set : Run → Run} (h : db.updateRun id cond set = some db')
    (hstep : ∀ run, db.run id = some run → cond run = true → RowStep o run db.daily (set run) db.daily) :
    Wrote o id db db' := by
  obtain ⟨run, hrun, hcond, rfl⟩ := updateRun_eq_some.mp h
  exact ⟨run, set run, db.daily, hrun, hstep run hrun hcond, rfl⟩

theorem changedOrLost_ok {changed : Option Database} {message : String}
    (h : changedOrLost changed message = .ok db') : changed = some db' := by
  cases changed with
  | none => cases h
  | some db =>
    cases h
    rfl

theorem terminalize_ok (h : terminalizeAgentRunInTransaction db input = .ok db') :
    ∃ run run' daily', db.run input.runId = some run
      ∧ terminalizeRun run db.daily input = .ok (run', daily') ∧ db' = db.put run' daily' := by
  unfold terminalizeAgentRunInTransaction at h
  cases hfound : (db.run input.runId).filter
      fun run => matchesExpected input.ownerId run.ownerId with
  | none =>
    rw [hfound] at h
    cases h
  | some run =>
    rw [hfound] at h
    dsimp only at h
    obtain ⟨hrun, -⟩ := filter_eq_some_iff.mp hfound
    obtain ⟨⟨run', daily'⟩, hterm, h⟩ := bind_ok h
    cases h
    exact ⟨run, run', daily', hrun, hterm, rfl⟩

theorem terminalize_wrote (horigin : o.ends input)
    (h : terminalizeAgentRunInTransaction db input = .ok db') : Wrote o input.runId db db' := by
  obtain ⟨run, run', daily', hrun, hterm, rfl⟩ := terminalize_ok h
  refine ⟨run, run', daily', hrun, ?_, rfl⟩
  unfold terminalizeRun at hterm
  cases hstatus : run.status with
  | terminal current =>
    rw [hstatus] at hterm
    exact .settled input current run' daily' hstatus hterm
  | active status =>
    rw [hstatus] at hterm
    obtain ⟨_, hexpected, hterm⟩ := bind_ok hterm
    exact .ended input status run' daily' horigin (run_mem hrun).2.symm hstatus hexpected hterm

/-- A terminalization leaves its run ended and the others as they were. -/
theorem terminalize_run {id : Uuid} {run' : Run} (h : terminalizeAgentRunInTransaction db input = .ok db')
    (hrun' : db'.run id = some run') (hactive : run'.isTerminal = false) : db.run id = some run' := by
  obtain ⟨run, ended, daily', hrun, hterm, rfl⟩ := terminalize_ok h
  have hended : ended.id = run.id ∧ ended.isTerminal = true := by
    unfold terminalizeRun at hterm
    cases hstatus : run.status with
    | terminal current =>
      rw [hstatus] at hterm
      obtain ⟨reservation, rfl⟩ := terminalizeAgain_reservation_only hterm
      exact ⟨rfl, by simp [Run.isTerminal, hstatus]⟩
    | active status =>
      rw [hstatus] at hterm
      obtain ⟨-, -, hterm⟩ := bind_ok hterm
      have hends := terminalizeActive_endsAs hterm
      exact ⟨hends.id, by simp [Run.isTerminal, hends.status]⟩
  have hid : ended.id = input.runId := by rw [hended.1, (run_mem hrun).2]
  rw [← hid] at hrun
  rw [put_run hrun] at hrun'
  split at hrun'
  · cases hrun'
    rw [hended.2] at hactive
    cases hactive
  · exact hrun'

theorem terminalizeAll_run {inputs : List TerminalizeAgentRunInput} {id : Uuid} {run' : Run}
    (h : terminalizeAll db inputs = .ok db') (hrun' : db'.run id = some run')
    (hactive : run'.isTerminal = false) : db.run id = some run' := by
  have hback : db'.run id = some run' → db.run id = some run' :=
    foldlM_ok (I := fun mid => mid.run id = some run' → db.run id = some run') h
      (fun hrun => hrun)
      fun _ _ _ _ hstep hmid hrun => hmid (terminalize_run hstep hrun hactive)
  exact hback hrun'

theorem terminalizeAll_steps {inputs : List TerminalizeAgentRunInput} (horigin : ∀ input ∈ inputs, o.ends input)
    (h : terminalizeAll db inputs = .ok db') : Steps o db db' :=
  foldlM_ok h .refl fun input hinput _ _ hstep hsteps =>
    hsteps.tail (terminalize_wrote (horigin input hinput) hstep).step

end

/-! ## Maintenance -/

section
variable {o : Origin} {db db' : Database}

theorem recoverRun_wrote {row : Run} (hrow : db.run row.id = some row)
    (hends : ∀ input : TerminalizeAgentRunInput,
      input.status = .cancelled ∨ input.status = .recoveryRequired → o.ends input)
    (h : recoverRun now db row = .ok db') : db' = db ∨ Wrote o row.id db db' := by
  unfold recoverRun at h
  rw [hrow] at h
  dsimp only at h
  obtain ⟨intent, -, h⟩ := bind_ok h
  split at h
  · cases h
    exact .inl rfl
  · split at h
    · exact .inr (terminalize_wrote (hends _ (.inl rfl)) h)
    · rename_i hcancel
      have hcancel : row.cancelRequestedAt = none := by simpa using hcancel
      split at h
      · exact .inr (terminalize_wrote (hends _ (.inr rfl)) h)
      · rename_i hside
        -- the fenced updates meet the row that was selected
        split at h
        · rename_i hstatus
          cases hupdate : db.updateRun row.id (recoveryFence row .running) (requeuedRun now) with
          | none =>
            rw [hupdate] at h
            cases h
            exact .inl rfl
          | some db₁ =>
            rw [hupdate] at h
            cases h
            refine .inr (updateRun_wrote hupdate fun run hrun hfence => ?_)
            obtain rfl : row = run := by simpa [hrow] using hrun
            exact .requeued now hstatus (by simpa using hside) hcancel
        · cases hupdate : db.updateRun row.id (recoveryFence row .awaitingApproval)
              (unleasedRun now) with
          | none =>
            rw [hupdate] at h
            cases h
            exact .inl rfl
          | some db₁ =>
            rw [hupdate] at h
            cases h
            refine .inr (updateRun_wrote hupdate fun run hrun hfence => ?_)
            simp only [recoveryFence, Bool.and_eq_true, decide_eq_true_eq] at hfence
            exact .unleased now hfence.1.1

theorem Wrote.kept {id id' : Uuid} (h : db' = db ∨ Wrote o id db db') (hne : id' ≠ id) : db'.run id' = db.run id' := by
  rcases h with rfl | h
  · rfl
  · exact h.run_ne hne

/-- The first round of a loop over different runs leaves the others as they were selected. -/
theorem rows_kept {row : Run} {rows : List Run} (hrows : ∀ r ∈ row :: rows, db.run r.id = some r)
    (hnodup : ((row :: rows).map Run.id).Nodup) (hfirst : db' = db ∨ Wrote o row.id db db') :
    ∀ r ∈ rows, db'.run r.id = some r := by
  intro r hr
  rw [map_cons, nodup_cons] at hnodup
  have hne : r.id ≠ row.id := by
    intro heq
    exact hnodup.1 (heq ▸ List.mem_map_of_mem (f := Run.id) hr)
  rw [Wrote.kept hfirst hne]
  exact hrows r (by simp [hr])

section
variable {f : Database → Run → Except AgentRepositoryError Database} {rows : List Run}
  (hrows : ∀ row ∈ rows, db.run row.id = some row) (hnodup : (rows.map Run.id).Nodup)
  (hf : ∀ db db' row, db.run row.id = some row → row ∈ rows → f db row = .ok db' → db' = db ∨ Wrote o row.id db db')
  (h : rows.foldlM f db = .ok db')
include hrows hnodup hf h

/-- A loop over different runs meets each of them as it was selected. -/
theorem foldlM_wrote : Steps o db db' := by
  induction rows generalizing db with
  | nil =>
    cases h
    exact .refl
  | cons row rows ih =>
    rw [foldlM_cons] at h
    obtain ⟨mid, hmid, h⟩ := bind_ok h
    have hfirst := hf db mid row (hrows row (by simp)) (by simp) hmid
    have hsteps : Steps o mid db' := ih (rows_kept hrows hnodup hfirst) (nodup_cons.mp hnodup).2
      (fun db db' r hr hmem => hf db db' r hr (by simp [hmem])) h
    rcases hfirst with rfl | hwrote
    · exact hsteps
    · exact .head hwrote.step hsteps

theorem foldlM_leaves {id : Uuid} (hid : id ∉ rows.map Run.id) : db'.run id = db.run id := by
  induction rows generalizing db with
  | nil =>
    cases h
    rfl
  | cons row rows ih =>
    rw [foldlM_cons] at h
    obtain ⟨mid, hmid, h⟩ := bind_ok h
    rw [map_cons, mem_cons, not_or] at hid
    have hfirst := hf db mid row (hrows row (by simp)) (by simp) hmid
    rw [← Wrote.kept hfirst hid.1]
    exact ih (rows_kept hrows hnodup hfirst) (nodup_cons.mp hnodup).2
      (fun db db' r hr hmem => hf db db' r hr (by simp [hmem])) h hid.2

/-- It meets a run after some of the others, and keeps what it makes of it. -/
theorem foldlM_meets {run : Run} (hmem : run ∈ rows) : ∃ mid mid', Steps o db mid
    ∧ mid.run run.id = some run ∧ f mid run = .ok mid' ∧ db'.run run.id = mid'.run run.id := by
  induction rows generalizing db with
  | nil => cases hmem
  | cons row rows ih =>
    rw [foldlM_cons] at h
    obtain ⟨mid, hmid, hloop⟩ := bind_ok h
    have hfirst := hf db mid row (hrows row (by simp)) (by simp) hmid
    have hrows' := rows_kept hrows hnodup hfirst
    obtain ⟨hnew, hrest⟩ := nodup_cons.mp hnodup
    have hf' : ∀ db db' r, db.run r.id = some r → r ∈ rows → f db r = .ok db' →
        db' = db ∨ Wrote o r.id db db' := fun db db' r hr hmem => hf db db' r hr (by simp [hmem])
    rcases mem_cons.mp hmem with rfl | hmem
    · exact ⟨db, mid, .refl, hrows run (by simp), hmid, foldlM_leaves hrows' hrest hf' hloop hnew⟩
    · obtain ⟨mid₁, mid₂, hsteps, hfound, hmade, hlater⟩ := ih hrows' hrest hf' hloop hmem
      refine ⟨mid₁, mid₂, ?_, hfound, hmade, hlater⟩
      rcases hfirst with rfl | hwrote
      · exact hsteps
      · exact .head hwrote.step hsteps

end

/-- What a select answers to different ids. -/
theorem selected_rows {candidates : List Uuid} (hcandidates : candidates.Nodup) (p : Run → Bool) :
    (∀ row ∈ (candidates.filterMap db.run).filter p, db.run row.id = some row)
      ∧ (((candidates.filterMap db.run).filter p).map Run.id).Nodup := by
  constructor
  · intro row hrow
    obtain ⟨id, -, hid⟩ := mem_filterMap.mp (mem_filter.mp hrow).1
    rw [(run_mem hid).2]
    exact hid
  · -- the answers are found under the ids that were asked for
    have hids : ((candidates.filterMap db.run).map Run.id).Sublist candidates := by
      clear hcandidates
      induction candidates with
      | nil => simp
      | cons id candidates ih =>
        cases hid : db.run id with
        | none => simpa [filterMap_cons, hid] using ih.cons id
        | some run =>
          have hrun := (run_mem hid).2
          simpa [filterMap_cons, hid, hrun] using ih
    exact (hcandidates.sublist hids).sublist (filter_sublist.map Run.id)

theorem recoverRuns_steps {candidates : List Uuid} (hcandidates : candidates.Nodup)
    (hends : ∀ input : TerminalizeAgentRunInput,
      input.status = .cancelled ∨ input.status = .recoveryRequired → o.ends input)
    (h : recoverRuns db candidates now = .ok db') : Steps o db db' := by
  obtain ⟨hrows, hnodup⟩ := @selected_rows db _ hcandidates fun run => run.recoverable now
  exact foldlM_wrote hrows hnodup (fun db db' row hrow _ hok => recoverRun_wrote hrow hends hok) h

theorem tombstoneWaiting_steps {sessionIds : List Uuid} (hunique : (db.runs.map Run.id).Nodup)
    (hends : ∀ input : TerminalizeAgentRunInput,
      input.status = .cancelled ∨ input.status = .recoveryRequired → o.ends input)
    (h : tombstoneWaiting db ownerId sessionIds now = .ok db') : Steps o db db' := by
  refine foldlM_wrote ?_ (hunique.sublist (filter_sublist.map Run.id)) ?_ h
  · intro row hrow
    exact run_of_mem hunique (mem_filter.mp hrow).1
  · intro db db' row hrow _ hok
    unfold cancelTombstoned at hok
    rw [hrow] at hok
    dsimp only at hok
    obtain ⟨intent, -, hok⟩ := bind_ok hok
    split at hok
    · cases hok
      exact .inl rfl
    · exact .inr (terminalize_wrote (hends _ (.inl rfl)) hok)

theorem releaseExpired_wrote {runId : Uuid} (horigin : ∀ run, db.run runId = some run → o.releases run)
    (h : releaseExpiredReservation db runId ownerId now = .ok db') : db' = db ∨ Wrote o runId db db' := by
  unfold releaseExpiredReservation at h
  cases hrun : db.run runId with
  | none =>
    rw [hrun] at h
    cases h
  | some run =>
    rw [hrun] at h
    dsimp only at h
    obtain ⟨intent, -, h⟩ := bind_ok h
    split at h
    · cases h
      exact .inl rfl
    · obtain ⟨⟨run', daily'⟩, hreconcile, h⟩ := bind_ok h
      cases h
      exact .inr ⟨run, run', daily', hrun,
        .released ownerId now run' daily' (horigin run hrun) (reconcile_settles hreconcile), rfl⟩

end

/-! ## The worker -/

section
variable {o : Origin} {db db' : Database}

variable {lease : AgentRunLease}

theorem heartbeat_wrote {leaseExpiresAt now : Time} (horigin : ∀ run, db.run lease.id = some run → o.holds run)
    (h : heartbeatAgentRun db lease leaseExpiresAt now = some db') : Wrote o lease.id db db' := by
  refine updateRun_wrote h fun run hrun hcond => ?_
  simp only [Bool.and_eq_true, isNone_iff_eq_none] at hcond
  exact .held leaseExpiresAt now (horigin run hrun) hcond.1.2 hcond.2

theorem heartbeatReservation_wrote {runId : Uuid} {expiresAt now : Time}
    (h : heartbeatReservation db runId expiresAt now = some db') : Wrote o runId db db' := by
  refine updateRun_wrote h fun run hrun hcond => ?_
  obtain ⟨reservation, hfound, hreserved⟩ := (Option.any_eq_true _ _).mp hcond
  rw [hfound]
  exact .extended reservation expiresAt now hfound (by simpa using hreserved)

theorem transition_wrote {input : TransitionAgentRunInput}
    (hmoves : ∀ run target, input.target = .active target → o.moves run target)
    (hends : ∀ status, input.target = .terminal status →
      o.ends (workerOutcome input.lease [input.source] status none none .none input.errorCode
        input.errorMessage input.now))
    (h : transitionAgentRun db input = .ok db') : Wrote o input.lease.id db db' := by
  obtain ⟨_, hallowed, h⟩ := bind_ok h
  have hallowed := check_ok hallowed
  cases htarget : input.target with
  | terminal status =>
    rw [htarget] at h
    exact terminalize_wrote (hends status htarget) h
  | active target =>
    rw [htarget] at h hallowed
    refine updateRun_wrote (changedOrLost_ok h) fun run hrun hcond => ?_
    simp only [Bool.and_eq_true, decide_eq_true_eq] at hcond
    exact .moved input target (hmoves run target htarget) hcond.1 hallowed

theorem resumeApproval_wrote (hmoves : ∀ run, o.moves run .running) (h : resumeApproval db lease now = .ok db') :
    Wrote o lease.id db db' := by
  refine updateRun_wrote (changedOrLost_ok h) fun run hrun hcond => ?_
  simp only [Bool.and_eq_true, decide_eq_true_eq, isNone_iff_eq_none] at hcond
  exact .resumed now (hmoves run) hcond.1.2 hcond.2

theorem markSideEffectsStarted_wrote (horigin : ∀ run, run.id = lease.id → o.fences run)
    (h : markAgentRunSideEffectsStarted db lease now = .ok db') : Wrote o lease.id db db' := by
  refine updateRun_wrote (changedOrLost_ok h) fun run hrun hcond => ?_
  simp only [Bool.and_eq_true, decide_eq_true_eq, isNone_iff_eq_none] at hcond
  exact .fenced now (horigin run (run_mem hrun).2) hcond.1.1 hcond.2

theorem requestCancellation_wrote {runId : Uuid} (hends : ∀ input : TerminalizeAgentRunInput,
      input.status = .cancelled ∨ input.status = .recoveryRequired → o.ends input)
    (h : requestAgentRunCancellation db ownerId runId now = .ok db') :
    db' = db ∨ Wrote o runId db db' := by
  unfold requestAgentRunCancellation at h
  cases hfound : db.ownedRun ownerId runId with
  | none =>
    rw [hfound] at h
    cases h
  | some run =>
    obtain ⟨hrun, -⟩ := ownedRun_eq hfound
    rw [hfound] at h
    dsimp only at h
    split at h
    · cases h
      exact .inl rfl
    · rename_i hactive
      split at h
      · right
        have hwrote := terminalize_wrote (hends _ (.inl rfl)) h
        rwa [abandon, (run_mem hrun).2] at hwrote
      · split at h
        · cases h
        · cases h
          exact .inr ⟨run, _, db.daily, hrun, .requested now (by simpa using hactive), rfl⟩

theorem ensureQuota_wrote {runId : Uuid} {target : AgentQuotaRequest} {limits : AgentQuotaLimits} {expiresAt now : Time}
    {run run' : Run} {daily' : List DailyRow} (hrun : db.run runId = some run)
    (h : ensureAgentRunQuota run db.daily ownerId target limits expiresAt now = .ok (run', daily')) :
    Wrote o runId db (db.put run' daily') :=
  ⟨run, run', daily', hrun, .raised ownerId target limits expiresAt now run' daily' h, rfl⟩

theorem persistIntent_wrote {input : PersistSettlementIntentInput} {run' : Run}
    (h : persistSettlementIntent db input = .ok (some run')) : Wrote o input.runId db (db.put run' db.daily) := by
  unfold persistSettlementIntent at h
  obtain ⟨tokens, -, h⟩ := bind_ok h
  obtain ⟨costMicros, -, h⟩ := bind_ok h
  split at h
  · cases h
  · cases hexpected : input.expected with
    | none =>
      rw [hexpected] at h
      cases h
    | some expected =>
      rw [hexpected] at h
      dsimp only at h
      obtain ⟨-, -, h⟩ := bind_ok h
      cases hfound : (db.ownedRun input.ownerId input.runId).filter
          fun run => expected.statuses.any fun status => run.status = .active status with
      | none =>
        rw [hfound] at h
        cases h
      | some run =>
        rw [hfound] at h
        dsimp only at h
        obtain ⟨howned, hstatuses⟩ := filter_eq_some_iff.mp hfound
        obtain ⟨hrun, -⟩ := ownedRun_eq howned
        have hactive : run.isTerminal = false := by
          obtain ⟨status, -, hstatus⟩ := List.any_eq_true.mp hstatuses
          have hstatus : run.status = .active status := by simpa using hstatus
          simp [Run.isTerminal, hstatus]
        unfold intendedRun at h
        obtain ⟨-, -, h⟩ := bind_ok h
        obtain ⟨-, -, h⟩ := bind_ok h
        cases hreservation : run.reservationOf input.ownerId with
        | none =>
          rw [hreservation] at h
          cases h
        | some reservation =>
          obtain ⟨hreservation', -⟩ := filter_eq_some_iff.mp hreservation
          rw [hreservation] at h
          dsimp only at h
          obtain ⟨existing, hexisting, h⟩ := bind_ok h
          obtain ⟨rfl, -⟩ := storedAmount_ok hexisting
          split at h
          · cases h
          · rename_i hpending
            simp only [ne_eq, Bool.or_eq_true, decide_eq_true_eq, not_or, not_not,
              Bool.not_eq_true, isSome_eq_false_iff,
              isNone_iff_eq_none] at hpending
            split at h
            · cases h
            · cases h
              exact ⟨run, _, db.daily, hrun, .intended reservation ⟨tokens, costMicros⟩
                input.now hreservation' hpending.1 hpending.2 hactive, rfl⟩

theorem persistDispatch_wrote {record : AgentDispatchAccountingRecord} {run' : Run}
    (h : persistDispatch db lease record now = .ok run') : Wrote o lease.id db (db.put run' db.daily) := by
  unfold persistDispatch at h
  dsimp only at h
  split at h
  · cases h
  · rename_i run hfound
    obtain ⟨howned, hcond⟩ := filter_eq_some_iff.mp hfound
    obtain ⟨hrun, -⟩ := ownedRun_eq howned
    simp only [Bool.and_eq_true] at hcond
    split at h
    · rename_i hopen
      obtain ⟨reservation, hreservation, hopen⟩ := (Option.any_eq_true _ _).mp hopen
      obtain ⟨hreservation, -⟩ := filter_eq_some_iff.mp hreservation
      cases h
      exact ⟨run, _, db.daily, hrun,
        .dispatched lease.attempts record now hcond.1.2 reservation hreservation hopen, rfl⟩
    · cases h

theorem appendPresentation_wrote {event : PresentationEvent}
    (horigin : ∀ run, db.run lease.id = some run → o.records run (run.append lease.attempts event.body now))
    (h : appendPresentationEvent db lease event now = .ok db') : Wrote o lease.id db db' := by
  refine updateRun_wrote (changedOrLost_ok h) fun run hrun hcond => ?_
  simp only [Bool.and_eq_true] at hcond
  exact .appended lease.attempts event now (horigin run hrun) hcond.1.2

variable {codec : Codec}

theorem decodeActionContinuation_ok {state : RuntimeState} {checkpoint : Option AgentApprovalContinuationCheckpoint}
    (h : decodeActionContinuation codec state = .ok checkpoint) : checkpoint = state.continuation := by
  unfold decodeActionContinuation at h
  cases hstate : state.continuation with
  | none =>
    rw [hstate] at h
    cases h
    rfl
  | some stored =>
    rw [hstate] at h
    dsimp only at h
    split at h
    · cases h
      rfl
    · cases h

theorem encodedRuntimeState_ok {state state' : RuntimeState}
    (h : encodedRuntimeState codec state = .ok state') : state' = state := by
  unfold encodedRuntimeState at h
  split at h
  · cases h
  · cases h
    rfl

theorem persistContinuation_wrote {input : PersistAgentApprovalContinuationInput} {run' : Run}
    (hmoves : ∀ run, o.moves run .awaitingApproval)
    (hsuspends : ∀ checkpoint, ledgerAgrees db checkpoint = true → o.suspends checkpoint)
    (h : persistAgentApprovalContinuation codec db input now = .ok run') :
    Wrote o input.runId db (db.put run' db.daily) := by
  obtain ⟨-, -, h⟩ := bind_ok h
  split at h
  · cases h
  · rename_i run hfound
    obtain ⟨howned, hcond⟩ := filter_eq_some_iff.mp hfound
    obtain ⟨hrun, howner⟩ := ownedRun_eq howned
    simp only [Bool.and_eq_true, decide_eq_true_eq, isNone_iff_eq_none] at hcond
    obtain ⟨_, hledger, h⟩ := bind_ok h
    obtain ⟨state, hstate, h⟩ := bind_ok h
    cases h
    have hagrees : ledgerAgrees db (input.checkpoint codec) = true := by
      unfold assertContinuationLedger at hledger
      split at hledger
      · assumption
      · cases hledger
    obtain ⟨stored, -, hstate⟩ := bind_ok hstate
    obtain ⟨prior, -, hstate⟩ := bind_ok hstate
    obtain ⟨-, -, hstate⟩ := bind_ok hstate
    obtain rfl := encodedRuntimeState_ok hstate
    exact ⟨run, _, db.daily, hrun, .suspended (input.checkpoint codec) _ now (hmoves run)
      (hsuspends _ hagrees) rfl ⟨(run_mem hrun).2.symm, howner.symm, hcond.1.1.1.symm⟩ hcond.1.2
      hcond.2, rfl⟩

theorem clearContinuation_wrote {run' : Run} (h : clearAgentApprovalContinuation codec db lease now = .ok (some run')) :
    Wrote o lease.id db (db.put run' db.daily) := by
  unfold clearAgentApprovalContinuation at h
  split at h
  · cases h
  · rename_i run hfound
    obtain ⟨howned, hcond⟩ := filter_eq_some_iff.mp hfound
    obtain ⟨hrun, -⟩ := ownedRun_eq howned
    simp only [Bool.and_eq_true] at hcond
    obtain ⟨state, -, h⟩ := bind_ok h
    obtain ⟨checkpoint, -, h⟩ := bind_ok h
    cases checkpoint with
    | none => cases h
    | some checkpoint =>
      dsimp only at h
      split at h
      · cases h
        exact ⟨run, _, db.daily, hrun, .cleared none now rfl hcond.2, rfl⟩
      · obtain ⟨state', hstate', h⟩ := bind_ok h
        cases h
        obtain rfl := encodedRuntimeState_ok hstate'
        exact ⟨run, _, db.daily, hrun, .cleared _ now rfl hcond.2, rfl⟩

theorem admit_steps {input : AdmitAgentRunInput} (h : admitAgentRun db input = .ok db') :
    db' = db ∨ DbStep o db db' := by
  obtain ⟨-, -, h⟩ := bind_ok h
  split at h
  · obtain ⟨-, -, h⟩ := bind_ok h
    cases h
    exact .inl rfl
  · obtain ⟨_, hsession, h⟩ := bind_ok h
    split at h
    · cases h
    · rename_i hnew
      obtain ⟨⟨reservation, daily'⟩, hreserve, h⟩ := bind_ok h
      cases h
      refine .inr (.admitted input reservation daily' ?_ (by simpa using hnew) hreserve)
      unfold checkSession at hsession
      split at hsession
      · cases hsession
      · obtain ⟨-, -, hsession⟩ := bind_ok hsession
        obtain ⟨-, -, hsession⟩ := bind_ok hsession
        simpa using check_ok hsession

end

end TsEpistle.Agents
