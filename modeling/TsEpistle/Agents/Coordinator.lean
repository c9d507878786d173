import TsEpistle.Agents.Settlement

/-! Admission, claims, leases and continuations of runs (`server/agents/coordinator.ts`),
with the event appends of a worker (`server/agents/runtime.ts`) and the resumption of an
approved action (`server/agents/actions/page-proposals.ts`). A claim is given by what
its transaction does to one candidate; the rest are whole transactions or statements,
and one that fails leaves the database as it was. -/

namespace TsEpistle.Agents
open Library

/-! ## Admission -/

/-- `refusal` is what the checks of the generation tools and the media bindings answer,
and `admissionSha256` the hash of `admissionEnvelope`. -/
structure AdmitAgentRunInput where
  id : Uuid
  ownerId : Int
  (sessionId clientRequestId : Uuid)
  clientPayloadSha256 : Option JsString
  refusal : Option AgentRepositoryError
  expectedSessionVersion : Int
  (profileResolutionSha256 content : JsString)
  goalId : Option Uuid
  goalContinuation : Option Int
  admissionSha256 : JsString
  googleSearchEnabled : Bool
  quota : AgentQuotaRequest
  quotaLimits : AgentQuotaLimits
  maxAttempts : Option Nat
  (reservationExpiresAt now : Time)
  deriving DecidableEq, Repr

/-- The pattern `/^[a-f0-9]{64}$/`, whose braces bound the length. -/
def isSha256 (value : JsString) : Bool :=
  value.length == 64 && value.all fun c => (48 ≤ c && c ≤ 57) || (97 ≤ c && c ≤ 102)

def checkAdmission (input : AdmitAgentRunInput) : Except AgentRepositoryError Unit := do
  check (input.clientPayloadSha256.all isSha256)
    "INVALID_CLIENT_REQUEST_IDENTITY" "Client payload hash is invalid" 400
  match input.refusal with
  | some error => .error error
  | none =>
    check (isSha256 input.profileResolutionSha256)
      "INVALID_PROFILE_RESOLUTION" "Profile resolution hash is invalid" 400
    check (1 ≤ input.content.length && input.content.length ≤ 32000)
      "INVALID_AGENT_MESSAGE" "Agent message content is invalid" 400
    check (input.goalId.isSome = input.goalContinuation.isSome
        && input.goalContinuation.all fun n => 0 ≤ n && n ≤ (maxSafeInteger : Int))
      "INVALID_AGENT_GOAL" "Agent goal association is invalid" 400

/-- An exception of the database. -/
def uniqueViolation {α : Type} : Except AgentRepositoryError α :=
  refuse "23505" "duplicate key value violates unique constraint" 500

/-- The row that an admission inserts, with its queued event. -/
def queuedRun (input : AdmitAgentRunInput) (reservation : Reservation) : Run where
  id := input.id
  sessionId := input.sessionId
  ownerId := input.ownerId
  clientRequestId := input.clientRequestId
  clientRequestSha256 := input.admissionSha256
  status := .queued
  attempts := 0
  maxAttempts := input.maxAttempts.getD 3
  eventSequence := 1
  availableAt := input.now
  leaseOwner := none
  leaseToken := none
  leaseExpiresAt := none
  cancelRequestedAt := none
  sideEffectsStarted := false
  runtimeState := none
  inputTokens := 0
  outputTokens := 0
  totalTokens := 0
  estimatedCostMicros := none
  errorCode := none
  errorMessage := none
  queuedAt := input.now
  startedAt := none
  updatedAt := input.now
  completedAt := none
  assistantStatus := .pending
  events := [⟨1, 0, .queued, input.now⟩]
  reservation := some reservation

/-- The session of an owner that is not deleted. -/
def Database.liveSession (db : Database) (ownerId : Int) (id : Uuid) : Option AgentSession :=
  db.sessions.find? fun session =>
    session.id = id && session.ownerId = ownerId && session.deletedAt.isNone

/-- What an admission asks of the session before it inserts. -/
def checkSession (db : Database) (input : AdmitAgentRunInput) : Except AgentRepositoryError Unit :=
  match db.liveSession input.ownerId input.sessionId with
  | none => refuse "AGENT_RESOURCE_NOT_FOUND" "Agent resource was not found" 404
  | some session => do
      check (session.version = input.expectedSessionVersion) "SESSION_VERSION_CHANGED"
        "Agent session changed concurrently" 409
      check (session.googleSearchEnabled = input.googleSearchEnabled)
        "GOOGLE_SEARCH_CONSENT_CHANGED" "Google Search consent changed before admission" 409
      check (!db.runs.any fun run => run.sessionId = input.sessionId && !run.isTerminal)
        "SESSION_RUN_ACTIVE" "Agent session already has an active run" 409

/-- `admitAgentRunInTransaction`. A repeated request changes nothing. -/
def admitAgentRun (db : Database) (input : AdmitAgentRunInput) :
    Except AgentRepositoryError Database := do
  checkAdmission input
  match db.runs.find? fun run =>
      run.sessionId = input.sessionId && run.clientRequestId = input.clientRequestId && run.ownerId = input.ownerId with
  | some retry =>
    check (retry.clientRequestSha256 = input.admissionSha256) "RUN_IDEMPOTENCY_MISMATCH"
      "Client request ID was reused with different input" 409
    return db
  | none =>
    checkSession db input
    if (db.run input.id).isSome then uniqueViolation
    else
      let (reservation, daily) ← reserveQuota none db.daily input.ownerId input.quota
        input.quotaLimits input.now input.reservationExpiresAt
      return { db with runs := db.runs ++ [queuedRun input reservation], daily }

/-! ## Continuations -/

section
variable (codec : Codec)

def maxActionContinuationBytes : Nat := 96 * 1024

def maxRuntimeStateBytes : Nat := 256 * 1024

def continuationCorrupt {α : Type} (message : String) : Except AgentRepositoryError α :=
  refuse "AGENT_ACTION_CONTINUATION_CORRUPT" message 500

def continuationMismatch {α : Type} (message : String) : Except AgentRepositoryError α :=
  refuse "AGENT_ACTION_CONTINUATION_MISMATCH" message 409

def runtimeState (stored : Option RuntimeState) : Except AgentRepositoryError RuntimeState :=
  match stored with
  | none => .ok ⟨[], none⟩
  | some state =>
    if codec.stateBytes state > maxRuntimeStateBytes then
      continuationCorrupt "Stored runtime state is too large"
    else .ok state

def decodeActionContinuation (state : RuntimeState) :
    Except AgentRepositoryError (Option AgentApprovalContinuationCheckpoint) :=
  match state.continuation with
  | none => .ok none
  | some checkpoint =>
    if codec.checkpointBytes checkpoint ≤ maxActionContinuationBytes
        && 1 ≤ checkpoint.ownerId && checkpoint.ownerId ≤ maxSafeInteger
        && 1 ≤ checkpoint.attempt && checkpoint.attempt ≤ maxSafeInteger
        && 1 ≤ checkpoint.actionCallId.length && checkpoint.actionCallId.length ≤ 128
        && isSha256 checkpoint.actionInputSha256 && isSha256 checkpoint.proposalInputHash
        && checkpoint.authorityVersion = 1 && isSha256 checkpoint.authoritySha256
        && isSha256 checkpoint.checkpointSha256
        && codec.sha256 checkpoint.actionInput = checkpoint.actionInputSha256
        && codec.checkpointHash checkpoint.toCheckpointBody = checkpoint.checkpointSha256 then
      .ok (some checkpoint)
    else continuationCorrupt "Stored action continuation failed validation"

def encodedRuntimeState (state : RuntimeState) : Except AgentRepositoryError RuntimeState :=
  if codec.stateBytes state > maxRuntimeStateBytes then
    refuse "AGENT_ACTION_CONTINUATION_TOO_LARGE"
      "Runtime state with action continuation exceeds its size limit" 500
  else .ok state

/-- The stored row of a proposal and the columns of a checkpoint agree. -/
def ProposalRow.agrees (proposal : ProposalRow)
    (checkpoint : AgentApprovalContinuationCheckpoint) : Bool :=
  proposal.isAgent && proposal.runId = some checkpoint.runId
    && proposal.requesterRequestId = checkpoint.runId
    && proposal.requesterUserId = some checkpoint.ownerId
    && proposal.actionCallId = checkpoint.actionCallId
    && proposal.actionName = checkpoint.actionName
    && proposal.input = some checkpoint.actionInput
    && proposal.inputHash = checkpoint.proposalInputHash
    && proposal.authorityVersion = checkpoint.authorityVersion
    && proposal.authoritySha256 = checkpoint.authoritySha256

def ApprovalRow.agrees (approval : ApprovalRow)
    (checkpoint : AgentApprovalContinuationCheckpoint) : Bool :=
  approval.runId = some checkpoint.runId
    && approval.requesterUserId = some checkpoint.ownerId
    && approval.inputHash = checkpoint.proposalInputHash
    && approval.authorityVersion = checkpoint.authorityVersion
    && approval.authoritySha256 = checkpoint.authoritySha256

/-- The two rows a checkpoint names are there and agree with it. -/
def ledgerAgrees (db : Database) (checkpoint : AgentApprovalContinuationCheckpoint) : Bool :=
  (Table.get ProposalRow.id db.proposals checkpoint.proposalId).any
      (·.agrees checkpoint)
    && (Table.get (fun approval : ApprovalRow => (approval.id, approval.proposalId)) db.approvals
      (checkpoint.approvalId, checkpoint.proposalId)).any (·.agrees checkpoint)

def assertContinuationLedger (db : Database) (checkpoint : AgentApprovalContinuationCheckpoint) :
    Except AgentRepositoryError Unit :=
  if ledgerAgrees db checkpoint then .ok ()
  else continuationMismatch "Action continuation does not match its proposal authority ledger"

structure PersistAgentApprovalContinuationInput where
  runId : Uuid
  ownerId : Int
  attempt : Nat
  leaseToken : Uuid
  (actionCallId actionName actionInput : JsString)
  (proposalId approvalId : Uuid)
  proposalInputHash : JsString
  authorityVersion : Int
  authoritySha256 : JsString
  deriving DecidableEq, Repr

def PersistAgentApprovalContinuationInput.checkpoint
    (input : PersistAgentApprovalContinuationInput) : AgentApprovalContinuationCheckpoint :=
  let body : CheckpointBody :=
    { runId := input.runId, ownerId := input.ownerId, attempt := input.attempt
      actionCallId := input.actionCallId, actionName := input.actionName
      actionInput := input.actionInput, actionInputSha256 := codec.sha256 input.actionInput
      proposalId := input.proposalId, approvalId := input.approvalId
      proposalInputHash := input.proposalInputHash, authorityVersion := input.authorityVersion
      authoritySha256 := input.authoritySha256 }
  { body with checkpointSha256 := codec.checkpointHash body }

/-- The runtime state with the checkpoint of a suspension. -/
def suspendedState (run : Run) (checkpoint : AgentApprovalContinuationCheckpoint) :
    Except AgentRepositoryError RuntimeState := do
  let state ← runtimeState codec run.runtimeState
  let prior ← decodeActionContinuation codec state
  check (prior.all fun prior => prior.checkpointSha256 = checkpoint.checkpointSha256)
    "AGENT_ACTION_CONTINUATION_EXISTS" "Agent run already has a different action continuation" 409
  encodedRuntimeState codec { state with continuation := some checkpoint }

def suspendedRun (run : Run) (state : RuntimeState) (now : Time) : Run :=
  { run with runtimeState := some state, status := .awaitingApproval, updatedAt := now }

def persistAgentApprovalContinuation (db : Database) (input : PersistAgentApprovalContinuationInput)
    (now : Time) : Except AgentRepositoryError Run := do
  let checkpoint := input.checkpoint codec
  check (codec.checkpointBytes checkpoint ≤ maxActionContinuationBytes)
    "AGENT_ACTION_CONTINUATION_TOO_LARGE" "Action continuation exceeds its size limit" 500
  match (db.ownedRun input.ownerId input.runId).filter fun run =>
      run.attempts = input.attempt && run.leaseToken = some input.leaseToken
        && run.status = .running && run.cancelRequestedAt.isNone with
  | none =>
    refuse "RUN_LEASE_LOST" "Agent run lease was lost before approval suspension" 409
  | some run =>
    assertContinuationLedger db checkpoint
    let state ← suspendedState codec run checkpoint
    return suspendedRun run state now

/-- `AgentRunLeaseIdentity`. -/
structure AgentRunLease where
  id : Uuid
  ownerId : Int
  attempts : Nat
  leaseOwner : JsString
  leaseToken : Uuid
  deriving DecidableEq, Repr

/-- The row carries the lease. -/
def AgentRunLease.holds (lease : AgentRunLease) (run : Run) : Bool :=
  run.leaseOwner = some lease.leaseOwner && run.leaseToken = some lease.leaseToken

def readAgentApprovalContinuation (db : Database) (lease : AgentRunLease) :
    Except AgentRepositoryError (Option AgentApprovalContinuationCheckpoint) :=
  match (db.ownedRun lease.ownerId lease.id).filter fun run =>
      run.attempts = lease.attempts && lease.holds run && run.isClaimed && run.cancelRequestedAt.isNone with
  | none =>
    refuse "RUN_LEASE_LOST" "Agent run lease was lost while loading its action continuation" 409
  | some run => do
      let state ← runtimeState codec run.runtimeState
      match ← decodeActionContinuation codec state with
      | none => return none
      | some checkpoint =>
        if checkpoint.runId ≠ lease.id || checkpoint.ownerId ≠ lease.ownerId
            || checkpoint.attempt ≠ lease.attempts then
          continuationMismatch "Action continuation does not belong to the claimed run attempt"
        else
          assertContinuationLedger db checkpoint
          return some checkpoint

/-- `clearAgentApprovalContinuation`; `none` where there is nothing to clear. -/
def clearAgentApprovalContinuation (db : Database) (lease : AgentRunLease) (now : Time) :
    Except AgentRepositoryError (Option Run) :=
  match (db.ownedRun lease.ownerId lease.id).filter fun run =>
      run.attempts = lease.attempts && lease.holds run && run.isClaimed with
  | none =>
    refuse "RUN_LEASE_LOST" "Agent run lease was lost while clearing its action continuation" 409
  | some run => do
      let state ← runtimeState codec run.runtimeState
      match ← decodeActionContinuation codec state with
      | none => return none
      | some _ =>
        if state.others.isEmpty then
          return some { run with runtimeState := none, updatedAt := now }
        else
          let state ← encodedRuntimeState codec { state with continuation := none }
          return some { run with runtimeState := some state, updatedAt := now }

end

/-! ## Claims -/

structure ClaimAgentRunOptions where
  workerId : JsString
  (globalConcurrency perUserConcurrency leaseMilliseconds : Int)
  now : Time
  deriving DecidableEq, Repr

namespace ClaimAgentRunOptions

/-- `Math.max(1, …)`. -/
def global (options : ClaimAgentRunOptions) : Nat := (Max.max 1 options.globalConcurrency).toNat

def perUser (options : ClaimAgentRunOptions) : Nat := (Max.max 1 options.perUserConcurrency).toNat

def leaseExpiresAt (options : ClaimAgentRunOptions) : Time :=
  options.now + options.leaseMilliseconds

end ClaimAgentRunOptions

/-- Running with a lease that has not expired. -/
def Run.holdsLease (run : Run) (now : Time) : Bool :=
  run.status = .running && run.leaseExpiresAt.any fun expiresAt => now < expiresAt

structure ActiveLeaseCounts where
  global : Nat
  byOwner : List (Int × Nat)
  deriving DecidableEq, Repr

namespace ActiveLeaseCounts

/-- `byOwner.get(ownerId) ?? 0`. -/
def ofOwner (counts : ActiveLeaseCounts) (ownerId : Int) : Nat :=
  (counts.byOwner.lookup ownerId).getD 0

def saturatedOwnerIds (counts : ActiveLeaseCounts) (perUserConcurrency : Nat) : List Int :=
  (counts.byOwner.filter fun entry => perUserConcurrency ≤ entry.2).map Prod.fst

end ActiveLeaseCounts

/-- Grouped by owner, in the order of the owners, with as many groups as the limit. -/
def activeLeaseCounts (runs : List Run) (now : Time) (globalConcurrency : Nat) :
    ActiveLeaseCounts :=
  let active := runs.filter fun run => run.holdsLease now
  let owners := ((active.map (·.ownerId)).dedup.insertionSort (· ≤ ·)).take globalConcurrency
  let byOwner := owners.map fun ownerId => (ownerId, active.countP fun run => run.ownerId = ownerId)
  ⟨(byOwner.map Prod.snd).sum, byOwner⟩

/-- The condition of `candidateQuery`. -/
def Run.claimable (run : Run) (now : Time) : Bool :=
  ((run.status = .queued && run.availableAt ≤ now) || (run.isClaimed && run.leaseExpired now))
    && run.cancelRequestedAt.isNone && !run.pendingQuotaSettlement

/-- The condition of the query under the lock. -/
def candidateQuery (options : ClaimAgentRunOptions) (active : ActiveLeaseCounts) (run : Run) :
    Bool :=
  run.claimable options.now
    && (run.status = .awaitingApproval || run.sideEffectsStarted
      || !(active.saturatedOwnerIds options.perUser).contains run.ownerId)

/-- `ORDER BY "availableAt", "queuedAt"`. -/
def claimOrder (a b : Run) : Prop :=
  a.availableAt < b.availableAt ∨ (a.availableAt = b.availableAt ∧ a.queuedAt ≤ b.queuedAt)

instance : DecidableRel claimOrder := fun a b => by unfold claimOrder; infer_instance

def claimLimit : Nat := 32

/-- The status of a row, as a list of expected statuses. -/
def AgentRunStatus.asExpected : AgentRunStatus → List ActiveStatus
  | .active status => [status]
  | .terminal _ => []

/-- The terminalization of a run that its caller has read, with no worker's outcome. -/
def abandon (run : Run) (status : AgentTerminalRunStatus) (errorCode errorMessage : Option JsString)
    (cancelRequestedAt : Option Time) (now : Time) : TerminalizeAgentRunInput where
  runId := run.id
  ownerId := some run.ownerId
  expected := some ⟨run.status.asExpected, some run.eventSequence, none, some run.leaseToken⟩
  status := status
  assistant := none
  quota := none
  runPatch := .none
  errorCode := errorCode
  errorMessage := errorMessage
  cancelRequestedAt := cancelRequestedAt
  now := now

/-- The terminalization in `recoveryLostSideEffect`, and in the recovery of runs. -/
def lostSideEffect (run : Run) (now : Time) : TerminalizeAgentRunInput :=
  abandon run .recoveryRequired (some (js "LEASE_LOST_AFTER_SIDE_EFFECT"))
    (some (js "Run lease expired after a side effect may have started")) none now

def maxAttemptsExceeded (run : Run) (now : Time) : TerminalizeAgentRunInput :=
  abandon run .failed (some (js "MAX_ATTEMPTS_EXCEEDED"))
    (some (js "Agent run exhausted its durable attempts")) none now

def hasReclaimableActionContinuation (codec : Codec) (db : Database) (candidate : Run) :
    Except AgentRepositoryError Bool :=
  if candidate.status ≠ .running || candidate.sideEffectsStarted then .ok false
  else do
    let state ← runtimeState codec candidate.runtimeState
    match ← decodeActionContinuation codec state with
    | none => return false
    | some checkpoint =>
      if checkpoint.runId ≠ candidate.id || checkpoint.ownerId ≠ candidate.ownerId
          || checkpoint.attempt ≠ candidate.attempts then
        continuationMismatch "Action continuation does not belong to the reclaimable run attempt"
      else
        assertContinuationLedger db checkpoint
        return true

/-- What the loop over the candidates does with one of them. -/
inductive Verdict
  | skip
  | terminalize (input : TerminalizeAgentRunInput)
  | grant (reclaimingContinuation : Bool)
  deriving DecidableEq, Repr

def considerCandidate (codec : Codec) (db : Database) (options : ClaimAgentRunOptions)
    (active : ActiveLeaseCounts) (candidate : Run) : Except AgentRepositoryError Verdict := do
  let pendingIntent ← match db.run candidate.id with
    | none => .ok none
    | some run => readSettlementIntent run candidate.ownerId
  if positiveSettlement pendingIntent then return .skip
  else if candidate.status = .running && candidate.sideEffectsStarted then
    return .terminalize (lostSideEffect candidate options.now)
  else
    let reclaimingContinuation ← hasReclaimableActionContinuation codec db candidate
    if candidate.status ≠ .awaitingApproval && options.perUser ≤ active.ofOwner candidate.ownerId then return .skip
    else if candidate.maxAttempts ≤ candidate.attempts && candidate.status ≠ .awaitingApproval
        && !reclaimingContinuation then
      return .terminalize (maxAttemptsExceeded candidate options.now)
    else return .grant reclaimingContinuation

/-- The fence of the update that grants a candidate. -/
def grantFence (candidate : Run) (run : Run) : Bool :=
  run.status = candidate.status && run.eventSequence = candidate.eventSequence
    && (candidate.status = .queued || run.leaseToken = candidate.leaseToken)

/-- The attempt of a granted candidate. -/
def grantedAttempts (candidate : Run) (reclaimingContinuation : Bool) : Nat :=
  if candidate.status = .awaitingApproval || reclaimingContinuation then candidate.attempts
  else candidate.attempts + 1

def grantedRun (options : ClaimAgentRunOptions) (candidate : Run) (reclaimingContinuation : Bool)
    (leaseToken : Uuid) (run : Run) : Run :=
  { run with
    status := if candidate.status = .awaitingApproval then .awaitingApproval else .running
    attempts := grantedAttempts candidate reclaimingContinuation
    leaseOwner := some options.workerId
    leaseToken := some leaseToken
    leaseExpiresAt := some options.leaseExpiresAt
    startedAt := if candidate.status = .queued then some options.now else candidate.startedAt
    updatedAt := options.now }

/-- The transaction of a claim, which holds the lock of the coordinator. `candidates` is
`none` before the select. The terminalizations of `ended` stay locked and unseen until
the transaction commits. -/
structure ClaimTransaction where
  options : ClaimAgentRunOptions
  active : ActiveLeaseCounts
  candidates : Option (List Run)
  ended : List TerminalizeAgentRunInput
  deriving DecidableEq, Repr

/-- A number of terminalizations in one transaction. -/
def terminalizeAll (db : Database) (inputs : List TerminalizeAgentRunInput) :
    Except AgentRepositoryError Database :=
  inputs.foldlM terminalizeAgentRunInTransaction db

inductive ClaimRound
  | next (transaction : ClaimTransaction)
  | ended (db : Database)
  | granted (db : Database) (candidate : Run) (reclaimingContinuation : Bool)

/-- One round of the loop; without a candidate the transaction commits. -/
def claimRound (codec : Codec) (db : Database) (transaction : ClaimTransaction)
    (leaseToken : Uuid) : Except AgentRepositoryError ClaimRound :=
  match transaction.candidates with
  | none => .ok (.next transaction)
  | some [] => (terminalizeAll db transaction.ended).map .ended
  | some (candidate :: rest) => do
      let options := transaction.options
      let remaining := { transaction with candidates := some rest }
      match ← considerCandidate codec db options transaction.active candidate with
      | .skip => return .next remaining
      | .terminalize input =>
        let ended := transaction.ended ++ [input]
        let _ ← terminalizeAll db ended
        return .next { remaining with ended }
      | .grant reclaimingContinuation =>
        let db ← terminalizeAll db transaction.ended
        match db.updateRun candidate.id (grantFence candidate)
            (grantedRun options candidate reclaimingContinuation leaseToken) with
        | none => return .next remaining
        | some db => return .granted db candidate reclaimingContinuation

/-- The count at the start of a claim; `none` where the slots are taken. -/
def beginClaim (db : Database) (options : ClaimAgentRunOptions) : Option ClaimTransaction :=
  let active := activeLeaseCounts db.runs options.now options.global
  if options.global ≤ active.global then none else some ⟨options, active, none, []⟩

/-! ## The lease holder -/

def heartbeatAgentRun (db : Database) (lease : AgentRunLease) (leaseExpiresAt now : Time) :
    Option Database :=
  db.updateRun lease.id
    (fun run => lease.holds run && run.isClaimed && run.cancelRequestedAt.isNone)
    fun run => { run with leaseExpiresAt := some leaseExpiresAt, updatedAt := now }

/-- The second statement of a heartbeat. -/
def heartbeatReservation (db : Database) (runId : Uuid) (expiresAt now : Time) : Option Database :=
  db.updateRun runId
    (fun run => run.reservation.any fun reservation => reservation.status = .reserved)
    fun run =>
      let extend (reservation : Reservation) := { reservation with heartbeatAt := now, expiresAt }
      { run with reservation := run.reservation.map extend }

/-- An update that throws where it changes no row. -/
def changedOrLost (changed : Option Database) (message : String) :
    Except AgentRepositoryError Database :=
  match changed with
  | none => refuse "RUN_LEASE_LOST" message 409
  | some db => .ok db

structure TransitionAgentRunInput where
  lease : AgentRunLease
  source : ActiveStatus
  target : AgentRunStatus
  (errorCode errorMessage : Option JsString)
  availableAt : Option Time
  now : Time
  deriving DecidableEq, Repr

/-- The targets that `transitionAgentRun` admits. -/
def transitionAllowed (source : ActiveStatus) (target : AgentRunStatus) : Bool :=
  match source with
  | .running => target ≠ .running
  | .awaitingApproval =>
    target = .running || target = .terminal .cancelled || target = .terminal .recoveryRequired
  | .queued => false

def transitionedRun (input : TransitionAgentRunInput) (target : ActiveStatus) (run : Run) : Run :=
  { run with
    status := .active target
    updatedAt := input.now
    errorCode := input.errorCode
    errorMessage := input.errorMessage
    completedAt := none
    availableAt := if target = .queued then input.availableAt.getD input.now else run.availableAt }

/-- The terminalization that a worker asks for with its lease. -/
def workerOutcome (lease : AgentRunLease) (statuses : List ActiveStatus)
    (status : AgentTerminalRunStatus) (assistant : Option AgentMessageStatus)
    (quota : Option TerminalizeQuota) (runPatch : TerminalizeAgentRunPatch)
    (errorCode errorMessage : Option JsString) (now : Time) : TerminalizeAgentRunInput where
  runId := lease.id
  ownerId := some lease.ownerId
  expected := some ⟨statuses, none, some (some lease.leaseOwner), some (some lease.leaseToken)⟩
  status := status
  assistant := assistant
  quota := quota
  runPatch := runPatch
  errorCode := errorCode
  errorMessage := errorMessage
  cancelRequestedAt := none
  now := now

def transitionAgentRun (db : Database) (input : TransitionAgentRunInput) :
    Except AgentRepositoryError Database := do
  check (transitionAllowed input.source input.target)
    "INVALID_RUN_TRANSITION" "Agent run transition is invalid" 400
  match input.target with
  | .terminal status =>
    terminalizeAgentRunInTransaction db (workerOutcome input.lease [input.source] status none none
      .none input.errorCode input.errorMessage input.now)
  | .active target =>
    changedOrLost
      (db.updateRun input.lease.id
        (fun run => run.status = .active input.source && input.lease.holds run)
        (transitionedRun input target))
      "Agent run lease was lost"

/-- `resume` in `waitForApproval`. -/
def resumeApproval (db : Database) (lease : AgentRunLease) (now : Time) :
    Except AgentRepositoryError Database :=
  changedOrLost
    (db.updateRun lease.id
      (fun run => run.ownerId = lease.ownerId && run.attempts = lease.attempts && lease.holds run
        && run.status = .awaitingApproval && run.cancelRequestedAt.isNone)
      fun run => { run with status := .running, updatedAt := now })
    "Run lease was lost while resolving approval"

def markAgentRunSideEffectsStarted (db : Database) (lease : AgentRunLease) (now : Time) :
    Except AgentRepositoryError Database :=
  changedOrLost
    (db.updateRun lease.id
      (fun run => run.status = .running && lease.holds run && run.cancelRequestedAt.isNone)
      fun run => { run with sideEffectsStarted := true, updatedAt := now })
    "Agent run lease was lost before the side effect fence"

/-- `#persist` of the dispatch budget. -/
def persistDispatch (db : Database) (lease : AgentRunLease)
    (record : AgentDispatchAccountingRecord) (now : Time) : Except AgentRepositoryError Run :=
  let reserves := match record with
    | .reserved .. => true
    | _ => false
  match (db.ownedRun lease.ownerId lease.id).filter fun run =>
      lease.holds run && run.isClaimed && (!reserves || run.cancelRequestedAt.isNone) with
  | none =>
    refuse "RUN_LEASE_LOST" "Agent run lease was lost while recording dispatch accounting" 409
  | some run =>
    if (run.reservationOf lease.ownerId).any fun reservation =>
        reservation.status = .reserved && reservation.reconciledAt.isNone && !reservation.consumed.positive then
      .ok (run.append lease.attempts (.dispatchAccounting record) now)
    else settlementError "Agent dispatch accounting cannot change a pending or settled reservation"

/-- The events of `#appendPresentationEventInTransaction`. `validateAgentEventData` checks the receipts of
memory alone, which are not modelled: a usage is taken as it comes. -/
inductive PresentationEvent
  | usage (type : UsageEventType) (usage : Usage)
  | presented (type : JsString)
  deriving DecidableEq, Repr

def PresentationEvent.body : PresentationEvent → EventBody
  | .usage type amount => .usage type amount
  | .presented type => .presented type

def appendPresentationEvent (db : Database) (lease : AgentRunLease) (event : PresentationEvent)
    (now : Time) : Except AgentRepositoryError Database :=
  changedOrLost
    (db.updateRun lease.id
      (fun run => run.ownerId = lease.ownerId && lease.holds run && run.isClaimed && run.cancelRequestedAt.isNone)
      fun run => run.append lease.attempts event.body now)
    "Agent run lease was lost while recording output"

/-! ## Cancellation -/

def requestAgentRunCancellation (db : Database) (ownerId : Int) (runId : Uuid) (now : Time) :
    Except AgentRepositoryError Database :=
  match db.ownedRun ownerId runId with
  | none => refuse "AGENT_RESOURCE_NOT_FOUND" "Agent resource was not found" 404
  | some run =>
    if run.isTerminal then .ok db
    else if !(run.leaseToken.isSome && run.holdsLease now) then
      terminalizeAgentRunInTransaction db (abandon run .cancelled none none (some now) now)
    else if run.cancelRequestedAt.isSome then
      refuse "RUN_TERMINAL_FENCE_CHANGED"
        "Agent run changed while cancellation was requested" 409
    else .ok (db.put { run with cancelRequestedAt := some now, updatedAt := now } db.daily)

end TsEpistle.Agents
