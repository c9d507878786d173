import TsEpistle.Library.Table
import TsEpistle.Agents.DispatchAccounting

/-! The tables behind agent runs (`server/agents/coordinator.ts`): sessions, runs, daily
quotas, and the columns of proposals and approvals that a continuation is compared with.
A quota reservation is keyed by its run and an event by its run and sequence, so a `Run`
carries both, with the status of its assistant message. -/

namespace TsEpistle.Agents
open Library

def check (holds : Bool) (code message : String) (status : Nat) :
    Except AgentRepositoryError Unit :=
  if holds then .ok () else refuse code message status

theorem check_ok {holds : Bool} {code message : String} {status : Nat} {u : Unit}
    (h : check holds code message status = .ok u) : holds = true := by
  unfold check at h
  split at h
  · assumption
  · cases h

/-- The statuses of `ACTIVE_STATUSES`. -/
inductive ActiveStatus
  | queued | running | awaitingApproval
  deriving DecidableEq, Repr

/-- `partialRun` is `'partial'`. -/
inductive AgentTerminalRunStatus
  | succeeded | partialRun | failed | cancelled | recoveryRequired
  deriving DecidableEq, Repr

inductive AgentRunStatus
  | active (status : ActiveStatus)
  | terminal (status : AgentTerminalRunStatus)
  deriving DecidableEq, Repr

namespace AgentRunStatus

abbrev queued : AgentRunStatus := .active .queued
abbrev running : AgentRunStatus := .active .running
abbrev awaitingApproval : AgentRunStatus := .active .awaitingApproval

end AgentRunStatus

inductive AgentMessageStatus
  | pending | streaming | complete | failed | cancelled
  deriving DecidableEq, Repr

/-! ## Continuations -/

/-- `actionInput` is kept in its canonical encoding, and `version` is constant. -/
structure CheckpointBody where
  runId : Uuid
  ownerId : Int
  attempt : Nat
  (actionCallId actionName actionInput actionInputSha256 : JsString)
  (proposalId approvalId : Uuid)
  proposalInputHash : JsString
  authorityVersion : Int
  authoritySha256 : JsString
  deriving DecidableEq, Repr

structure AgentApprovalContinuationCheckpoint extends CheckpointBody where
  checkpointSha256 : JsString
  deriving DecidableEq, Repr

/-- The runtime state of a run: its continuation and the other keys. -/
structure RuntimeState where
  others : List (JsString × JsString)
  continuation : Option AgentApprovalContinuationCheckpoint
  deriving DecidableEq, Repr

/-- The functions on texts that a continuation goes through. -/
structure Codec where
  sha256 : JsString → JsString
  checkpointHash : CheckpointBody → JsString
  checkpointBytes : AgentApprovalContinuationCheckpoint → Nat
  stateBytes : RuntimeState → Nat

structure ProposalRow where
  id : Uuid
  isAgent : Bool
  runId : Option Uuid
  requesterRequestId : Uuid
  requesterUserId : Option Int
  (actionCallId actionName : JsString)
  input : Option JsString
  inputHash : JsString
  authorityVersion : Int
  authoritySha256 : JsString
  deriving DecidableEq, Repr

structure ApprovalRow where
  (id proposalId : Uuid)
  runId : Option Uuid
  requesterUserId : Option Int
  inputHash : JsString
  authorityVersion : Int
  authoritySha256 : JsString
  deriving DecidableEq, Repr

/-! ## Quotas -/

/-- The UTC day of a time, as `dayKey` names it. -/
abbrev Day := Int

def dayKey (now : Time) : Day := now / 86400000

inductive SettledStatus
  | consumed | released
  deriving DecidableEq, Repr

inductive ReservationStatus
  | reserved
  | settled (status : SettledStatus)
  deriving DecidableEq, Repr

/-- A row of `agentQuotaReservations`. While it is reserved, `consumed` is the pending
settlement intent. -/
structure Reservation where
  ownerId : Int
  day : Day
  (reserved consumed : Amount)
  status : ReservationStatus
  (expiresAt heartbeatAt : Time)
  reconciledAt : Option Time
  deriving DecidableEq, Repr

/-- A row of `agentQuotaDaily`. -/
structure DailyRow where
  ownerId : Int
  day : Day
  (reserved consumed : Amount)
  tokenResetCredit : Nat
  deriving DecidableEq, Repr

def DailyRow.key (row : DailyRow) : Int × Day := (row.ownerId, row.day)

def dailyRow (daily : List DailyRow) (ownerId : Int) (day : Day) : Option DailyRow :=
  Table.get DailyRow.key daily (ownerId, day)

def setDaily (daily : List DailyRow) (row : DailyRow) : List DailyRow :=
  Table.replace DailyRow.key row daily

/-! ## Events -/

inductive UsageEventType
  | planCreated | modelTurn | usageUpdated
  deriving DecidableEq, Repr

/-- `ended` are the events of `terminalEventType`; `presented` are the other types that
a worker appends. -/
inductive EventBody
  | queued
  | messageCompleted (status : AgentMessageStatus)
  | ended (status : AgentTerminalRunStatus)
  | dispatchAccounting (record : AgentDispatchAccountingRecord)
  | usage (type : UsageEventType) (usage : Usage)
  | presented (type : JsString)
  deriving DecidableEq, Repr

structure AgentEvent where
  (sequence attempt : Nat)
  body : EventBody
  createdAt : Time
  deriving DecidableEq, Repr

/-! ## Runs -/

structure Run where
  (id sessionId : Uuid)
  ownerId : Int
  clientRequestId : Uuid
  clientRequestSha256 : JsString
  status : AgentRunStatus
  (attempts maxAttempts eventSequence : Nat)
  availableAt : Time
  leaseOwner : Option JsString
  leaseToken : Option Uuid
  (leaseExpiresAt cancelRequestedAt : Option Time)
  sideEffectsStarted : Bool
  runtimeState : Option RuntimeState
  (inputTokens outputTokens totalTokens : Nat)
  estimatedCostMicros : Option Nat
  (errorCode errorMessage : Option JsString)
  queuedAt : Time
  startedAt : Option Time
  updatedAt : Time
  completedAt : Option Time
  assistantStatus : AgentMessageStatus
  events : List AgentEvent
  reservation : Option Reservation
  deriving DecidableEq, Repr

namespace Run

def isTerminal (run : Run) : Bool :=
  match run.status with
  | .active _ => false
  | .terminal _ => true

/-- `status: 'running'` or `'awaiting_approval'`. -/
def isClaimed (run : Run) : Bool := run.status = .running || run.status = .awaitingApproval

/-- `leaseExpiresAt <= now`, which is false for null. -/
def leaseExpired (run : Run) (now : Time) : Bool :=
  match run.leaseExpiresAt with
  | none => false
  | some expiresAt => expiresAt ≤ now

/-- A continuation checkpoint is stored. -/
def checkpoint (run : Run) : Option AgentApprovalContinuationCheckpoint :=
  run.runtimeState.bind (·.continuation)

/-- The reservation that a query by run and owner finds. -/
def reservationOf (run : Run) (ownerId : Int) : Option Reservation :=
  run.reservation.filter fun reservation => reservation.ownerId = ownerId

/-- The rows that `excludeAgentRunsWithPendingQuotaSettlement` leaves out. -/
def pendingQuotaSettlement (run : Run) : Bool :=
  (run.reservationOf run.ownerId).any fun reservation =>
    reservation.status = .reserved && reservation.reconciledAt.isNone && reservation.consumed.positive

/-- One more event, at the next sequence. -/
def append (run : Run) (attempt : Nat) (body : EventBody) (now : Time) : Run :=
  { run with
    eventSequence := run.eventSequence + 1
    events := run.events ++ [⟨run.eventSequence + 1, attempt, body, now⟩]
    updatedAt := now }

end Run

structure AgentSession where
  id : Uuid
  (ownerId version : Int)
  googleSearchEnabled : Bool
  deletedAt : Option Time
  deriving DecidableEq, Repr

structure Database where
  users : List Int
  sessions : List AgentSession
  runs : List Run
  daily : List DailyRow
  proposals : List ProposalRow
  approvals : List ApprovalRow
  deriving DecidableEq, Repr

namespace Database

def run (db : Database) (id : Uuid) : Option Run := Table.get Run.id db.runs id

/-- The run of an owner, as a query by id and owner finds it. -/
def ownedRun (db : Database) (ownerId : Int) (id : Uuid) : Option Run :=
  (db.run id).filter fun run => run.ownerId = ownerId

/-- The tables after a row of `agentRuns` and the daily quotas have been written. -/
def put (db : Database) (run : Run) (daily : List DailyRow) : Database :=
  { db with runs := Table.replace Run.id run db.runs, daily }

/-- `UPDATE "agentRuns" … WHERE id = …` with a further condition; `none` where it changes
no row. -/
def updateRun (db : Database) (id : Uuid) (cond : Run → Bool) (set : Run → Run) :
    Option Database :=
  match db.run id with
  | none => none
  | some run => if cond run then some (db.put (set run) db.daily) else none

end Database

end TsEpistle.Agents
