import TsEpistle.Library.Machine
import TsEpistle.Agents.Maintenance

/-! Any number of workers, users and maintenance processes on the runs of an
installation. The advisory lock of the coordinator is held by at most one transaction;
a claim and a deletion of sessions run under it in several statements, each on the
database as it is then, and every other transaction is one operation. A row that a claim
has ended stays locked until it commits. Leases may name any token, and nothing orders
the clock readings. `log` records what happened and `clock` what time it is; no
statement reads them. -/

namespace TsEpistle.Agents
open Library

/-- The transaction that holds the advisory lock between two of its statements. -/
inductive Holder
  | claim (transaction : ClaimTransaction)
  | tombstone (ownerId : Int) (sessionIds : List Uuid) (now : Time)
  deriving DecidableEq, Repr

inductive LogEntry
  | granted (runId : Uuid) (attempts : Nat) (leaseToken : Uuid)
  | fenced (runId : Uuid) (attempts : Nat) (leaseToken : Uuid)
  | reported (runId leaseToken : Uuid) (status : AgentTerminalRunStatus)
  | intended (runId : Uuid) (consumed : Amount)
  deriving DecidableEq, Repr

/-- `heartbeats` are those that have moved a lease and not yet its reservation, with the
new expiry and the time; `expired` the reservations that maintenance has selected, with
their owners and the time. -/
structure State where
  db : Database
  holder : Option Holder
  heartbeats : List (Uuid × Time × Time)
  expired : List (Uuid × Int × Time)
  log : List LogEntry
  clock : Time
  deriving DecidableEq, Repr

inductive Op
  | admitRun (input : AdmitAgentRunInput)
  | beginClaim (options : ClaimAgentRunOptions)
  | selectCandidates (rows : List Run)
  | claimNext (leaseToken : Uuid)
  | heartbeat (lease : AgentRunLease) (leaseMilliseconds : Int) (now : Time)
  | heartbeatReservation (runId : Uuid) (expiresAt now : Time)
  | transition (input : TransitionAgentRunInput)
  | resumeApproval (lease : AgentRunLease) (now : Time)
  | markSideEffectsStarted (lease : AgentRunLease) (now : Time)
  | requestCancellation (ownerId : Int) (runId : Uuid) (now : Time)
  | terminalize (lease : AgentRunLease) (status : AgentTerminalRunStatus)
      (assistant : Option AgentMessageStatus) (quota : Option TerminalizeQuota)
      (runPatch : TerminalizeAgentRunPatch) (errorCode errorMessage : Option JsString) (now : Time)
  | ensureQuota (runId : Uuid) (ownerId : Int) (target : AgentQuotaRequest)
      (limits : AgentQuotaLimits) (expiresAt now : Time)
  | persistIntent (input : PersistSettlementIntentInput)
  | persistDispatch (lease : AgentRunLease) (record : AgentDispatchAccountingRecord) (now : Time)
  | appendPresentation (lease : AgentRunLease) (event : PresentationEvent) (now : Time)
  | resetDailyTokenQuota (ownerId : Int) (now : Time)
  | persistContinuation (input : PersistAgentApprovalContinuationInput) (now : Time)
  | clearContinuation (lease : AgentRunLease) (now : Time)
  | createProposal (proposal : ProposalRow) (approval : ApprovalRow)
  | recoverRuns (candidates : List Uuid) (now : Time)
  | tombstone (ownerId : Int) (sessionIds : List Uuid) (now : Time)
  | finishTombstone
  | selectExpired (runId : Uuid) (now : Time)
  | releaseExpired (runId : Uuid) (ownerId : Int) (now : Time)
  | tick (time : Time)
  deriving DecidableEq, Repr

/-- The database at the start: users and sessions, and no runs. -/
def Database.initial (users : List Int) (sessions : List AgentSession) : Database where
  users := users
  sessions := sessions
  runs := []
  daily := []
  proposals := []
  approvals := []

def State.initial (users : List Int) (sessions : List AgentSession) (clock : Time) : State :=
  ⟨.initial users sessions, none, [], [], [], clock⟩

/-! ## Locks -/

/-- The operation needs the advisory lock. -/
def Op.takesLock : Op → Bool
  | .admitRun _ | .beginClaim _ | .requestCancellation .. | .terminalize .. | .ensureQuota ..
  | .persistIntent _ | .resetDailyTokenQuota .. | .recoverRuns .. | .tombstone ..
  | .releaseExpired .. => true
  | .transition input =>
    match input.target with
    | .terminal _ => true
    | .active _ => false
  | _ => false

/-- The run that an operation without the advisory lock writes. -/
def Op.row : Op → Option Uuid
  | .heartbeat lease .. => some lease.id
  | .heartbeatReservation runId .. => some runId
  | .transition input => some input.lease.id
  | .resumeApproval lease _ => some lease.id
  | .markSideEffectsStarted lease _ => some lease.id
  | .persistDispatch lease .. => some lease.id
  | .appendPresentation lease .. => some lease.id
  | .persistContinuation input _ => some input.runId
  | .clearContinuation lease _ => some lease.id
  | _ => none

namespace State

def claim (s : State) : Option ClaimTransaction :=
  match s.holder with
  | some (.claim transaction) => some transaction
  | _ => none

/-- A claim in progress has ended the run. -/
def locked (s : State) (id : Uuid) : Bool :=
  s.claim.any fun transaction => transaction.ended.any fun input => input.runId = id

end State

/-- `rows` is an order in which the select under the lock may answer. -/
def answersSelect (s : State) (rows : List Run) : Prop :=
  match s.claim with
  | none => False
  | some claim =>
    claim.candidates = none
      ∧ rows.Perm (s.db.runs.filter (candidateQuery claim.options claim.active))
      ∧ rows.Pairwise claimOrder

instance (s : State) (rows : List Run) : Decidable (answersSelect s rows) := by
  unfold answersSelect
  split <;> infer_instance

/-- What an operation presupposes of the statements before it. -/
def Op.follows (op : Op) (s : State) : Prop :=
  match op with
  | .selectCandidates rows => answersSelect s rows
  | .claimNext _ => (s.claim.bind (·.candidates)).isSome = true
  | .heartbeatReservation runId expiresAt now => (runId, expiresAt, now) ∈ s.heartbeats
  | .recoverRuns candidates _ => candidates.Nodup
  | .releaseExpired runId ownerId now => (runId, ownerId, now) ∈ s.expired
  | _ => True

instance (op : Op) (s : State) : Decidable (op.follows s) := by
  unfold Op.follows
  split <;> infer_instance

/-! ## Steps -/

section
variable (codec : Codec)

/-- The operations that are one transaction or statement. -/
def transaction (db : Database) : Op → Except AgentRepositoryError Database
  | .admitRun input => admitAgentRun db input
  | .transition input => transitionAgentRun db input
  | .resumeApproval lease now => resumeApproval db lease now
  | .markSideEffectsStarted lease now => markAgentRunSideEffectsStarted db lease now
  | .requestCancellation ownerId runId now => requestAgentRunCancellation db ownerId runId now
  | .terminalize lease status assistant quota runPatch errorCode errorMessage now =>
    terminalizeAgentRunInTransaction db (workerOutcome lease [.running, .awaitingApproval]
      status assistant quota runPatch errorCode errorMessage now)
  | .ensureQuota runId ownerId target limits expiresAt now =>
    match db.run runId with
    | none => refuse "QUOTA_RESERVATION_NOT_FOUND" "Agent quota reservation was not found" 404
    | some run => do
        let (run, daily) ←
          ensureAgentRunQuota run db.daily ownerId target limits expiresAt now
        return db.put run daily
  | .persistIntent input => do
      let run ← persistSettlementIntent db input
      return run.elim db fun run => db.put run db.daily
  | .persistDispatch lease record now => do
      let run ← persistDispatch db lease record now
      return db.put run db.daily
  | .appendPresentation lease event now => appendPresentationEvent db lease event now
  | .resetDailyTokenQuota ownerId now => do
      let daily ← resetAgentDailyTokenQuota db.users db.daily ownerId now
      return { db with daily }
  | .persistContinuation input now => do
      let run ← persistAgentApprovalContinuation codec db input now
      return db.put run db.daily
  | .clearContinuation lease now => do
      let run ← clearAgentApprovalContinuation codec db lease now
      return run.elim db fun run => db.put run db.daily
  | .createProposal proposal approval => .ok { db with
      proposals := db.proposals ++ [proposal], approvals := db.approvals ++ [approval] }
  | .recoverRuns candidates now => recoverRuns db candidates now
  | .releaseExpired runId ownerId now => releaseExpiredReservation db runId ownerId now
  | _ => .ok db

/-- What the log says of a transaction that succeeded. -/
def entry (db : Database) : Op → Option LogEntry
  | .markSideEffectsStarted lease _ =>
    (db.run lease.id).map fun run => .fenced lease.id run.attempts lease.leaseToken
  | .terminalize lease status .. => some (.reported lease.id lease.leaseToken status)
  | .transition input =>
    match input.target with
    | .terminal status => some (.reported input.lease.id input.lease.leaseToken status)
    | .active _ => none
  | .persistIntent input => some
      (.intended input.runId ⟨input.consumed.tokens.toNat, input.consumed.costMicros.toNat⟩)
  | _ => none

/-- The round of a claim; where it throws its transaction rolls back. -/
def claimStep (s : State) (claim : ClaimTransaction) (leaseToken : Uuid) : State :=
  match claimRound codec s.db claim leaseToken with
  | .error _ => { s with holder := none }
  | .ok (.next claim) => { s with holder := some (.claim claim) }
  | .ok (.ended db) => { s with db, holder := none }
  | .ok (.granted db candidate reclaimingContinuation) => { s with
      db, holder := none
      log := .granted candidate.id (grantedAttempts candidate reclaimingContinuation) leaseToken
        :: s.log }

def exec (op : Op) (s : State) : State :=
  match op with
  | .beginClaim options =>
    match beginClaim s.db options with
    | none => s
    | some claim => { s with holder := some (.claim claim) }
  | .selectCandidates rows =>
    match s.claim with
    | none => s
    | some claim =>
      { s with holder := some (.claim { claim with candidates := some (rows.take claimLimit) }) }
  | .claimNext leaseToken =>
    match s.claim with
    | none => s
    | some claim => claimStep codec s claim leaseToken
  | .heartbeat lease leaseMilliseconds now =>
    let expiresAt := now + leaseMilliseconds
    match heartbeatAgentRun s.db lease expiresAt now with
    | none => s
    | some db => { s with db, heartbeats := (lease.id, expiresAt, now) :: s.heartbeats }
  | .heartbeatReservation runId expiresAt now => { s with
      db := (heartbeatReservation s.db runId expiresAt now).getD s.db
      heartbeats := s.heartbeats.erase (runId, expiresAt, now) }
  | .tombstone ownerId sessionIds now =>
    match tombstoneWaiting s.db ownerId sessionIds now with
    | .error _ => s
    | .ok db => { s with db, holder := some (.tombstone ownerId sessionIds now) }
  | .finishTombstone =>
    match s.holder with
    | some (.tombstone ownerId sessionIds now) =>
      { s with db := tombstoneRunning s.db ownerId sessionIds now, holder := none }
    | _ => s
  | .selectExpired runId now =>
    match (s.db.run runId).filter fun run => expiredReservation run now with
    | none => s
    | some run => { s with
        expired := (run.reservation.map fun r => (runId, r.ownerId, now)).toList ++ s.expired }
  | .tick time => { s with clock := max s.clock time }
  | op =>
    match transaction codec s.db op with
    | .error _ => s
    | .ok db => { s with db, log := (entry s.db op).toList ++ s.log }

def coordinator : Machine State Op where
  enabled op s := (op.takesLock = true → s.holder = none) ∧ (∀ id ∈ op.row, s.locked id = false) ∧ op.follows s
  exec := exec codec

instance (op : Op) (s : State) : Decidable ((coordinator codec).enabled op s) := by
  unfold coordinator
  infer_instance

end

end TsEpistle.Agents
