import TsEpistle.Agents.Coordinator

/-! What maintenance does to runs (`server/agents/maintenance.ts`): the recovery of
expired and cancelled runs, the deletion of sessions, and the release of expired quota
reservations. -/

namespace TsEpistle.Agents
open Library

/-! ## Recovery -/

/-- The condition of `candidateQuery` in `recoverRuns`, with the exclusion of pending
settlements. -/
def Run.recoverable (run : Run) (now : Time) : Bool :=
  ((run.cancelRequestedAt.isSome && !run.isTerminal
        && (run.status = .queued || run.leaseExpiresAt.isNone || run.leaseExpired now))
      || (run.isClaimed && run.leaseExpired now))
    && !run.pendingQuotaSettlement

def requeuedRun (now : Time) (run : Run) : Run :=
  { run with
    status := .queued, availableAt := now, updatedAt := now
    leaseOwner := none, leaseToken := none, leaseExpiresAt := none }

/-- A run that awaits an approval keeps its status and can be claimed at once. -/
def unleasedRun (now : Time) (run : Run) : Run :=
  { run with leaseOwner := none, leaseToken := none, leaseExpiresAt := some now, updatedAt := now }

/-- The fence of the two updates. -/
def recoveryFence (row : Run) (status : AgentRunStatus) (run : Run) : Bool :=
  run.status = status && run.eventSequence = row.eventSequence && run.leaseToken = row.leaseToken

/-- The body of the loop in `recoverRuns`, for a row of the locked select. -/
def recoverRun (now : Time) (db : Database) (row : Run) : Except AgentRepositoryError Database := do
  let pendingIntent ← match db.run row.id with
    | none => .ok none
    | some run => readSettlementIntent run row.ownerId
  if positiveSettlement pendingIntent then return db
  else if row.cancelRequestedAt.isSome then
    terminalizeAgentRunInTransaction db (abandon row .cancelled none none none now)
  else if row.sideEffectsStarted then
    terminalizeAgentRunInTransaction db (lostSideEffect row now)
  else if row.status = .running then
    return (db.updateRun row.id (recoveryFence row .running) (requeuedRun now)).getD db
  else
    return (db.updateRun row.id (recoveryFence row .awaitingApproval) (unleasedRun now)).getD db

/-- `candidates` are the ids that the select before the lock answered; the locked select
asks for them again. -/
def recoverRuns (db : Database) (candidates : List Uuid) (now : Time) :
    Except AgentRepositoryError Database :=
  let rows := (candidates.filterMap db.run).filter fun run => run.recoverable now
  rows.foldlM (recoverRun now) db

/-! ## Deleted sessions -/

/-- The loop of `tombstoneOwnedSessions` over the queued and waiting runs. -/
def cancelTombstoned (now : Time) (db : Database) (row : Run) :
    Except AgentRepositoryError Database := do
  let pendingIntent ← match db.run row.id with
    | none => .ok none
    | some run => readSettlementIntent run row.ownerId
  if positiveSettlement pendingIntent then return db
  else terminalizeAgentRunInTransaction db (abandon row .cancelled none none (some now) now)

def ofSessions (ownerId : Int) (sessionIds : List Uuid) (run : Run) : Bool :=
  run.ownerId = ownerId && sessionIds.contains run.sessionId

/-- `tombstoneOwnedSessions` up to its loop. -/
def tombstoneWaiting (db : Database) (ownerId : Int) (sessionIds : List Uuid) (now : Time) :
    Except AgentRepositoryError Database :=
  let rows := db.runs.filter fun run =>
    ofSessions ownerId sessionIds run && (run.status = .queued || run.status = .awaitingApproval)
  rows.foldlM (cancelTombstoned now) db

/-- The update of the running runs, and of the sessions. -/
def tombstoneRunning (db : Database) (ownerId : Int) (sessionIds : List Uuid) (now : Time) :
    Database :=
  { db with
    runs := Table.updateWhere
      (fun run => ofSessions ownerId sessionIds run && run.status = .running)
      (fun run => { run with cancelRequestedAt := some now, updatedAt := now }) db.runs
    sessions := Table.updateWhere
      (fun session => session.ownerId = ownerId && sessionIds.contains session.id && session.deletedAt.isNone)
      (fun session => { session with deletedAt := some now, version := session.version + 1 })
      db.sessions }

/-! ## Expired reservations -/

/-- The condition of the select in `reconcileExpiredReservations`. -/
def expiredReservation (run : Run) (now : Time) : Bool :=
  run.reservation.any fun reservation =>
    reservation.status = .reserved && !reservation.consumed.positive && reservation.expiresAt ≤ now

/-- One round of its loop: the release of a row it has selected. -/
def releaseExpiredReservation (db : Database) (runId : Uuid) (ownerId : Int) (now : Time) :
    Except AgentRepositoryError Database :=
  match db.run runId with
  | none => refuse "QUOTA_RESERVATION_NOT_FOUND" "Agent quota reservation was not found" 404
  | some run => do
      let pendingIntent ← readSettlementIntent run ownerId
      if positiveSettlement pendingIntent then return db
      else
        let (run, daily) ←
          reconcileAgentRunQuota run db.daily ownerId .zero .released now ⟨false, false⟩
        return db.put run daily

end TsEpistle.Agents
