import TsEpistle.Agents.Runs

/-! Quota reservations and the end of a run (`server/agents/coordinator.ts`). The
functions work on a run that their transaction holds locked, with the daily quotas, so
their updates of these rows find them. A daily sum is compared with a limit that is a
safe integer, where the rounding of the numbers makes no difference. -/

namespace TsEpistle.Agents
open Library

/-! ## Numbers -/

def nonNegativeInteger (value : Int) (name : String) : Except AgentRepositoryError Nat :=
  if 0 ≤ value ∧ value ≤ maxSafeInteger then .ok value.toNat
  else refuse "INVALID_AGENT_QUOTA" (name ++ " must be a non-negative safe integer") 400

def quotaCorruption {α : Type} (message : String) : Except AgentRepositoryError α :=
  refuse "AGENT_QUOTA_CORRUPT" message 500

/-- `AgentQuotaSettlementError`. -/
def settlementError {α : Type} (message : String) : Except AgentRepositoryError α :=
  refuse "AGENT_QUOTA_SETTLEMENT_REQUIRED" message 500

def storedQuotaInteger (value : Nat) (name : String) : Except AgentRepositoryError Nat :=
  if value ≤ maxSafeInteger then .ok value else quotaCorruption (name ++ " is invalid")

def storedQuotaSum (left right : Nat) (name : String) : Except AgentRepositoryError Nat :=
  if left + right ≤ maxSafeInteger then .ok (left + right)
  else quotaCorruption (name ++ " exceeds the supported range")

def storedQuotaDifference (left right : Nat) (name : String) : Except AgentRepositoryError Nat :=
  if right ≤ left then .ok (left - right) else quotaCorruption (name ++ " is inconsistent")

/-- Both stored numbers of an amount, read as `Stored … tokens` and `Stored … cost`. -/
def storedAmount (amount : Amount) (name : String) : Except AgentRepositoryError Amount := do
  let tokens ← storedQuotaInteger amount.tokens ("Stored " ++ name ++ " tokens")
  let costMicros ← storedQuotaInteger amount.costMicros ("Stored " ++ name ++ " cost")
  return ⟨tokens, costMicros⟩

structure AgentQuotaRequest where
  (tokens costMicros : Int)
  deriving DecidableEq, Repr

structure AgentQuotaLimits where
  (dailyTokens dailyCostMicros : Int)
  deriving DecidableEq, Repr

/-- The four checks at the start of a reservation. -/
def checkedRequest (request : AgentQuotaRequest) (limits : AgentQuotaLimits)
    (tokensName costName : String) : Except AgentRepositoryError (Amount × Amount) := do
  let tokens ← nonNegativeInteger request.tokens tokensName
  let costMicros ← nonNegativeInteger request.costMicros costName
  let tokenLimit ← nonNegativeInteger limits.dailyTokens "Daily token limit"
  let costLimit ← nonNegativeInteger limits.dailyCostMicros "Daily cost limit"
  return (⟨tokens, costMicros⟩, ⟨tokenLimit, costLimit⟩)

/-! ## Reservations -/

/-- `additional` fits under the limits of the day and is added to its reserved columns. -/
def reserveDaily (daily : List DailyRow) (row : DailyRow) (additional limit : Amount) :
    Except AgentRepositoryError (List DailyRow) := do
  let credit ← storedQuotaInteger row.tokenResetCredit "Stored token reset credit"
  let effectiveTokenLimit ← storedQuotaSum limit.tokens credit "Effective daily token limit"
  check
    (row.reserved.tokens + row.consumed.tokens + additional.tokens ≤ effectiveTokenLimit
      && row.reserved.costMicros + row.consumed.costMicros + additional.costMicros ≤ limit.costMicros)
    "AGENT_QUOTA_EXHAUSTED" "Agent daily quota is exhausted" 429
  return setDaily daily { row with
    reserved := ⟨row.reserved.tokens + additional.tokens, row.reserved.costMicros + additional.costMicros⟩ }

/-- The insert that does nothing where the owner has a row for the day. -/
def insertDaily (daily : List DailyRow) (ownerId : Int) (day : Day) : List DailyRow :=
  match dailyRow daily ownerId day with
  | some _ => daily
  | none => daily ++ [⟨ownerId, day, .zero, .zero, 0⟩]

/-- `reserveQuotaInTransaction`; `existing` is the reservation stored for the run. -/
def reserveQuota (existing : Option Reservation) (daily : List DailyRow) (ownerId : Int)
    (request : AgentQuotaRequest) (limits : AgentQuotaLimits) (now expiresAt : Time) :
    Except AgentRepositoryError (Reservation × List DailyRow) := do
  let (amount, limit) ← checkedRequest request limits "Reserved tokens" "Reserved cost"
  match existing with
  | some reservation =>
    check (reservation.ownerId = ownerId && reservation.reserved = amount)
      "QUOTA_RESERVATION_MISMATCH" "Run quota reservation does not match its retry" 409
    return (reservation, daily)
  | none =>
    let day := dayKey now
    let daily := insertDaily daily ownerId day
    match dailyRow daily ownerId day with
    | none => quotaCorruption "Agent daily quota row is missing"
    | some row =>
      let daily ← reserveDaily daily row amount limit
      return (⟨ownerId, day, amount, .zero, .reserved, expiresAt, now, none⟩, daily)

/-- What `ensureAgentRunQuota` asks of the reservation it raises. -/
def raisable (reservation : Reservation) : Except AgentRepositoryError Amount := do
  check (reservation.status = .reserved)
    "QUOTA_RESERVATION_RECONCILED" "Agent quota reservation is no longer active" 409
  let pending ← storedAmount reservation.consumed "consumed"
  if reservation.reconciledAt.isSome || pending.positive then
    settlementError "Agent quota reservation has pending settlement"
  else storedAmount reservation.reserved "reserved"

def ensureAgentRunQuota (run : Run) (daily : List DailyRow) (ownerId : Int)
    (target : AgentQuotaRequest) (limits : AgentQuotaLimits) (expiresAt now : Time) :
    Except AgentRepositoryError (Run × List DailyRow) := do
  let (target, limit) ←
    checkedRequest target limits "Reserved token target" "Reserved cost target"
  match run.reservationOf ownerId with
  | none => refuse "QUOTA_RESERVATION_NOT_FOUND" "Agent quota reservation was not found" 404
  | some reservation =>
    let reserved ← raisable reservation
    let additional : Amount := ⟨target.tokens - reserved.tokens, target.costMicros - reserved.costMicros⟩
    if !additional.positive then return (run, daily)
    else
      match dailyRow daily ownerId reservation.day with
      | none => quotaCorruption "Agent daily quota row is missing"
      | some row =>
        let daily ← reserveDaily daily row additional limit
        let raised := { reservation with
          reserved := ⟨reserved.tokens + additional.tokens, reserved.costMicros + additional.costMicros⟩
          expiresAt := Max.max reservation.expiresAt expiresAt
          heartbeatAt := now }
        return ({ run with reservation := some raised }, daily)

/-- `resetAgentDailyTokenQuota`. -/
def resetAgentDailyTokenQuota (users : List Int) (daily : List DailyRow) (ownerId : Int)
    (now : Time) : Except AgentRepositoryError (List DailyRow) := do
  check (1 ≤ ownerId && ownerId ≤ maxSafeInteger)
    "INVALID_AGENT_QUOTA" "Owner ID must be a positive safe integer" 400
  check (users.contains ownerId) "AGENT_RESOURCE_NOT_FOUND" "Quota owner was not found" 404
  match dailyRow daily ownerId (dayKey now) with
  | none => return daily
  | some row =>
    let previousCredit ← storedQuotaInteger row.tokenResetCredit "Stored token reset credit"
    let consumedTokens ← storedQuotaInteger row.consumed.tokens "Stored consumed tokens"
    let _ ← storedQuotaInteger row.reserved.tokens "Stored reserved tokens"
    let _ ← storedQuotaInteger row.consumed.costMicros "Stored consumed cost"
    let _ ← storedQuotaInteger row.reserved.costMicros "Stored reserved cost"
    if previousCredit = consumedTokens then return daily
    else return setDaily daily { row with tokenResetCredit := consumedTokens }

/-! ## Settlement intents -/

/-- `readAgentRunQuotaSettlementIntent`. -/
def readSettlementIntent (run : Run) (ownerId : Int) :
    Except AgentRepositoryError (Option Amount) :=
  match run.reservationOf ownerId with
  | none => .ok none
  | some reservation => do
      let consumed ← storedAmount reservation.consumed "consumed"
      if reservation.status ≠ .reserved || reservation.reconciledAt.isSome then return none
      else return some consumed

/-- `positiveQuotaSettlement`. -/
def positiveSettlement (intent : Option Amount) : Bool := intent.any (·.positive)

/-- `TerminalizeAgentRunExpected`. A field that is `none` is not in the object. -/
structure TerminalizeAgentRunExpected where
  statuses : List ActiveStatus
  eventSequence : Option Nat
  leaseOwner : Option (Option JsString)
  leaseToken : Option (Option Uuid)
  deriving DecidableEq, Repr

/-- `key in expected && row[key] !== expected[key]` does not hold. -/
def matchesExpected {α : Type} [DecidableEq α] (expected : Option α) (value : α) : Bool :=
  match expected with
  | none => true
  | some expected => value = expected

structure PersistSettlementIntentInput where
  runId : Uuid
  ownerId : Int
  consumed : AgentQuotaRequest
  expected : Option TerminalizeAgentRunExpected
  now : Time
  deriving DecidableEq, Repr

/-- `persistAgentRunQuotaSettlementIntent` after its checks of the amounts, on the run that
it has locked; `some` with the new row where it writes one. -/
def intendedRun (run : Run) (input : PersistSettlementIntentInput) (consumed : Amount)
    (expected : TerminalizeAgentRunExpected) : Except AgentRepositoryError (Option Run) := do
  check (matchesExpected expected.eventSequence run.eventSequence) "RUN_EVENT_FENCE_CHANGED"
    "Agent run event fence changed before quota settlement intent" 409
  check (matchesExpected expected.leaseOwner run.leaseOwner
      && matchesExpected expected.leaseToken run.leaseToken) "RUN_LEASE_LOST"
    "Agent run lease was lost before quota settlement intent" 409
  match run.reservationOf input.ownerId with
  | none => refuse "QUOTA_RESERVATION_NOT_FOUND" "Agent quota reservation was not found" 404
  | some reservation =>
    let existing ← storedAmount reservation.consumed "consumed"
    if reservation.status ≠ .reserved || reservation.reconciledAt.isSome then
      settlementError "Agent quota reservation is no longer pending settlement"
    else
      let next := existing.max consumed
      if next = existing then return none
      else
        let intended := { reservation with consumed := next, heartbeatAt := input.now }
        return some { run with reservation := some intended }

def persistSettlementIntent (db : Database) (input : PersistSettlementIntentInput) :
    Except AgentRepositoryError (Option Run) := do
  let tokens ← nonNegativeInteger input.consumed.tokens "Pending consumed tokens"
  let costMicros ← nonNegativeInteger input.consumed.costMicros "Pending consumed cost"
  if tokens = 0 ∧ costMicros = 0 then return none
  else
    match input.expected with
    | none =>
      refuse "RUN_LEASE_LOST"
        "An active lease fence is required before quota settlement intent" 409
    | some expected =>
      check (expected.leaseOwner.isSome && expected.leaseToken.isSome) "RUN_LEASE_LOST"
        "An active lease fence is required before quota settlement intent" 409
      match (db.ownedRun input.ownerId input.runId).filter
          fun run => expected.statuses.any fun status => run.status = .active status with
      | none =>
        refuse "RUN_LEASE_LOST" "Agent run lease was lost before quota settlement intent" 409
      | some run => intendedRun run input ⟨tokens, costMicros⟩ expected

/-! ## Reconciliation -/

structure ReconcileAgentQuotaOptions where
  (allowMissing acceptAnyReconciled : Bool)
  deriving DecidableEq, Repr

/-- What the daily row becomes when `reserved` is given back and `consumed` charged. -/
def settledDaily (daily : List DailyRow) (ownerId : Int) (day : Day) (reserved consumed : Amount) :
    Except AgentRepositoryError (List DailyRow) :=
  match dailyRow daily ownerId day with
  | none => quotaCorruption "Agent daily quota row is missing"
  | some row => do
      let dailyReservedTokens ←
        storedQuotaInteger row.reserved.tokens "Stored daily reserved tokens"
      let dailyConsumedTokens ←
        storedQuotaInteger row.consumed.tokens "Stored daily consumed tokens"
      let dailyReservedCost ←
        storedQuotaInteger row.reserved.costMicros "Stored daily reserved cost"
      let dailyConsumedCost ←
        storedQuotaInteger row.consumed.costMicros "Stored daily consumed cost"
      check (reserved.tokens ≤ dailyReservedTokens && reserved.costMicros ≤ dailyReservedCost)
        "AGENT_QUOTA_CORRUPT" "Agent daily quota counters are inconsistent" 500
      let reservedTokens ←
        storedQuotaDifference dailyReservedTokens reserved.tokens "Daily reserved tokens"
      let consumedTokens ←
        storedQuotaSum dailyConsumedTokens consumed.tokens "Daily consumed tokens"
      let reservedCost ←
        storedQuotaDifference dailyReservedCost reserved.costMicros "Daily reserved cost"
      let consumedCost ←
        storedQuotaSum dailyConsumedCost consumed.costMicros "Daily consumed cost"
      return setDaily daily { row with
        reserved := ⟨reservedTokens, reservedCost⟩, consumed := ⟨consumedTokens, consumedCost⟩ }

/-- The refusals of a settlement of a pending reservation with the intent `intent`. -/
def checkSettlement (intent consumed : Amount) (status : SettledStatus) :
    Except AgentRepositoryError Unit :=
  if status = .released && consumed.positive then
    refuse "INVALID_AGENT_QUOTA" "Released quota cannot record consumption" 400
  else if status = .released && intent.positive then
    settlementError "Pending quota settlement cannot be released"
  else if consumed.tokens < intent.tokens || consumed.costMicros < intent.costMicros then
    settlementError "Final quota settlement is below its durable pending usage"
  else .ok ()

def Reservation.settle (reservation : Reservation) (consumed : Amount) (status : SettledStatus)
    (now : Time) : Reservation :=
  { reservation with
    status := .settled status, consumed, reconciledAt := some now, heartbeatAt := now }

/-- `reconcileAgentRunQuotaInTransaction`. -/
def reconcileAgentRunQuota (run : Run) (daily : List DailyRow) (ownerId : Int) (consumed : Amount)
    (status : SettledStatus) (now : Time) (options : ReconcileAgentQuotaOptions) :
    Except AgentRepositoryError (Run × List DailyRow) := do
  let _ ← nonNegativeInteger consumed.tokens "Consumed tokens"
  let _ ← nonNegativeInteger consumed.costMicros "Consumed cost"
  match run.reservationOf ownerId with
  | none =>
    if options.allowMissing then return (run, daily)
    else refuse "QUOTA_RESERVATION_NOT_FOUND" "Agent quota reservation was not found" 404
  | some reservation =>
    let reserved ← storedAmount reservation.reserved "reserved"
    let reconciled ← storedAmount reservation.consumed "consumed"
    if reservation.status = .settled .released && reconciled.positive then
      quotaCorruption "Released quota reservation contains consumption"
    else
      match reservation.status with
      | .settled settled =>
        if options.acceptAnyReconciled || (settled = status && reconciled = consumed) then
          return (run, daily)
        else
          refuse "QUOTA_RESERVATION_RECONCILED"
            "Agent quota reservation was already reconciled differently" 409
      | .reserved =>
        if reservation.reconciledAt.isSome then
          settlementError "Agent quota reservation has an invalid settlement boundary"
        else
          checkSettlement reconciled consumed status
          match settledDaily daily ownerId reservation.day reserved consumed with
          | .ok daily =>
            return ({ run with reservation := some (reservation.settle consumed status now) }, daily)
          | .error error =>
            if reconciled.positive then
              settlementError "Agent quota settlement requires repair before final accounting"
            else .error error

/-! ## The usage a run has recorded -/

def dispatchRecords (events : List AgentEvent) : List AgentDispatchAccountingRecord :=
  events.filterMap fun event =>
    match event.body with
    | .dispatchAccounting record => some record
    | _ => none

def usageEvents (events : List AgentEvent) : List (UsageEventType × Usage) :=
  events.filterMap fun event =>
    match event.body with
    | .usage type usage => some (type, usage)
    | _ => none

def eventCorrupt {α : Type} : Except AgentRepositoryError α :=
  refuse "AGENT_EVENT_CORRUPT" "Stored agent usage event usage is invalid" 500

/-- One round of the loop over the usage events. -/
def addUsageEvent (total : Usage) (event : UsageEventType × Usage) :
    Except AgentRepositoryError Usage :=
  if !event.2.consistent then eventCorrupt
  else if event.1 = .usageUpdated then .ok event.2
  else do
    let inputTokens ←
      storedQuotaSum total.inputTokens event.2.inputTokens "Persisted input token usage"
    let outputTokens ←
      storedQuotaSum total.outputTokens event.2.outputTokens "Persisted output token usage"
    let totalTokens ← storedQuotaSum total.totalTokens event.2.totalTokens "Persisted token usage"
    let costMicros ← storedQuotaSum total.costMicros event.2.costMicros "Persisted cost usage"
    return ⟨inputTokens, outputTokens, totalTokens, costMicros⟩

/-- `persistedAgentRunUsage`: the dispatch journal where there is one, else the usage
events. -/
def persistedAgentRunUsage (events : List AgentEvent) :
    Except AgentRepositoryError (Option AgentDispatchAccountingState) := do
  match ← readAgentDispatchAccounting (dispatchRecords events) with
  | some journal => return some journal
  | none =>
    if (usageEvents events).isEmpty then return none
    else
      let usage ← (usageEvents events).foldlM addUsageEvent .zero
      return some ⟨usage, .zero⟩

/-- Persisted usage and unresolved exposure, as they are charged. -/
def persistedCharge (usage : Option AgentDispatchAccountingState) :
    Except AgentRepositoryError Amount := do
  let state := usage.getD ⟨.zero, .zero⟩
  let tokens ←
    storedQuotaSum state.usage.totalTokens state.exposure.tokens "Persisted dispatch tokens"
  let costMicros ←
    storedQuotaSum state.usage.costMicros state.exposure.costMicros "Persisted dispatch cost"
  return ⟨tokens, costMicros⟩

/-! ## The end of a run -/

def terminalMessageStatus (status : AgentTerminalRunStatus) (current : AgentMessageStatus) :
    AgentMessageStatus :=
  if status = .cancelled then .cancelled
  else if status = .failed || status = .recoveryRequired then .failed
  else if status = .partialRun && current ≠ .complete then .failed
  else .complete

def assertTerminalMessageStatus (runStatus : AgentTerminalRunStatus)
    (messageStatus : AgentMessageStatus) : Except AgentRepositoryError Unit :=
  check
    ((runStatus = .succeeded && messageStatus = .complete)
      || (runStatus = .partialRun && (messageStatus = .complete || messageStatus = .failed))
      || ((runStatus = .failed || runStatus = .recoveryRequired) && messageStatus = .failed)
      || (runStatus = .cancelled && messageStatus = .cancelled))
    "INVALID_TERMINAL_MESSAGE_STATUS"
    "Assistant message status is inconsistent with the terminal run" 400

/-- A field that is `none` is undefined. -/
structure TerminalizeAgentRunPatch where
  (inputTokens outputTokens totalTokens : Option Int)
  estimatedCostMicros : Option (Option Int)
  deriving DecidableEq, Repr

structure TerminalizeQuota where
  consumed : Amount
  status : SettledStatus
  deriving DecidableEq, Repr

/-- `assistant` is the status of the assistant input. -/
structure TerminalizeAgentRunInput where
  runId : Uuid
  ownerId : Option Int
  expected : Option TerminalizeAgentRunExpected
  status : AgentTerminalRunStatus
  assistant : Option AgentMessageStatus
  quota : Option TerminalizeQuota
  runPatch : TerminalizeAgentRunPatch
  (errorCode errorMessage : Option JsString)
  cancelRequestedAt : Option Time
  now : Time
  deriving DecidableEq, Repr

def TerminalizeAgentRunPatch.none : TerminalizeAgentRunPatch :=
  ⟨Option.none, Option.none, Option.none, Option.none⟩

/-- The status that settles an amount no caller has named a status for. -/
def settledStatusOf (consumed : Amount) : SettledStatus :=
  if consumed.positive then .consumed else .released

/-- A run that has ended already: a settlement intent left pending is settled. -/
def terminalizeAgain (run : Run) (daily : List DailyRow) (current : AgentTerminalRunStatus)
    (input : TerminalizeAgentRunInput) : Except AgentRepositoryError (Run × List DailyRow) := do
  let expectedTerminalOutcome := current = input.status || (current = .cancelled && run.cancelRequestedAt.isSome)
  let leaseMatches := input.expected.all fun expected =>
    matchesExpected expected.leaseOwner run.leaseOwner && matchesExpected expected.leaseToken run.leaseToken
  check (expectedTerminalOutcome || leaseMatches) "RUN_LEASE_LOST" "Agent run lease was lost" 409
  if input.quota.isSome then return (run, daily)
  else
    match ← readSettlementIntent run run.ownerId with
    | none => return (run, daily)
    | some intent =>
      let usage ← persistedAgentRunUsage run.events
      let charge ← persistedCharge usage
      let consumed := charge.max intent
      reconcileAgentRunQuota run daily run.ownerId consumed (settledStatusOf consumed) input.now
        ⟨true, true⟩

/-- The fences of `expected`, in the order of the source. -/
def checkExpected (run : Run) (status : ActiveStatus)
    (expected : Option TerminalizeAgentRunExpected) : Except AgentRepositoryError Unit :=
  match expected with
  | none =>
    refuse "RUN_TERMINAL_FENCE_CHANGED" "Agent run status changed before terminalization" 409
  | some expected => do
      check (expected.statuses.contains status) "RUN_TERMINAL_FENCE_CHANGED"
        "Agent run status changed before terminalization" 409
      check (matchesExpected expected.eventSequence run.eventSequence) "RUN_EVENT_FENCE_CHANGED"
        "Agent run event fence changed concurrently" 409
      check (matchesExpected expected.leaseOwner run.leaseOwner) "RUN_LEASE_LOST"
        "Agent run lease was lost" 409
      check (matchesExpected expected.leaseToken run.leaseToken) "RUN_LEASE_LOST"
        "Agent run lease was lost" 409

/-- A requested cancellation wins over the status that is asked for. -/
def terminalStatus (run : Run) (input : TerminalizeAgentRunInput) : AgentTerminalRunStatus :=
  if run.cancelRequestedAt.isNone then input.status else .cancelled

/-- A usage number of the patch, else the persisted one, else the stored one. -/
def patchedUsage (patch : Option Int) (persisted : Option Nat) (stored : Nat) (name : String) :
    Except AgentRepositoryError Nat :=
  match patch with
  | some value => nonNegativeInteger value name
  | none => .ok (persisted.getD stored)

def patchedCost (patch : Option (Option Int)) (persisted stored : Option Nat) :
    Except AgentRepositoryError (Option Nat) :=
  match patch with
  | some none => .ok none
  | some (some value) => (nonNegativeInteger value "Run estimated cost").map some
  | none => .ok (persisted.or stored)

/-- The row with its last two events, without the patched usage. -/
def endedRun (run : Run) (input : TerminalizeAgentRunInput) (status : AgentTerminalRunStatus)
    (assistantStatus : AgentMessageStatus) : Run :=
  { run with
    status := .terminal status
    eventSequence := run.eventSequence + 2
    events := run.events ++
      [⟨run.eventSequence + 1, run.attempts, .messageCompleted assistantStatus, input.now⟩,
        ⟨run.eventSequence + 2, run.attempts, .ended status, input.now⟩]
    runtimeState := none
    completedAt := some (run.completedAt.getD input.now)
    updatedAt := input.now
    leaseOwner := none
    leaseToken := none
    leaseExpiresAt := none
    assistantStatus
    cancelRequestedAt :=
      if status = .cancelled then
        some ((run.cancelRequestedAt.or input.cancelRequestedAt).getD input.now)
      else run.cancelRequestedAt
    errorCode := if status = input.status then input.errorCode else run.errorCode
    errorMessage := if status = input.status then input.errorMessage else run.errorMessage }

/-- The settlement of the reservation of a run that has just ended. -/
def settleEnded (run : Run) (daily : List DailyRow) (input : TerminalizeAgentRunInput)
    (usage : Option AgentDispatchAccountingState) :
    Except AgentRepositoryError (Run × List DailyRow) := do
  let persistedIntent ←
    if input.quota.isNone then readSettlementIntent run run.ownerId else .ok none
  let charge ← persistedCharge usage
  let persisted := charge.max (persistedIntent.getD .zero)
  let quota := input.quota.getD ⟨persisted, settledStatusOf persisted⟩
  reconcileAgentRunQuota run daily run.ownerId (quota.consumed.max persisted)
    (if persisted.positive then .consumed else quota.status) input.now
    ⟨input.quota.isNone, input.quota.isNone⟩

def terminalizeActive (run : Run) (daily : List DailyRow) (input : TerminalizeAgentRunInput) :
    Except AgentRepositoryError (Run × List DailyRow) := do
  let status := terminalStatus run input
  let assistant := if status = input.status then input.assistant else none
  let assistantStatus := assistant.getD (terminalMessageStatus status run.assistantStatus)
  assertTerminalMessageStatus status assistantStatus
  let ended := endedRun run input status assistantStatus
  let usage ← persistedAgentRunUsage ended.events
  let measured := usage.map (·.usage)
  let inputTokens ← patchedUsage input.runPatch.inputTokens (measured.map (·.inputTokens))
    run.inputTokens "Run input tokens"
  let outputTokens ← patchedUsage input.runPatch.outputTokens (measured.map (·.outputTokens))
    run.outputTokens "Run output tokens"
  let totalTokens ← patchedUsage input.runPatch.totalTokens (measured.map (·.totalTokens))
    run.totalTokens "Run total tokens"
  let estimatedCostMicros ← patchedCost input.runPatch.estimatedCostMicros
    (measured.map (·.costMicros)) run.estimatedCostMicros
  settleEnded { ended with inputTokens, outputTokens, totalTokens, estimatedCostMicros } daily input
    usage

/-- `terminalizeAgentRunInTransaction` on the row it has locked. -/
def terminalizeRun (run : Run) (daily : List DailyRow) (input : TerminalizeAgentRunInput) :
    Except AgentRepositoryError (Run × List DailyRow) :=
  match run.status with
  | .terminal current => terminalizeAgain run daily current input
  | .active status => do
      checkExpected run status input.expected
      terminalizeActive run daily input

def terminalizeAgentRunInTransaction (db : Database) (input : TerminalizeAgentRunInput) :
    Except AgentRepositoryError Database :=
  match (db.run input.runId).filter fun run => matchesExpected input.ownerId run.ownerId with
  | none => refuse "AGENT_RESOURCE_NOT_FOUND" "Agent run was not found" 404
  | some run => do
      let (run, daily) ← terminalizeRun run db.daily input
      return db.put run daily

end TsEpistle.Agents
