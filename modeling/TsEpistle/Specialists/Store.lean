import TsEpistle.Library.Machine
import TsEpistle.Library.Checked
import TsEpistle.Agents.Runs

/-! The specialist contexts of agent sessions (`server/agents/specialists.ts`): each
operation of `AgentSpecialistStore` is one transaction. Times are in milliseconds, and a
row keeps its data decoded beside its columns. -/

namespace TsEpistle.Specialists
open Library Agents

def MAX_CONTEXT_BYTES : Nat := 262144
def MAX_REPORT_BYTES : Nat := 65536

def ROUTING_TASK_CLASSES : List JsString :=
  ["conversation", "retrieval", "writing", "coding", "analysis", "planning"].map js
def ROUTING_COMPLEXITIES : List JsString := ["simple", "moderate", "complex"].map js

inductive Role where
  | user
  | assistant
  deriving DecidableEq, Repr

structure SpecialistHistoryMessage where
  role : Role
  content : JsString
  deriving DecidableEq, Repr

structure SpecialistProviderBinding where
  (profileId profileVersionId : Uuid)
  (model transportKind capabilityRevision : JsString)
  (profilePolicyVersion ownerAuthVersion : Nat)
  deriving DecidableEq, Repr

/-- `state` is kept in its canonical encoding. -/
structure SpecialistContext where
  id : Uuid
  ownerId : Int
  rootSessionId : Uuid
  binding : SpecialistProviderBinding
  (scopeSha256 taskClass complexity : JsString)
  (version turnCount : Nat)
  history : List SpecialistHistoryMessage
  state : Option JsString
  lastReport : JsString
  authoritySha256 : Option JsString
  (expiresAt lastUsedAt : Nat)
  deriving DecidableEq, Repr

inductive InvocationStatus where
  | running
  | completed
  | failed
  deriving DecidableEq, Repr

structure SpecialistInvocationView where
  (id contextId rootRunId profileVersionId : Uuid)
  (model taskClass : JsString)
  status : InvocationStatus
  reused : Bool
  contextVersion : Nat
  (report errorCode : Option JsString)
  startedAt : Nat
  completedAt : Option Nat
  deriving DecidableEq, Repr

structure ContextRow where
  id : Uuid
  ownerId : Int
  rootSessionId : Uuid
  data : SpecialistContext
  scopeSha256 : JsString
  (version turnCount expiresAt lastUsedAt : Nat)
  scrubbedAt : Option Nat
  deriving DecidableEq, Repr

structure InvocationRow where
  id : Uuid
  ownerId : Int
  (rootSessionId rootRunId contextId : Uuid)
  contextVersion : Nat
  status : InvocationStatus
  data : SpecialistInvocationView
  beginSha256 : JsString
  completionSha256 : Option JsString
  rootAttempt : Nat
  rootLeaseOwner : JsString
  rootLeaseToken : Uuid
  (maximumContextBytes expiresAt startedAt : Nat)
  (completedAt scrubbedAt : Option Nat)
  deriving DecidableEq, Repr

/-- The columns of a session and of a run that the store reads. -/
structure RootSession where
  id : Uuid
  ownerId : Int
  deleted : Bool
  expiresAt : Option Nat
  deriving DecidableEq, Repr

structure RootRun where
  id : Uuid
  ownerId : Int
  sessionId : Uuid
  status : AgentRunStatus
  attempts : Nat
  leaseOwner : Option JsString
  leaseToken : Option Uuid
  (leaseExpiresAt cancelRequestedAt : Option Nat)
  deriving DecidableEq, Repr

structure Database where
  sessions : List RootSession
  runs : List RootRun
  contexts : List ContextRow
  invocations : List InvocationRow
  deriving DecidableEq, Repr

structure AgentRunClaim where
  id : Uuid
  ownerId : Int
  sessionId : Uuid
  attempts : Nat
  leaseOwner : JsString
  leaseToken : Uuid
  deriving DecidableEq, Repr

structure BeginSpecialistInvocationInput where
  contextId : Option Uuid
  contextVersion : Option Nat
  binding : SpecialistProviderBinding
  (scopeSha256 taskClass complexity : JsString)
  (maximumContexts maximumContextBytes expiresAt : Nat)
  deriving DecidableEq, Repr

structure CompleteSpecialistInvocationInput where
  history : List SpecialistHistoryMessage
  state : Option JsString
  report : JsString
  authoritySha256 : Option JsString
  (maximumContextBytes maximumReportBytes : Nat)
  deriving DecidableEq, Repr

/-- Canonical JSON and SHA-256: the bytes of an encoding, and the fingerprints of requests. -/
structure Codec where
  contextBytes : SpecialistContext → Nat
  invocationBytes : SpecialistInvocationView → Nat
  reportBytes : JsString → Nat
  completionBytes : CompleteSpecialistInvocationInput → Nat
  beginHash : BeginSpecialistInvocationInput → JsString
  completionHash : CompleteSpecialistInvocationInput → JsString

structure UserRow where
  id : Int
  isActive : Bool
  authVersion : Nat
  deriving DecidableEq, Repr

structure ProviderProfileRow where
  id : Uuid
  currentVersionId : Option Uuid
  policyVersion : Nat
  status : JsString
  (conformed deleted : Bool)
  exposureMode : JsString
  deriving DecidableEq, Repr

structure ProviderVersionRow where
  (id profileId : Uuid)
  (model transportKind capabilityRevision : JsString)
  conformed : Bool
  deriving DecidableEq, Repr

/-- The tables that `#binding` reads; a grant is of a profile to a group, and a user is in groups. -/
structure ProviderTables where
  users : List UserRow
  profiles : List ProviderProfileRow
  versions : List ProviderVersionRow
  grants : List (Uuid × Int)
  userGroups : List (Int × Int)
  deriving DecidableEq, Repr

/-- Readings of the clock and of the provider tables in one transaction: `now` is read at its
start, `later` where it reads the clock last. -/
structure Moment where
  (now later : Nat)
  providers : ProviderTables
  deriving DecidableEq, Repr

def integerBound (value minimum maximum : Nat) : Except AgentRepositoryError Unit :=
  check (minimum ≤ value ∧ value ≤ maximum) "INVALID_SPECIALIST_INPUT"
    "Specialist persistence bound is invalid" 400

def isHash (value : JsString) : Bool :=
  value.length = 64 && value.all fun c => (48 ≤ c ∧ c ≤ 57) ∨ (97 ≤ c ∧ c ≤ 102)

def bindingSchema (binding : SpecialistProviderBinding) : Bool :=
  let within := fun (value : JsString) (maximum : Nat) => 1 ≤ value.length ∧ value.length ≤ maximum
  within binding.model 256 ∧ within binding.transportKind 128
    ∧ within binding.capabilityRevision 256 ∧ 0 < binding.profilePolicyVersion

/-- `/^[A-Z][A-Z0-9_]{0,127}$/` -/
def isErrorCode (value : JsString) : Bool :=
  value.length ≤ 128 && value.head?.any (fun c => 65 ≤ c ∧ c ≤ 90)
    && value.all fun c => (65 ≤ c ∧ c ≤ 90) ∨ (48 ≤ c ∧ c ≤ 57) ∨ c = 95

variable (codec : Codec)

def encoded (context : SpecialistContext) (maximumBytes : Nat) : Except AgentRepositoryError Unit :=
  check (codec.contextBytes context ≤ maximumBytes) "AGENT_SPECIALIST_CONTEXT_TOO_LARGE"
    "Specialist context exceeds its persistence limit" 409

def corrupt {α : Type} : Except AgentRepositoryError α :=
  refuse "AGENT_SPECIALIST_CORRUPT" "Stored specialist data failed integrity validation" 500

def decodeContext (row : ContextRow) : Except AgentRepositoryError SpecialistContext :=
  let value := row.data
  if MAX_CONTEXT_BYTES < codec.contextBytes value ∨ value.id ≠ row.id ∨ value.ownerId ≠ row.ownerId
      ∨ value.rootSessionId ≠ row.rootSessionId ∨ value.scopeSha256 ≠ row.scopeSha256
      ∨ value.version ≠ row.version ∨ value.turnCount ≠ row.turnCount
      ∨ value.expiresAt ≠ row.expiresAt ∨ value.lastUsedAt ≠ row.lastUsedAt then corrupt
  else .ok value

def decodeInvocation (row : InvocationRow) : Except AgentRepositoryError SpecialistInvocationView :=
  let value := row.data
  if MAX_REPORT_BYTES + 4096 < codec.invocationBytes value ∨ value.id ≠ row.id
      ∨ value.contextId ≠ row.contextId ∨ value.rootRunId ≠ row.rootRunId
      ∨ value.contextVersion ≠ row.contextVersion ∨ value.status ≠ row.status
      ∨ value.startedAt ≠ row.startedAt ∨ value.completedAt ≠ row.completedAt
      ∨ (value.status = .running ∧ (value.completedAt ≠ none ∨ value.report ≠ none ∨ value.errorCode ≠ none))
      ∨ (value.status = .completed ∧ (value.completedAt = none ∨ value.errorCode ≠ none
        ∨ (row.scrubbedAt = none ∧ value.report = none)))
      ∨ (value.status = .failed ∧ (value.completedAt = none ∨ value.report ≠ none
        ∨ value.errorCode = none)) then corrupt
  else .ok value

/-- The row with the columns that `contextPatch` sets. -/
def ContextRow.patched (row : ContextRow) (context : SpecialistContext) : ContextRow :=
  { row with
    data := context
    version := context.version
    turnCount := context.turnCount
    expiresAt := context.expiresAt
    lastUsedAt := context.lastUsedAt }

/-- The row with the columns that `invocationPatch` sets. -/
def InvocationRow.patched (row : InvocationRow) (invocation : SpecialistInvocationView) :
    InvocationRow :=
  { row with
    data := invocation
    status := invocation.status
    contextVersion := invocation.contextVersion
    completedAt := invocation.completedAt }

/-- A run that is neither ended nor gone. -/
def Database.liveRoot (db : Database) (rootRunId : Uuid) : Bool :=
  db.runs.any fun run => run.id = rootRunId && run.status matches .active _

/-- The context has a running invocation of a live root. -/
def Database.active (db : Database) (contextId : Uuid) : Bool :=
  db.invocations.any fun i =>
    i.contextId = contextId && i.status = .running && db.liveRoot i.rootRunId

/-! ## Claims -/

def expired {α : Type} (message : String) : Except AgentRepositoryError α :=
  refuse "AGENT_SPECIALIST_EXPIRED" message 409

def Database.session (db : Database) (ownerId : Int) (rootSessionId : Uuid) (now : Nat) :
    Except AgentRepositoryError RootSession :=
  match db.sessions.find? fun s => s.id = rootSessionId && s.ownerId = ownerId && !s.deleted with
  | none => refuse "AGENT_RESOURCE_NOT_FOUND" "Agent session was not found" 404
  | some session =>
    if session.expiresAt.any (· ≤ now) then expired "Root session retention has expired"
    else .ok session

/-- The run that the claim leases. -/
def AgentRunClaim.holds (claim : AgentRunClaim) (run : RootRun) (now : Nat) : Bool :=
  run.id = claim.id && run.ownerId = claim.ownerId && run.sessionId = claim.sessionId
    && run.status = .running && run.attempts = claim.attempts
    && run.leaseOwner = some claim.leaseOwner && run.leaseToken = some claim.leaseToken
    && run.leaseExpiresAt.any (now < ·)

/-- `later` is the clock after the rows have been locked. -/
def Database.claim (db : Database) (claim : AgentRunClaim) (now later : Nat)
    (allowCancellation : Bool) : Except AgentRepositoryError RootSession := do
  let session ← db.session claim.ownerId claim.sessionId now
  match db.runs.find? fun run => claim.holds run now && (allowCancellation || run.cancelRequestedAt.isNone) with
  | none => refuse "RUN_LEASE_LOST" "Root run lease or cancellation fence changed" 409
  | some run =>
    check (run.leaseExpiresAt.any (later < ·)) "RUN_LEASE_LOST"
      "Root run lease or cancellation fence changed" 409
    check (session.expiresAt.all (later < ·)) "AGENT_SPECIALIST_EXPIRED"
      "Root session retention has expired" 409
    return session

/-- `#binding` -/
def ProviderTables.binding (tables : ProviderTables) (ownerId : Int) (binding : SpecialistProviderBinding) :
    Except AgentRepositoryError Unit := do
  let owner := tables.users.any fun row => row.id = ownerId && row.isActive && row.authVersion = binding.ownerAuthVersion
  let profile := tables.profiles.find? fun row => row.id = binding.profileId
    && row.currentVersionId = some binding.profileVersionId && row.policyVersion = binding.profilePolicyVersion
    && row.status = js "enabled" && row.conformed && !row.deleted
  let version := tables.versions.any fun row => row.id = binding.profileVersionId && row.profileId = binding.profileId
    && row.model = binding.model && row.transportKind = binding.transportKind
    && row.capabilityRevision = binding.capabilityRevision && row.conformed
  check (owner && profile.isSome && version) "AGENT_SPECIALIST_BINDING_CHANGED"
    "Specialist provider or owner authority changed" 409
  check (profile.any (·.exposureMode = js "all_agent_users") || tables.grants.any fun (profileId, groupId) =>
    profileId = binding.profileId && tables.userGroups.any (· = (ownerId, groupId)))
    "AGENT_SPECIALIST_BINDING_CHANGED" "Specialist provider access was revoked" 409

/-- Whether the invocation was begun under this lease and attempt. -/
def InvocationRow.begunBy (row : InvocationRow) (claim : AgentRunClaim) : Bool :=
  row.rootAttempt = claim.attempts && row.rootLeaseOwner = claim.leaseOwner && row.rootLeaseToken = claim.leaseToken

def Database.context (db : Database) (claim : AgentRunClaim) (contextId : Uuid) :
    Option ContextRow :=
  db.contexts.find? fun row => row.id = contextId && row.ownerId = claim.ownerId && row.rootSessionId = claim.sessionId

/-! ## Begin -/

structure Begun where
  context : SpecialistContext
  invocation : SpecialistInvocationView
  replayed : Bool
  deriving DecidableEq, Repr

def beginInput (input : BeginSpecialistInvocationInput) : Except AgentRepositoryError Unit := do
  integerBound input.maximumContexts 1 8
  integerBound input.maximumContextBytes 4096 MAX_CONTEXT_BYTES
  check (bindingSchema input.binding && isHash input.scopeSha256
    && ROUTING_TASK_CLASSES.any (· = input.taskClass) && ROUTING_COMPLEXITIES.any (· = input.complexity)
    && (match input.contextId with
      | none => input.contextVersion.isNone
      | some _ => input.contextVersion.any (1 ≤ ·)))
    "INVALID_SPECIALIST_INPUT" "Specialist binding or context selection is invalid" 400

/-- The receipt of a run that has begun its invocation already. -/
def replay (db : Database) (claim : AgentRunClaim) (input : BeginSpecialistInvocationInput)
    (moment : Moment) (existing : InvocationRow) : Except AgentRepositoryError Begun := do
  check (existing.ownerId = claim.ownerId && existing.rootSessionId = claim.sessionId
    && existing.beginSha256 = codec.beginHash input) "AGENT_SPECIALIST_INVOCATION_CONFLICT"
    "Root run already has a different specialist invocation" 409
  match db.context claim existing.contextId with
  | none => expired "Specialist receipt context has expired"
  | some row =>
    check (row.scrubbedAt.isNone && decide (moment.now < row.expiresAt)
      && decide (moment.now < existing.expiresAt)) "AGENT_SPECIALIST_EXPIRED"
      "Specialist receipt context has expired" 409
    let context ← decodeContext codec row
    check (context.binding = input.binding && context.scopeSha256 = input.scopeSha256)
      "AGENT_SPECIALIST_BINDING_CHANGED" "Specialist receipt binding changed" 409
    encoded codec context input.maximumContextBytes
    let _ ← db.claim claim moment.later moment.later false
    check (moment.later < min input.expiresAt (min context.expiresAt existing.expiresAt))
      "AGENT_SPECIALIST_EXPIRED" "Specialist receipt context expired before replay" 409
    let invocation ← decodeInvocation codec existing
    return ⟨context, invocation, true⟩

/-- The context that the input names, when the invocation may use it. -/
def reuseContext (db : Database) (claim : AgentRunClaim) (input : BeginSpecialistInvocationInput)
    (moment : Moment) (contextId : Uuid) : Except AgentRepositoryError SpecialistContext :=
  match db.context claim contextId with
  | none => refuse "AGENT_RESOURCE_NOT_FOUND" "Specialist context was not found" 404
  | some row => do
      let context ← decodeContext codec row
      check (row.scrubbedAt.isNone && decide (moment.now < context.expiresAt))
        "AGENT_SPECIALIST_EXPIRED" "Specialist context has expired" 409
      check (input.contextVersion = some context.version) "AGENT_SPECIALIST_VERSION_CHANGED"
        "Specialist context version changed" 409
      check (context.binding = input.binding && context.scopeSha256 = input.scopeSha256
        && context.taskClass = input.taskClass && context.complexity = input.complexity)
        "AGENT_SPECIALIST_BINDING_CHANGED"
        "Specialist context has a different immutable binding or source scope" 409
      check (!db.invocations.any fun i => i.contextId = context.id && i.status = .running)
        "AGENT_SPECIALIST_CONTEXT_BUSY" "Specialist context has an unresolved invocation" 409
      encoded codec context input.maximumContextBytes
      return context

/-- The contexts of the session that count against its limit. -/
def Database.retained (db : Database) (claim : AgentRunClaim) (now : Nat) : Nat :=
  db.contexts.countP fun row => row.ownerId = claim.ownerId && row.rootSessionId = claim.sessionId
    && (decide (now < row.expiresAt) || db.active row.id)

/-- A new context of the session; `id` is the random UUID. -/
def newContext (claim : AgentRunClaim) (input : BeginSpecialistInvocationInput) (moment : Moment)
    (id : Uuid) : SpecialistContext where
  id := id
  ownerId := claim.ownerId
  rootSessionId := claim.sessionId
  binding := input.binding
  scopeSha256 := input.scopeSha256
  taskClass := input.taskClass
  complexity := input.complexity
  version := 1
  turnCount := 0
  history := []
  state := none
  lastReport := []
  authoritySha256 := none
  expiresAt := input.expiresAt
  lastUsedAt := moment.now

def contextRow (context : SpecialistContext) : ContextRow where
  id := context.id
  ownerId := context.ownerId
  rootSessionId := context.rootSessionId
  data := context
  scopeSha256 := context.scopeSha256
  version := context.version
  turnCount := context.turnCount
  expiresAt := context.expiresAt
  lastUsedAt := context.lastUsedAt
  scrubbedAt := none

def createContext (db : Database) (claim : AgentRunClaim) (input : BeginSpecialistInvocationInput)
    (moment : Moment) (id : Uuid) : Except AgentRepositoryError (Database × SpecialistContext) := do
  check (db.retained claim moment.now < input.maximumContexts) "AGENT_SPECIALIST_CONTEXT_LIMIT"
    "Root conversation specialist context limit was reached" 409
  let context := newContext claim input moment id
  encoded codec context input.maximumContextBytes
  return ({ db with contexts := db.contexts ++ [contextRow context] }, context)

/-- The context of the invocation, in the tables that have it. -/
def chooseContext (db : Database) (claim : AgentRunClaim) (input : BeginSpecialistInvocationInput)
    (moment : Moment) (id : Uuid) : Except AgentRepositoryError (Database × SpecialistContext) :=
  match input.contextId with
  | some contextId => do
      let context ← reuseContext codec db claim input moment contextId
      return (db, context)
  | none => createContext codec db claim input moment id

def invocationView (claim : AgentRunClaim) (input : BeginSpecialistInvocationInput)
    (moment : Moment) (id : Uuid) (context : SpecialistContext) : SpecialistInvocationView where
  id := id
  contextId := context.id
  rootRunId := claim.id
  profileVersionId := input.binding.profileVersionId
  model := input.binding.model
  taskClass := input.taskClass
  status := .running
  reused := input.contextId.isSome
  contextVersion := context.version
  report := none
  errorCode := none
  startedAt := moment.now
  completedAt := none

def invocationRow (claim : AgentRunClaim) (input : BeginSpecialistInvocationInput)
    (moment : Moment) (id : Uuid) (context : SpecialistContext) : InvocationRow where
  id := id
  ownerId := claim.ownerId
  rootSessionId := claim.sessionId
  rootRunId := claim.id
  contextId := context.id
  contextVersion := context.version
  status := .running
  data := invocationView claim input moment id context
  beginSha256 := codec.beginHash input
  completionSha256 := none
  rootAttempt := claim.attempts
  rootLeaseOwner := claim.leaseOwner
  rootLeaseToken := claim.leaseToken
  maximumContextBytes := input.maximumContextBytes
  expiresAt := min input.expiresAt context.expiresAt
  startedAt := moment.now
  completedAt := none
  scrubbedAt := none

/-- `contextId` and `invocationId` are the random UUIDs. -/
def begin (db : Database) (claim : AgentRunClaim) (input : BeginSpecialistInvocationInput)
    (moment : Moment) (contextId invocationId : Uuid) :
    Except AgentRepositoryError (Database × Begun) := do
  beginInput input
  let session ← db.claim claim moment.now moment.later false
  moment.providers.binding claim.ownerId input.binding
  check (decide (moment.now < input.expiresAt) && session.expiresAt.all (input.expiresAt ≤ ·))
    "AGENT_SPECIALIST_EXPIRED"
    "Specialist expiry must fit root retention and the host source expiry" 409
  match db.invocations.find? fun i => i.rootRunId = claim.id with
  | some existing => do
      let begun ← replay codec db claim input moment existing
      return (db, begun)
  | none => do
      let (db, context) ← chooseContext codec db claim input moment contextId
      let row := invocationRow codec claim input moment invocationId context
      let db := { db with invocations := db.invocations ++ [row] }
      let _ ← db.claim claim moment.later moment.later false
      check (moment.later < min input.expiresAt context.expiresAt) "AGENT_SPECIALIST_EXPIRED"
        "Specialist context expired before dispatch" 409
      return (db, ⟨context, row.data, false⟩)

/-! ## Completion and failure -/

def completeInput (input : CompleteSpecialistInvocationInput) :
    Except AgentRepositoryError Unit := do
  integerBound input.maximumContextBytes 4096 MAX_CONTEXT_BYTES
  integerBound input.maximumReportBytes 1 MAX_REPORT_BYTES
  check (input.authoritySha256.all isHash) "INVALID_SPECIALIST_INPUT"
    "Specialist completion is invalid" 400
  check (codec.reportBytes input.report ≤ input.maximumReportBytes)
    "AGENT_SPECIALIST_REPORT_TOO_LARGE" "Specialist report exceeds its persistence limit" 409
  check (codec.completionBytes input ≤ min input.maximumContextBytes MAX_CONTEXT_BYTES)
    "AGENT_SPECIALIST_CONTEXT_TOO_LARGE" "Specialist context exceeds its persistence limit" 409

/-- The context after the invocation. -/
def completedContext (context : SpecialistContext) (row : InvocationRow) (session : RootSession)
    (input : CompleteSpecialistInvocationInput) (now : Nat) : SpecialistContext :=
  let expiry := min context.expiresAt row.expiresAt
  { context with
    version := context.version + 1
    turnCount := context.turnCount + 1
    history := input.history
    state := input.state
    lastReport := input.report
    authoritySha256 := input.authoritySha256
    expiresAt := session.expiresAt.elim expiry (min expiry)
    lastUsedAt := now }

def Database.invocation (db : Database) (claim : AgentRunClaim) (invocationId : Uuid) :
    Except AgentRepositoryError InvocationRow :=
  match db.invocations.find? fun i => i.id = invocationId && i.rootRunId = claim.id
      && i.ownerId = claim.ownerId && i.rootSessionId = claim.sessionId with
  | none => refuse "AGENT_RESOURCE_NOT_FOUND" "Specialist invocation was not found" 404
  | some row => .ok row

/-- The commit of a running invocation. -/
def finish (db : Database) (claim : AgentRunClaim) (input : CompleteSpecialistInvocationInput)
    (moment : Moment) (session : RootSession) (row : InvocationRow)
    (invocation : SpecialistInvocationView) (context : SpecialistContext) :
    Except AgentRepositoryError (Database × SpecialistInvocationView) := do
  check (row.begunBy claim) "RUN_LEASE_LOST"
    "Specialist invocation belongs to a different root lease" 409
  check (context.version = row.contextVersion) "AGENT_SPECIALIST_VERSION_CHANGED"
    "Specialist context changed during invocation" 409
  check (context.turnCount = 0 || context.authoritySha256 = input.authoritySha256)
    "AGENT_SPECIALIST_AUTHORITY_CHANGED" "Specialist authority binding changed" 409
  check (context.history.isPrefixOf input.history) "AGENT_SPECIALIST_HISTORY_CHANGED"
    "Specialist completion must preserve its retained history" 409
  let next := completedContext context row session input moment.now
  encoded codec next (min row.maximumContextBytes input.maximumContextBytes)
  let current := fun c : ContextRow => c.id = context.id && c.ownerId = claim.ownerId
    && c.rootSessionId = claim.sessionId && c.version = row.contextVersion && c.scrubbedAt.isNone
  check (Table.updated current db.contexts = 1) "AGENT_SPECIALIST_VERSION_CHANGED"
    "Specialist context changed during commit" 409
  let completed := { invocation with
    status := .completed
    contextVersion := next.version
    report := some input.report
    completedAt := some moment.now }
  let pending := fun i : InvocationRow => i.id = row.id && i.status = .running && i.rootLeaseToken = claim.leaseToken
  check (Table.updated pending db.invocations = 1) "AGENT_SPECIALIST_INVOCATION_CONFLICT"
    "Specialist invocation changed during commit" 409
  let db := { db with
    contexts := Table.updateWhere current (·.patched next) db.contexts
    invocations := Table.updateWhere pending (fun i =>
      { i.patched completed with completionSha256 := some (codec.completionHash input) })
      db.invocations }
  let _ ← db.claim claim moment.later moment.later false
  check (moment.later < next.expiresAt) "AGENT_SPECIALIST_EXPIRED"
    "Specialist context expired before commit" 409
  return (db, completed)

def complete (db : Database) (claim : AgentRunClaim) (invocationId : Uuid)
    (input : CompleteSpecialistInvocationInput) (moment : Moment) :
    Except AgentRepositoryError (Database × SpecialistInvocationView) := do
  completeInput codec input
  let session ← db.claim claim moment.now moment.later false
  let row ← db.invocation claim invocationId
  let invocation ← decodeInvocation codec row
  check (row.status ≠ .failed) "AGENT_SPECIALIST_INVOCATION_FAILED"
    "Specialist invocation cannot be completed after failure" 409
  match db.context claim row.contextId with
  | none => expired "Specialist invocation context has expired"
  | some contextRow =>
    check (contextRow.scrubbedAt.isNone && decide (moment.now < row.expiresAt)
      && decide (moment.now < contextRow.expiresAt)) "AGENT_SPECIALIST_EXPIRED"
      "Specialist invocation context has expired" 409
    let context ← decodeContext codec contextRow
    moment.providers.binding claim.ownerId context.binding
    if row.status = .completed then do
      check (row.completionSha256 = some (codec.completionHash input))
        "AGENT_SPECIALIST_INVOCATION_CONFLICT" "Completed specialist receipt is immutable" 409
      let _ ← db.claim claim moment.later moment.later false
      check (moment.later < min row.expiresAt context.expiresAt) "AGENT_SPECIALIST_EXPIRED"
        "Specialist receipt context expired before replay" 409
      return (db, invocation)
    else finish codec db claim input moment session row invocation context

def fail (db : Database) (claim : AgentRunClaim) (invocationId : Uuid) (errorCode : JsString)
    (moment : Moment) : Except AgentRepositoryError Database := do
  check (isErrorCode errorCode) "INVALID_SPECIALIST_INPUT" "Specialist failure code is invalid" 400
  let _ ← db.claim claim moment.now moment.later true
  let row ← db.invocation claim invocationId
  let invocation ← decodeInvocation codec row
  if row.status ≠ .running then return db
  else do
    check (row.begunBy claim) "RUN_LEASE_LOST"
      "Specialist invocation belongs to a different root lease" 409
    let failed := { invocation with
      status := .failed
      errorCode := some errorCode
      completedAt := some moment.now }
    let pending := fun i : InvocationRow => i.id = row.id && i.status = .running && i.rootLeaseToken = claim.leaseToken
    let db := { db with
      invocations := Table.updateWhere pending (·.patched failed) db.invocations }
    let _ ← db.claim claim moment.later moment.later true
    return db

/-! ## Expiry -/

/-- `ORDER BY expiresAt, id LIMIT 100`. -/
def firstExpired {ρ : Type} (expiresAt : ρ → Nat) (id : ρ → Uuid) (rows : List ρ) : List ρ :=
  (rows.insertionSort fun a b =>
    expiresAt a < expiresAt b ∨ (expiresAt a = expiresAt b ∧ id a ≤ id b)).take 100

/-- A context without its content. -/
def SpecialistContext.scrubbed (context : SpecialistContext) : SpecialistContext :=
  { context with history := [], state := none, lastReport := [] }

def scrubContext (now : Nat) (db : Database) (row : ContextRow) :
    Except AgentRepositoryError Database := do
  let context ← decodeContext codec row
  encoded codec context.scrubbed MAX_CONTEXT_BYTES
  let current := fun c : ContextRow =>
    c.id = row.id && c.version = row.version && c.scrubbedAt.isNone
  return { db with
    contexts := Table.updateWhere current
      (fun c => { c.patched context.scrubbed with scrubbedAt := some now }) db.contexts }

def scrubInvocation (now : Nat) (db : Database) (row : InvocationRow) :
    Except AgentRepositoryError Database := do
  let invocation ← decodeInvocation codec row
  return { db with
    invocations := Table.updateWhere (fun i => i.id = row.id && i.scrubbedAt.isNone)
      (fun i => { i.patched { invocation with report := none } with scrubbedAt := some now })
      db.invocations }

def Database.expiredContexts (db : Database) (now : Nat) : List ContextRow :=
  firstExpired ContextRow.expiresAt ContextRow.id (db.contexts.filter fun row =>
    row.scrubbedAt.isNone && decide (row.expiresAt ≤ now) && !db.active row.id)

def Database.expiredInvocations (db : Database) (now : Nat) : List InvocationRow :=
  firstExpired InvocationRow.expiresAt InvocationRow.id (db.invocations.filter fun row =>
    row.scrubbedAt.isNone && decide (row.expiresAt ≤ now) && !(row.status = .running && db.liveRoot row.rootRunId))

def expire (db : Database) (now : Nat) : Except AgentRepositoryError Database := do
  let db ← (db.expiredContexts now).foldlM (scrubContext codec now) db
  (db.expiredInvocations now).foldlM (scrubInvocation codec now) db

end TsEpistle.Specialists
