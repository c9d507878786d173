import TsEpistle.Library.JsString
import TsEpistle.Library.Table

/-! The proposal ledger (`server/agents/proposals/repository.ts`, `execution.ts` and
the proposal statements of `server/agents/maintenance.ts`), one definition for each
transaction. `agentApprovals` and `agentActionExecutions` are unique per proposal, so
the rows of one proposal are kept together in an `Entry`. A transaction answers the
new ledger or an error, after which the ledger is as before. -/

namespace TsEpistle.Proposals
open Library

abbrev Uuid := JsString
abbrev Time := Int

inductive ProposalStatus
  | pending | approved | denied | applying | applied | expired | cancelled | failed
  | recoveryRequired
  deriving DecidableEq, Repr

inductive ApprovalStatus
  | pending | approved | denied | expired | cancelled
  deriving DecidableEq, Repr

inductive ExecutionStatus
  | applying | committed | failed | recoveryRequired
  deriving DecidableEq, Repr

inductive SourceKind
  | agent | mcp
  deriving DecidableEq, Repr

inductive Requester
  | user (userId : Int)
  | apiKey (apiKeyId : Int)
  deriving DecidableEq, Repr

inductive LineEnding
  | lf | crlf
  deriving DecidableEq, Repr

structure ActionAuthority where
  version : Int
  actionName : JsString
  transport : SourceKind
  requester : Requester
  (requestId authoritySha256 : JsString)
  deriving DecidableEq, Repr

structure ProposalBaseContract where
  pageId : Option Int
  baseSourceRevision : Option JsString
  baseLineEnding : Option LineEnding
  baseFinalNewline : Option Bool
  (baseRawSha256 baseCanonicalSha256 disclosedRangesSha256 patchFormat : Option JsString)
  patchEngineVersion : Option Int
  (patch patchSha256 resultRawSha256 resultCanonicalSha256 : Option JsString)
  diffRendererVersion : Option Int
  (diff diffSha256 : Option JsString)
  deriving DecidableEq, Repr

/-- `Value` stands for the JSON values of the program. -/
structure ProposalDraft (Value : Type) extends ProposalBaseContract where
  (runId sessionId : Option Uuid)
  authority : ActionAuthority
  actionCallId : JsString
  destructive : Bool
  (input operation : Value)
  summary : JsString
  ttlMs : Option Int

structure ProposalRecord extends ProposalBaseContract where
  id : Uuid
  sourceKind : SourceKind
  actionCallId : JsString
  (runId sessionId : Option Uuid)
  (requesterUserId requesterApiKeyId : Option Int)
  (requesterRequestId actionName : JsString)
  destructive : Bool
  summary : JsString
  status : ProposalStatus
  input : Option JsString
  inputHash : JsString
  authorityVersion : Int
  (operation operationSha256 authoritySha256 : JsString)
  (expiresAt createdAt : Time)
  (appliedAt contentPurgedAt : Option Time)
  applyResult : Option JsString
  deriving DecidableEq, Repr

structure ApprovalRecord where
  (id proposalId : Uuid)
  runId : Option Uuid
  (requesterUserId requesterApiKeyId : Option Int)
  status : ApprovalStatus
  inputHash : JsString
  authorityVersion : Int
  authoritySha256 : JsString
  (patchSha256 resultCanonicalSha256 diffSha256 : Option JsString)
  operationSha256 : JsString
  (requestedAt expiresAt : Time)
  decidedAt : Option Time
  approvedByUserId : Option Int
  decisionNote : Option JsString
  deriving DecidableEq, Repr

structure ExecutionRow where
  (id proposalId : Uuid)
  runId : Option Uuid
  actionName : JsString
  (requesterUserId requesterApiKeyId : Option Int)
  approvedByUserId : Int
  idempotencyKey : JsString
  leaseToken : Option JsString
  status : ExecutionStatus
  inputHash : JsString
  startedAt : Time
  completedAt : Option Time
  (result error : Option JsString)
  deriving DecidableEq, Repr

structure Entry where
  proposal : ProposalRecord
  approval : ApprovalRecord
  execution : Option ExecutionRow
  deriving DecidableEq, Repr

abbrev Ledger := List Entry

structure AgentProposalError where
  (code message : String)
  status : Nat
  deriving DecidableEq, Repr

/-- An exception that leaves a transaction: one of the program's own, or one of the
database or of a function that was passed in. -/
inductive Failure
  | proposal (error : AgentProposalError)
  | thrown
  deriving DecidableEq, Repr

def refuse {α : Type} (code message : String) (status : Nat) : Except Failure α :=
  .error (.proposal ⟨code, message, status⟩)

/-- The functions the ledger calls on texts and values. `canonicalJson` and `parse`
answer `none` where they throw; `envelope` is `canonicalProposalEnvelope`, and
`claimKey` the canonical JSON of the identity of an execution claim. -/
structure Codec (Value : Type) where
  sha256 : JsString → JsString
  canonicalJson : Value → Option JsString
  parse : JsString → Option Value
  envelope : ProposalDraft Value → JsString
  claimKey : (proposalId authoritySha256 inputHash : JsString) → JsString

def find (ledger : Ledger) (proposalId : Uuid) : Option Entry :=
  Table.get (fun entry => entry.proposal.id) ledger proposalId

section
variable {Value : Type} (codec : Codec Value)

/-! ## Locks and statements -/

def parseInput (proposal : ProposalRecord) : Except Failure Value :=
  match proposal.contentPurgedAt, proposal.input with
  | none, some input =>
    match codec.parse input with
    | some value => .ok value
    | none => refuse "PROPOSAL_LEDGER_CORRUPT" "Proposal input is invalid" 500
  | _, _ => refuse "PROPOSAL_CONTENT_UNAVAILABLE" "Proposal content is no longer available" 409

def tampered (entry : Entry) : Bool :=
  let proposal := entry.proposal
  let approval := entry.approval
  approval.inputHash != proposal.inputHash ||
    approval.authorityVersion != proposal.authorityVersion ||
    approval.authoritySha256 != proposal.authoritySha256 ||
    approval.patchSha256 != proposal.patchSha256 ||
    approval.resultCanonicalSha256 != proposal.resultCanonicalSha256 ||
    approval.operationSha256 != proposal.operationSha256 ||
    codec.sha256 proposal.operation != proposal.operationSha256 ||
    approval.diffSha256 != proposal.diffSha256

def lockProposalLedger (ledger : Ledger) (proposalId approvalId : Uuid) : Except Failure Entry :=
  match (find ledger proposalId).filter fun entry => entry.approval.id == approvalId with
  | none => refuse "PROPOSAL_NOT_FOUND" "Proposal does not exist" 404
  | some entry =>
    if tampered codec entry then
      refuse "PROPOSAL_LEDGER_TAMPERED" "Proposal approval does not match its immutable payload" 409
    else .ok entry

def lockProposal (ledger : Ledger) (proposalId approvalId : Uuid) : Except Failure (Entry × Value) := do
  let entry ← lockProposalLedger codec ledger proposalId approvalId
  let input ← parseInput codec entry.proposal
  return (entry, input)

def updateProposals (cond : ProposalRecord → Bool) (set : ProposalRecord → ProposalRecord)
    (ledger : Ledger) : Ledger :=
  Table.updateWhere (fun entry => cond entry.proposal)
    (fun entry => { entry with proposal := set entry.proposal }) ledger

def updateApprovals (cond : ApprovalRecord → Bool) (set : ApprovalRecord → ApprovalRecord)
    (ledger : Ledger) : Ledger :=
  Table.updateWhere (fun entry => cond entry.approval)
    (fun entry => { entry with approval := set entry.approval }) ledger

def updateExecutions (cond : ExecutionRow → Bool) (set : ExecutionRow → ExecutionRow)
    (ledger : Ledger) : Ledger :=
  Table.updateWhere (fun entry => entry.execution.any cond)
    (fun entry => { entry with execution := entry.execution.map set }) ledger

def proposalsUpdated (cond : ProposalRecord → Bool) (ledger : Ledger) : Nat :=
  Table.updated (fun entry => cond entry.proposal) ledger

def approvalsUpdated (cond : ApprovalRecord → Bool) (ledger : Ledger) : Nat :=
  Table.updated (fun entry => cond entry.approval) ledger

def executionsUpdated (cond : ExecutionRow → Bool) (ledger : Ledger) : Nat :=
  Table.updated (fun entry => entry.execution.any cond) ledger

def updateStatuses (ledger : Ledger) (proposalId approvalId : Uuid) (fromProposal : ProposalStatus)
    (fromApproval : ApprovalStatus) (proposalPatch : ProposalRecord → ProposalRecord)
    (approvalPatch : ApprovalRecord → ApprovalRecord) : Except Failure Ledger :=
  let approvalWhere := fun approval : ApprovalRecord =>
    approval.id == approvalId && approval.proposalId == proposalId && approval.status == fromApproval
  let proposalWhere := fun proposal : ProposalRecord =>
    proposal.id == proposalId && proposal.status == fromProposal
  let ledger' := updateApprovals approvalWhere approvalPatch ledger
  if approvalsUpdated approvalWhere ledger != 1 || proposalsUpdated proposalWhere ledger' != 1 then
    refuse "PROPOSAL_STATE_CHANGED" "Proposal state changed concurrently" 409
  else .ok (updateProposals proposalWhere proposalPatch ledger')

/-! ## Persisting a proposal -/

def isHash (value : JsString) : Bool :=
  value.length == 64 && value.all fun c => (0x61 ≤ c && c ≤ 0x66) || (0x30 ≤ c && c ≤ 0x39)

def assertHex (value : Option JsString) (label : String) : Except Failure Unit :=
  if value.any fun value => !isHash value then
    refuse "INVALID_PROPOSAL" (label ++ " must be a SHA-256 hash") 400
  else .ok ()

/-- `/^[1-9][0-9]*$/` -/
def isRevision (value : JsString) : Bool :=
  value.head?.any (fun c => 0x31 ≤ c && c ≤ 0x39) && value.all fun c => 0x30 ≤ c && c ≤ 0x39

def missing (value : Option JsString) : Bool := value == none || value == some []

def validateDraft (draft : ProposalDraft Value) : Except Failure Unit := do
  let authority := draft.authority
  if authority.actionName == js "pages.applyProposal" ||
      !startsWith authority.actionName (js "pages.prepare") then
    refuse "INVALID_PROPOSAL_ACTION" "Only page preparation actions can create proposals" 400
  match authority.transport, authority.requester with
  | .agent, .user _ =>
    if missing draft.runId || missing draft.sessionId then
      refuse "INVALID_PROPOSAL_SCOPE" "Agent proposals require a user, run, and session" 400
  | .agent, .apiKey _ =>
    refuse "INVALID_PROPOSAL_SCOPE" "Agent proposals require a user, run, and session" 400
  | .mcp, .apiKey _ =>
    if draft.runId.isSome || draft.sessionId.isSome then
      refuse "INVALID_PROPOSAL_SCOPE" "MCP proposals require one API key and no run or session" 400
  | .mcp, .user _ =>
    refuse "INVALID_PROPOSAL_SCOPE" "MCP proposals require one API key and no run or session" 400
  if draft.actionCallId == [] || draft.actionCallId.length > 128 then
    refuse "INVALID_PROPOSAL" "Proposal action call identity is invalid" 400
  if draft.summary.length < 1 || draft.summary.length > 4000 then
    refuse "INVALID_PROPOSAL" "Proposal summary is invalid" 400
  if draft.ttlMs.any fun ttl => ttl < 60000 || ttl > 86400000 then
    refuse "INVALID_PROPOSAL" "Proposal expiry is invalid" 400
  if draft.baseSourceRevision.any fun revision => !isRevision revision then
    refuse "INVALID_PROPOSAL" "Base source revision is invalid" 400
  assertHex draft.baseRawSha256 "baseRawSha256"
  assertHex draft.baseCanonicalSha256 "baseCanonicalSha256"
  assertHex draft.disclosedRangesSha256 "disclosedRangesSha256"
  assertHex draft.patchSha256 "patchSha256"
  assertHex draft.resultRawSha256 "resultRawSha256"
  assertHex draft.resultCanonicalSha256 "resultCanonicalSha256"
  assertHex draft.diffSha256 "diffSha256"

/-- `proposalLookup`: the identity under which a proposal is deduplicated. -/
def sameRequest (draft : ProposalDraft Value) (proposal : ProposalRecord) : Bool :=
  proposal.actionCallId == draft.actionCallId &&
    match draft.authority.transport with
    | .agent => proposal.sourceKind == .agent && proposal.runId == draft.runId
    | .mcp =>
      let apiKeyId := match draft.authority.requester with
        | .apiKey apiKeyId => apiKeyId
        | .user _ => 0
      proposal.sourceKind == .mcp && proposal.requesterRequestId == draft.authority.requestId &&
        proposal.requesterApiKeyId == some apiKeyId

def assertStoredOperation (proposal : ProposalRecord) : Except Failure Unit :=
  if !isHash proposal.operationSha256 ||
      codec.sha256 proposal.operation != proposal.operationSha256 then
    refuse "PROPOSAL_LEDGER_CORRUPT" "Proposal operation hash does not match" 500
  else .ok ()

def readPersisted (ledger : Ledger) (draft : ProposalDraft Value) (inputHash : JsString) :
    Except Failure (Option Entry) :=
  match ledger.find? fun entry => sameRequest draft entry.proposal with
  | none => .ok none
  | some entry => do
      assertStoredOperation codec entry.proposal
      if entry.proposal.inputHash != inputHash then
        refuse "IDEMPOTENCY_MISMATCH"
          "Proposal request ID was reused with different immutable input" 409
      if entry.approval.operationSha256 != entry.proposal.operationSha256 then
        refuse "PROPOSAL_LEDGER_CORRUPT" "Proposal approval operation hash does not match" 500
      return some entry

/-- `resumed` says that the run awaits an approval or is past its first attempt. -/
def readRecoverable (ledger : Ledger) (draft : ProposalDraft Value) (input operation : JsString)
    (resumed : Bool) : Except Failure (Option Entry) :=
  if draft.authority.transport == .mcp || !resumed then .ok none
  else
    let matching := (ledger.filter fun entry =>
      entry.proposal.sourceKind == .agent && entry.proposal.runId == draft.runId &&
        entry.proposal.actionName == draft.authority.actionName &&
        entry.proposal.input == some input && entry.proposal.operation == operation).insertionSort
          fun a b => a.proposal.createdAt ≤ b.proposal.createdAt
    let decided := matching.find? fun entry =>
      entry.proposal.status == .approved || entry.proposal.status == .denied || entry.proposal.status == .expired
    match decided.or (matching.find? fun entry => entry.proposal.status == .pending) with
    | none => .ok none
    | some entry => do
        assertStoredOperation codec entry.proposal
        let expected := codec.sha256
          (codec.envelope { draft with actionCallId := entry.proposal.actionCallId })
        if entry.proposal.inputHash != expected then
          refuse "PROPOSAL_LEDGER_CORRUPT"
            "Recoverable proposal does not match its immutable payload" 500
        if entry.approval.operationSha256 != entry.proposal.operationSha256 then
          refuse "PROPOSAL_LEDGER_CORRUPT" "Recoverable proposal approval is invalid" 500
        return some entry

def requesterUserId (requester : Requester) : Option Int :=
  match requester with
  | .user userId => some userId
  | .apiKey _ => none

def requesterApiKeyId (requester : Requester) : Option Int :=
  match requester with
  | .user _ => none
  | .apiKey apiKeyId => some apiKeyId

/-- The two rows that `persistProposal` inserts. -/
def draftEntry (draft : ProposalDraft Value) (input operation : JsString)
    (proposalId approvalId : Uuid) (now : Time) : Entry :=
  let inputHash := codec.sha256 (codec.envelope draft)
  let expiresAt := now + draft.ttlMs.getD 900000
  { proposal :=
      { draft.toProposalBaseContract with
        id := proposalId
        sourceKind := draft.authority.transport
        actionCallId := draft.actionCallId
        runId := draft.runId
        sessionId := draft.sessionId
        requesterUserId := requesterUserId draft.authority.requester
        requesterApiKeyId := requesterApiKeyId draft.authority.requester
        requesterRequestId := draft.authority.requestId
        actionName := draft.authority.actionName
        destructive := draft.destructive
        summary := draft.summary
        status := .pending
        input := some input
        inputHash := inputHash
        authorityVersion := draft.authority.version
        operation := operation
        operationSha256 := codec.sha256 operation
        authoritySha256 := draft.authority.authoritySha256
        expiresAt := expiresAt
        createdAt := now
        appliedAt := none
        contentPurgedAt := none
        applyResult := none }
    approval :=
      { id := approvalId
        proposalId := proposalId
        runId := draft.runId
        requesterUserId := requesterUserId draft.authority.requester
        requesterApiKeyId := requesterApiKeyId draft.authority.requester
        status := .pending
        inputHash := inputHash
        authorityVersion := draft.authority.version
        authoritySha256 := draft.authority.authoritySha256
        patchSha256 := draft.patchSha256
        resultCanonicalSha256 := draft.resultCanonicalSha256
        diffSha256 := draft.diffSha256
        operationSha256 := codec.sha256 operation
        requestedAt := now
        expiresAt := expiresAt
        decidedAt := none
        approvedByUserId := none
        decisionNote := none }
    execution := none }

def persistProposal (ledger : Ledger) (draft : ProposalDraft Value) (resumed : Bool)
    (proposalId approvalId : Uuid) (now : Time) : Except Failure Ledger := do
  validateDraft draft
  let inputHash := codec.sha256 (codec.envelope draft)
  if (← readPersisted codec ledger draft inputHash).isSome then return ledger
  match codec.canonicalJson draft.input, codec.canonicalJson draft.operation with
  | some input, some operation =>
    if (← readRecoverable codec ledger draft input operation resumed).isSome then return ledger
    -- `onConflict().ignore()` skips the insert when the new UUID is taken
    if (find ledger proposalId).isSome then
      refuse "PROPOSAL_LEDGER_WRITE_FAILED" "Proposal could not be persisted" 500
    if ledger.any fun entry => entry.approval.id == approvalId then .error .thrown
    return ledger ++ [draftEntry codec draft input operation proposalId approvalId now]
  | _, _ => .error .thrown

/-! ## Deciding a proposal -/

inductive Decision
  | approved | denied
  deriving DecidableEq, Repr

structure DecideProposalInput where
  (proposalId approvalId : Uuid)
  userId : Int
  decision : Decision
  decisionNote : Option JsString
  deriving DecidableEq, Repr

def Decision.proposalStatus : Decision → ProposalStatus
  | .approved => .approved
  | .denied => .denied

def Decision.approvalStatus : Decision → ApprovalStatus
  | .approved => .approved
  | .denied => .denied

/-- A transaction that answers `answer` where `result` lets it commit. -/
def commitWith (ledger : Ledger) (result : Except Failure Ledger) (answer : Except Failure Unit) :
    Ledger × Except Failure Unit :=
  match result with
  | .ok ledger' => (ledger', answer)
  | .error failure => (ledger, .error failure)

/-- `authorize` is what the passed function did. The expiry of an undecided proposal
commits before it is reported. -/
def decideProposal (ledger : Ledger) (input : DecideProposalInput) (now : Time)
    (authorize : Except Failure Unit) : Ledger × Except Failure Unit :=
  match lockProposal codec ledger input.proposalId input.approvalId with
  | .error failure => (ledger, .error failure)
  | .ok (entry, _) =>
    let proposal := entry.proposal
    let approval := entry.approval
    if proposal.status != .pending || approval.status != .pending then
      (ledger, refuse "PROPOSAL_NOT_PENDING" "Proposal is no longer awaiting a decision" 409)
    else if proposal.expiresAt ≤ now || approval.expiresAt ≤ now then
      commitWith ledger
        (updateStatuses ledger input.proposalId input.approvalId .pending .pending
          (fun proposal => { proposal with status := .expired })
          (fun approval => { approval with status := .expired, decidedAt := some now }))
        (refuse "PROPOSAL_EXPIRED" "Proposal has expired" 409)
    else if proposal.sourceKind == .agent && proposal.requesterUserId != some input.userId then
      (ledger, refuse "APPROVAL_FORBIDDEN" "Only the owning interactive user can decide this proposal" 403)
    else if input.decisionNote.any fun note => note.length > 4000 then
      (ledger, refuse "INVALID_DECISION_NOTE" "Decision note is too long" 400)
    else match authorize with
      | .error failure => (ledger, .error failure)
      | .ok () =>
        commitWith ledger
          (updateStatuses ledger input.proposalId input.approvalId .pending .pending
            (fun proposal => { proposal with status := input.decision.proposalStatus })
            (fun approval => { approval with
              status := input.decision.approvalStatus
              decidedAt := some now
              approvedByUserId := if input.decision == .approved then some input.userId else none
              decisionNote := input.decisionNote }))
          (.ok ())

/-! ## Applying a proposal -/

structure ApplyProposalInput where
  (proposalId approvalId : Uuid)
  authority : ActionAuthority
  leaseToken : Option JsString
  deriving DecidableEq, Repr

def assertApplyingAuthority (proposal : ProposalRecord) (authority : ActionAuthority) :
    Except Failure Unit :=
  if authority.actionName != js "pages.applyProposal" then
    refuse "INVALID_APPLY_AUTHORITY" "Apply requires pages.applyProposal authority" 400
  else if proposal.sourceKind != authority.transport then
    refuse "INVALID_APPLY_AUTHORITY" "Proposal transport does not match apply authority" 403
  else
    let own := match authority.requester with
      | .user userId =>
        proposal.requesterUserId == some userId && proposal.requesterApiKeyId == none
      | .apiKey apiKeyId =>
        proposal.requesterApiKeyId == some apiKeyId && proposal.requesterUserId == none
    if own then .ok ()
    else refuse "INVALID_APPLY_AUTHORITY" "Proposal requester does not match apply authority" 403

def executionOfProposal (ledger : Ledger) (proposalId : Uuid) : Option ExecutionRow :=
  (find ledger proposalId).bind fun entry => entry.execution

/-- `commitResult`. An execution that has its result already is answered as it is. -/
def commitResult (ledger : Ledger) (proposalId executionId : Uuid) (rawResult : Value)
    (now : Time) : Except Failure Ledger :=
  match (find ledger proposalId).bind fun entry =>
      (entry.execution.filter fun execution => execution.id == executionId).map fun execution =>
        (entry.proposal, execution) with
  | none => refuse "PROPOSAL_LEDGER_CORRUPT" "Proposal execution claim disappeared" 500
  | some (proposal, execution) =>
    if execution.status == .committed && execution.result.isSome then
      if execution.result.all fun result => (codec.parse result).isSome then .ok ledger
      else refuse "PROPOSAL_LEDGER_CORRUPT" "Committed execution result is invalid" 500
    else if execution.status != .applying && execution.status != .recoveryRequired then
      refuse "PROPOSAL_EXECUTION_TERMINAL" "Proposal execution is already terminal" 409
    else if proposal.status != .applying && proposal.status != .recoveryRequired then
      refuse "PROPOSAL_STATE_CHANGED" "Proposal completion lost its execution fence" 409
    else match codec.canonicalJson rawResult with
      | none => .error .thrown
      | some result =>
        if proposal.resultCanonicalSha256.any fun hash => codec.sha256 result != hash then
          refuse "PROPOSAL_RESULT_MISMATCH"
            "Mutation result does not match the approved immutable proposal" 409
        else
          let executionWhere := fun row : ExecutionRow =>
            row.id == execution.id && row.inputHash == proposal.inputHash &&
              (row.status == .applying || row.status == .recoveryRequired)
          let proposalWhere := fun row : ProposalRecord =>
            row.id == proposal.id && row.inputHash == proposal.inputHash &&
              (row.status == .applying || row.status == .recoveryRequired)
          let ledger' := updateExecutions executionWhere (fun row => { row with
            status := .committed
            completedAt := some now
            result := some result
            error := none }) ledger
          if executionsUpdated executionWhere ledger != 1 ||
              proposalsUpdated proposalWhere ledger' != 1 then
            refuse "PROPOSAL_STATE_CHANGED" "Proposal completion lost its execution fence" 409
          else .ok (updateProposals proposalWhere (fun row => { row with
            status := .applied
            appliedAt := some now
            applyResult := some result }) ledger')

def loadRecoveryContext (ledger : Ledger) (input : ApplyProposalInput) (prior : ExecutionRow) :
    Except Failure ProposalRecord := do
  let (entry, _) ← lockProposal codec ledger input.proposalId input.approvalId
  assertApplyingAuthority entry.proposal input.authority
  if entry.approval.status != .approved || entry.approval.approvedByUserId == none then
    refuse "PROPOSAL_NOT_APPROVED" "Proposal is not approved" 409
  else if entry.proposal.status != .applying && entry.proposal.status != .recoveryRequired then
    refuse "PROPOSAL_STATE_CHANGED" "Proposal execution state is inconsistent" 409
  else if prior.inputHash != entry.proposal.inputHash then
    refuse "PROPOSAL_LEDGER_TAMPERED" "Proposal execution input hash does not match" 409
  else .ok entry.proposal

/-- The execution row of a claim on `entry`, approved by `approver`. -/
def claimedExecution (entry : Entry) (approver : Int) (executionId : Uuid)
    (leaseToken : Option JsString) (now : Time) : ExecutionRow where
  id := executionId
  proposalId := entry.proposal.id
  runId := entry.proposal.runId
  actionName := entry.proposal.actionName
  requesterUserId := entry.proposal.requesterUserId
  requesterApiKeyId := entry.proposal.requesterApiKeyId
  approvedByUserId := approver
  idempotencyKey := codec.sha256
    (codec.claimKey entry.proposal.id entry.proposal.authoritySha256 entry.proposal.inputHash)
  leaseToken := leaseToken
  status := .applying
  inputHash := entry.proposal.inputHash
  startedAt := now
  completedAt := none
  result := none
  error := none

/-- The claim transaction; it answers the proposal that `mutate` is called with. -/
def claimExecution (ledger : Ledger) (input : ApplyProposalInput) (executionId : Uuid) (now : Time)
    (aborted : Bool) (reauthorize : Except Failure Unit) : Except Failure (Ledger × ProposalRecord) := do
  let (entry, _) ← lockProposal codec ledger input.proposalId input.approvalId
  let proposal := entry.proposal
  assertApplyingAuthority proposal input.authority
  match entry.approval.approvedByUserId with
  | none => refuse "PROPOSAL_NOT_APPROVED" "Proposal is not approved" 409
  | some approver =>
    if proposal.status != .approved || entry.approval.status != .approved then
      refuse "PROPOSAL_NOT_APPROVED" "Proposal is not approved" 409
    else if proposal.expiresAt ≤ now then
      refuse "PROPOSAL_EXPIRED" "Proposal has expired" 409
    else if aborted then
      refuse "ACTION_CANCELLED" "Proposal apply was cancelled" 409
    else do
      reauthorize
      if entry.execution.isSome then
        refuse "PROPOSAL_EXECUTION_IN_PROGRESS"
          "Proposal already has a non-terminal execution claim" 409
      else if ledger.any fun other => other.execution.any fun row => row.id == executionId then
        .error .thrown
      else
        let execution := claimedExecution codec entry approver executionId input.leaseToken now
        let inserted := Table.updateWhere (fun other : Entry => other.proposal.id == proposal.id)
          (fun other => { other with execution := some execution }) ledger
        let proposalWhere := fun row : ProposalRecord =>
          row.id == proposal.id && row.status == .approved
        if proposalsUpdated proposalWhere inserted != 1 then
          refuse "PROPOSAL_STATE_CHANGED" "Proposal state changed concurrently" 409
        else
          return (updateProposals proposalWhere (fun row => { row with status := .applying })
            inserted, { proposal with status := .applying })

/-- Both rows leave `applying` where they are in it. -/
def leaveApplying (ledger : Ledger) (executionId proposalId : Uuid)
    (execution : ExecutionRow → ExecutionRow) (status : ProposalStatus) : Ledger :=
  updateProposals (fun row => row.id == proposalId && row.status == .applying)
    (fun row => { row with status := status })
    (updateExecutions (fun row => row.id == executionId && row.status == .applying) execution ledger)

/-- A creation whose first attempt was interrupted and cannot be attributed. -/
def requireRecovery (ledger : Ledger) (executionId proposalId : Uuid) : Ledger :=
  leaveApplying ledger executionId proposalId
    (fun row => { row with status := .recoveryRequired }) .recoveryRequired

def isCreation (proposal : ProposalRecord) : Bool := proposal.actionName == js "pages.prepareCreate"

/-- The transaction after a mutation that threw and was not found committed. -/
def failExecution (ledger : Ledger) (executionId proposalId : Uuid) (recoveryRequired : Bool)
    (now : Time) : Ledger :=
  leaveApplying ledger executionId proposalId
    (fun row => { row with
      status := if recoveryRequired then .recoveryRequired else .failed
      completedAt := if recoveryRequired then none else some now
      error := some (if recoveryRequired then js "creation_identity_unavailable"
        else js "mutation_failed") })
    (if recoveryRequired then .recoveryRequired else .failed)

/-! ## Maintenance -/

def proposalRecoveryMilliseconds : Int := 5 * 60000

/-- One round of the loop of `recoverProposalExecutions`. -/
def recoverExecution (ledger : Ledger) (row : ExecutionRow) : Except Failure Ledger :=
  let executionWhere := fun other : ExecutionRow => other.id == row.id && other.status == .applying
  let proposalWhere := fun proposal : ProposalRecord =>
    proposal.id == row.proposalId && proposal.status == .applying
  if executionsUpdated executionWhere ledger != 1 then .ok ledger
  else
    let ledger' := updateExecutions executionWhere
      (fun other => { other with status := .recoveryRequired }) ledger
    if proposalsUpdated proposalWhere ledger' != 1 then
      refuse "PROPOSAL_RECOVERY_CORRUPT"
        "Applying proposal execution has no matching applying proposal" 500
    else .ok (updateProposals proposalWhere (fun proposal => { proposal with status := .recoveryRequired }) ledger')

def recoverProposalExecutions (ledger : Ledger) (now : Time) (batchSize : Nat) :
    Except Failure Ledger :=
  let stale := (ledger.filterMap (·.execution)).filter fun row =>
    row.status == .applying && row.startedAt ≤ now - proposalRecoveryMilliseconds
  let rows := (stale.insertionSort fun a b => a.startedAt ≤ b.startedAt).take batchSize
  rows.foldlM recoverExecution ledger

def undecided (proposal : ProposalRecord) : Bool :=
  proposal.status == .pending || proposal.status == .approved

def expireApprovals (ledger : Ledger) (now : Time) (batchSize : Nat) : Ledger :=
  let due := (ledger.map (·.proposal)).filter fun proposal =>
    undecided proposal && proposal.expiresAt ≤ now
  let proposalIds := ((due.insertionSort fun a b => a.expiresAt ≤ b.expiresAt).take batchSize).map (·.id)
  updateApprovals
    (fun approval => proposalIds.contains approval.proposalId && approval.status == .pending)
    (fun approval => { approval with status := .expired, decidedAt := some now })
    (updateProposals (fun proposal => proposalIds.contains proposal.id && undecided proposal)
      (fun proposal => { proposal with status := .expired }) ledger)

/-- The proposal statements of `tombstoneOwnedSessions`: its select and its update are one step here, though the update
names the ids alone. -/
def cancelSessionProposals (ledger : Ledger) (sessionIds : List Uuid) (now : Time) : Ledger :=
  let proposalIds := ((ledger.map (·.proposal)).filter fun proposal =>
    proposal.sessionId.any (fun sessionId => sessionIds.contains sessionId) && undecided proposal).map (·.id)
  updateApprovals
    (fun approval => proposalIds.contains approval.proposalId && approval.status == .pending)
    (fun approval => { approval with status := .cancelled, decidedAt := some now })
    (updateProposals (fun proposal => proposalIds.contains proposal.id)
      (fun proposal => { proposal with status := .cancelled }) ledger)

end

end TsEpistle.Proposals
