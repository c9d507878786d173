import TsEpistle.Library.Machine
import TsEpistle.Proposals.Ledger

/-! Callers of `applyApprovedProposal` over one ledger, beside decisions, maintenance
and session deletion. Between its transactions a caller may stop for good (a crash)
and anything else may happen; `mutate`, `reconcile` and the authorization functions
answer as they like. `dispatched` records each call of `mutate`, and `accepted` each
approval that `authorize` let through. -/

namespace TsEpistle.Proposals
open Library

/-- What a passed function answered. -/
inductive Answer (Value : Type)
  | throws
  | null
  | value (rawResult : Value)

/-- Where a call of `applyApprovedProposal` stands. -/
inductive Stage (Value : Type)
  | reading
  | loading (prior : ExecutionRow)
  | reconciling (prior : ExecutionRow) (proposal : ProposalRecord)
  | marking (prior : ExecutionRow)
  | committing (executionId : Uuid) (rawResult : Value)
  | claiming
  | dispatching (executionId : Uuid) (proposal : ProposalRecord)
  | mutating (executionId : Uuid) (proposal : ProposalRecord)
  | completing (executionId : Uuid) (proposal : ProposalRecord) (rawResult : Value)
  | rescuing (executionId : Uuid) (proposal : ProposalRecord)
  | failing (executionId : Uuid) (proposal : ProposalRecord)
  | done

structure Caller (Value : Type) where
  input : ApplyProposalInput
  stage : Stage Value

structure Accepted where
  proposalId : Uuid
  userId : Int
  decidedAt : Time
  deriving DecidableEq, Repr

structure System (Value : Type) where
  ledger : Ledger
  callers : Nat → Option (Caller Value)
  dispatched : List Uuid
  accepted : List Accepted

inductive Op (Value : Type)
  | persist (draft : ProposalDraft Value) (resumed : Bool) (proposalId approvalId : Uuid) (now : Time)
  | decide (input : DecideProposalInput) (now : Time) (authorize : Except Failure Unit)
  | expireApprovals (now : Time) (batchSize : Nat)
  | recoverProposalExecutions (now : Time) (batchSize : Nat)
  | deleteSessions (sessionIds : List Uuid) (now : Time)
  | apply (caller : Nat) (input : ApplyProposalInput) (aborted : Bool)
  | readPrior (caller : Nat)
  | loadRecovery (caller : Nat)
  | reconcile (caller : Nat) (answer : Answer Value)
  | requireRecovery (caller : Nat)
  | commit (caller : Nat) (now : Time)
  | claim (caller : Nat) (executionId : Uuid) (now : Time) (aborted : Bool)
      (reauthorize : Except Failure Unit)
  | dispatch (caller : Nat) (aborted : Bool)
  | mutate (caller : Nat) (answer : Option Value)
  | rescue (caller : Nat) (answer : Answer Value)
  | fail (caller : Nat) (now : Time)

section
variable {Value : Type} (codec : Codec Value)

def System.empty : System Value := ⟨[], fun _ => none, [], []⟩

/-- The caller `i` moves on to `stage`. -/
def System.goto (s : System Value) (i : Nat) (input : ApplyProposalInput) (stage : Stage Value) :
    System Value :=
  { s with callers := Function.update s.callers i (some ⟨input, stage⟩) }

def orKeep (ledger : Ledger) (result : Except Failure Ledger) : Ledger :=
  match result with
  | .ok ledger' => ledger'
  | .error _ => ledger

/-- A caller's next step, given where it stands; operations that do not fit its stage
do nothing. -/
def callerStep (s : System Value) (i : Nat) (input : ApplyProposalInput) :
    Stage Value → Op Value → System Value
  | .reading, .readPrior _ =>
    match executionOfProposal s.ledger input.proposalId with
    | none => s.goto i input .claiming
    | some prior => s.goto i input (if prior.status == .committed then .done else .loading prior)
  | .loading prior, .loadRecovery _ =>
    match loadRecoveryContext codec s.ledger input prior with
    | .ok proposal => s.goto i input (.reconciling prior proposal)
    | .error _ => s.goto i input .done
  | .reconciling prior proposal, .reconcile _ answer =>
    match answer with
    | .throws => s.goto i input .done
    | .value rawResult => s.goto i input (.committing prior.id rawResult)
    | .null => s.goto i input (if isCreation proposal then .marking prior else .done)
  | .marking prior, .requireRecovery _ =>
    { s with ledger := requireRecovery s.ledger prior.id input.proposalId }.goto i input .done
  | .committing executionId rawResult, .commit _ now =>
    { s with
      ledger := orKeep s.ledger
        (commitResult codec s.ledger input.proposalId executionId rawResult now) }.goto i input .done
  | .claiming, .claim _ executionId now aborted reauthorize =>
    match claimExecution codec s.ledger input executionId now aborted reauthorize with
    | .ok (ledger, proposal) =>
      { s with ledger := ledger }.goto i input (.dispatching executionId proposal)
    | .error _ => s.goto i input .done
  | .dispatching executionId proposal, .dispatch _ aborted =>
    if aborted then s.goto i input (.rescuing executionId proposal)
    else { s with dispatched := input.proposalId :: s.dispatched }.goto i input
      (.mutating executionId proposal)
  | .mutating executionId proposal, .mutate _ answer =>
    match answer with
    | some rawResult => s.goto i input (.completing executionId proposal rawResult)
    | none => s.goto i input (.rescuing executionId proposal)
  | .completing executionId proposal rawResult, .commit _ now =>
    match commitResult codec s.ledger input.proposalId executionId rawResult now with
    | .ok ledger => { s with ledger := ledger }.goto i input .done
    | .error _ => s.goto i input (.rescuing executionId proposal)
  | .rescuing executionId proposal, .rescue _ answer =>
    match answer with
    | .throws => s.goto i input .done
    | .value rawResult => s.goto i input (.committing executionId rawResult)
    | .null => s.goto i input (.failing executionId proposal)
  | .failing executionId proposal, .fail _ now =>
    { s with
      ledger := failExecution s.ledger executionId input.proposalId (isCreation proposal)
        now }.goto i input .done
  | _, _ => s

def Op.caller : Op Value → Option Nat
  | .readPrior i => some i
  | .loadRecovery i => some i
  | .reconcile i _ => some i
  | .requireRecovery i => some i
  | .commit i _ => some i
  | .claim i _ _ _ _ => some i
  | .dispatch i _ => some i
  | .mutate i _ => some i
  | .rescue i _ => some i
  | .fail i _ => some i
  | _ => none

/-- The caller an operation belongs to takes its step. -/
def callerMove (op : Op Value) (s : System Value) : System Value :=
  match op.caller.bind fun i => (s.callers i).map fun caller => (i, caller) with
  | none => s
  | some (i, caller) => callerStep codec s i caller.input caller.stage op

def exec (op : Op Value) (s : System Value) : System Value :=
  match op with
  | .persist draft resumed proposalId approvalId now =>
    { s with
      ledger := orKeep s.ledger
        (persistProposal codec s.ledger draft resumed proposalId approvalId now) }
  | .decide input now authorize =>
    match decideProposal codec s.ledger input now authorize with
    | (ledger, .ok ()) =>
      { s with
        ledger := ledger
        accepted := if input.decision == .approved then
          ⟨input.proposalId, input.userId, now⟩ :: s.accepted else s.accepted }
    | (ledger, .error _) => { s with ledger := ledger }
  | .expireApprovals now batchSize => { s with ledger := expireApprovals s.ledger now batchSize }
  | .recoverProposalExecutions now batchSize =>
    { s with ledger := orKeep s.ledger (recoverProposalExecutions s.ledger now batchSize) }
  | .deleteSessions sessionIds now =>
    { s with ledger := cancelSessionProposals s.ledger sessionIds now }
  | .apply i input aborted =>
    match s.callers i with
    | none => s.goto i input (if aborted then .done else .reading)
    | some _ => s
  | op => callerMove codec op s

def proposals : Machine (System Value) (Op Value) where
  enabled _ _ := True
  exec := exec codec

abbrev Reachable (s : System Value) : Prop := (proposals codec).Reachable .empty s

end

end TsEpistle.Proposals
