import TsEpistle.Library.Machine
import TsEpistle.Pages.Operations

/-! Approval requests (`server/operations/approvals.ts`) beside the operations on pages. -/

namespace TsEpistle.Pages
open Library
open Outbox (OutboxError Fresh PageMutationOutboxRow)

abbrev Uuid := JsString

inductive ApprovalStatus
  | submitted | approved | changesRequested | published | rejected | cancelled
  deriving DecidableEq, Repr

/-- `['published', 'rejected', 'cancelled'].includes(status)`. -/
def ApprovalStatus.closed : ApprovalStatus → Bool
  | .published | .rejected | .cancelled => true
  | .submitted | .approved | .changesRequested => false

structure ApprovalRequest where
  id : Uuid
  pageId : Nat
  submitterId : Int
  assigneeId : Option Int
  status : ApprovalStatus
  revisionId : Nat
  (revisionUpdatedAt createdAt updatedAt : Time)
  closedAt : Option Time
  deriving DecidableEq, Repr

structure ApprovalTransition where
  requestId : Uuid
  fromStatus : Option ApprovalStatus
  toStatus : ApprovalStatus
  actorId : Int
  revisionId : Nat
  comment : Option JsString
  createdAt : Time
  deriving DecidableEq, Repr

/-- The database, and the ids that `randomUUID` answered for requests. -/
structure System where
  db : PageDatabase
  requests : List ApprovalRequest
  transitions : List ApprovalTransition
  issued : List Uuid

def System.empty : System := ⟨.empty, [], [], []⟩

/-- The requester: `actorId`, and what the access rules and the page locks answer. -/
structure Requester where
  actorId : Except OutboxError Int
  managesSystem : Bool
  (canRead canWrite managesPage : PageRow → Finset Nat → Bool)
  requiresUnlock : Nat → Bool

inductive ApprovalAction
  | approve | requestChanges | reject | cancel | resubmit | publish | reassign
  deriving DecidableEq, Repr

structure SubmitInput where
  pageId : Nat
  expectedSourceRevision : Option Nat
  assigneeId : Option Int
  comment : JsString

structure TransitionInput where
  requestId : Uuid
  action : ApprovalAction
  expectedSourceRevision : Option Nat
  comment : JsString
  assigneeId : Option Int

def approvalForbidden (message : String) : OutboxError := ⟨"APPROVAL_FORBIDDEN", message⟩
def approvalStale (message : String) : OutboxError := ⟨"APPROVAL_STALE", message⟩
def approvalNotFound : OutboxError := ⟨"APPROVAL_NOT_FOUND", "Approval request not found"⟩
def approvalPageNotFound : OutboxError := ⟨"PAGE_NOT_FOUND", "Page not found"⟩
def pageLocked : OutboxError := ⟨"PAGE_LOCKED", "Access denied"⟩
def invalidInput (message : String) : OutboxError := ⟨"INVALID_INPUT", message⟩

/-- `comment || null`. -/
def storedComment (comment : JsString) : Option JsString :=
  if (trim comment).isEmpty then none else some (trim comment)

def requiredSourceRevision (value : Option Nat) : Except OutboxError Nat :=
  match value with
  | some revision =>
    if revision = 0 then
      .error (invalidInput "expectedSourceRevision must be a canonical positive decimal")
    else .ok revision
  | none => .error (invalidInput "expectedSourceRevision must be a canonical positive decimal")

def validAssignee (id : Int) : Bool := 1 ≤ id && id ≤ 2 ^ 53 - 1

def reviewerEligible (requester : Requester) (page : PageRow) (tags : Finset Nat) : Bool :=
  requester.managesSystem || requester.managesPage page tags

def staleRevision (request : ApprovalRequest) (page : PageRow) : Bool :=
  !request.status.closed && request.revisionUpdatedAt ≠ page.updatedAt

def canViewRequest (requester : Requester) (actor : Int) (request : ApprovalRequest)
    (page : PageRow) (tags : Finset Nat) : Bool :=
  requester.canRead page tags && (actor = request.submitterId || some actor = request.assigneeId
    || reviewerEligible requester page tags)

/-- `reviewer` in `transitionApproval`. -/
def isReviewer (requester : Requester) (actor : Int) (request : ApprovalRequest) (page : PageRow)
    (tags : Finset Nat) : Bool :=
  reviewerEligible requester page tags
    && (request.assigneeId.isNone || request.assigneeId = some actor || requester.managesSystem)

section
variable (env : Environment)

def submitPageApproval (requester : Requester) (input : SubmitInput) (id : Uuid) (now : Time)
    (s : System) : Except OutboxError System := do
  let submitterId ← requester.actorId
  let expected ← requiredSourceRevision input.expectedSourceRevision
  if input.assigneeId.any fun id => !validAssignee id then
    .error (invalidInput "assigneeId must be a positive integer")
  else
    match s.db.pages input.pageId with
    | none => .error approvalPageNotFound
    | some page =>
      if !requester.canWrite page (s.db.pageTags page.id) then .error approvalPageNotFound
      else if requester.requiresUnlock page.id then .error pageLocked
      else if page.sourceRevision ≠ expected then
        .error (approvalStale "The page changed before approval submission")
      else if s.requests.any fun r => r.pageId = page.id && !r.status.closed then
        .error ⟨"APPROVAL_ACTIVE", "This page already has an active approval request"⟩
      else
        let version := s.db.version page "approval-submitted"
        let request : ApprovalRequest :=
          ⟨id, page.id, submitterId, input.assigneeId, .submitted, version.id, page.updatedAt, now, now, none⟩
        return {
          db := s.db.addVersion version
          requests := s.requests ++ [request]
          transitions := s.transitions ++ [⟨id, none, .submitted, submitterId, version.id,
            storedComment input.comment, now⟩]
          issued := id :: s.issued }

/-- `publishPage`. -/
def publishPage (page : PageRow) (actor : Int) (now : Time) (fresh : Fresh) (db : PageDatabase) :
    Except OutboxError PageDatabase :=
  let db := db.addVersion (db.version page "approval-published")
  let next := page.patched { page.columns with isPublished := true, authorId := actor } none now
  enqueue env (presentEffects next .update none) fresh (db.putPage next)

/-- The request after an action, and the database. -/
def transitionAction (requester : Requester) (actor : Int) (input : TransitionInput)
    (expected : Nat) (request : ApprovalRequest) (page : PageRow) (now : Time) (fresh : Fresh)
    (db : PageDatabase) : Except OutboxError (ApprovalRequest × PageDatabase) :=
  let tags := db.pageTags page.id
  let admin := requester.managesSystem
  let reviewer := isReviewer requester actor request page tags
  let submitter : Bool := request.submitterId = actor
  match input.action with
  | .approve =>
    if request.status ≠ .submitted || !reviewer then
      .error (approvalForbidden "Approval is not allowed")
    else if staleRevision request page then
      .error (approvalStale "The submitted revision is stale")
    else .ok ({ request with status := .approved }, db)
  | .requestChanges =>
    if request.status ≠ .submitted || !reviewer then
      .error (approvalForbidden "Review is not allowed")
    else .ok ({ request with status := .changesRequested }, db)
  | .reject =>
    if request.status ≠ .submitted || !reviewer then
      .error (approvalForbidden "Rejection is not allowed")
    else .ok ({ request with status := .rejected }, db)
  | .cancel =>
    if !submitter && !admin then .error (approvalForbidden "Cancellation is not allowed")
    else if request.status.closed then
      .error ⟨"APPROVAL_CLOSED", "Approval request is already closed"⟩
    else .ok ({ request with status := .cancelled }, db)
  | .resubmit =>
    if request.status ≠ .changesRequested || (!submitter && !admin) then
      .error (approvalForbidden "Resubmission is not allowed")
    else if !requester.canWrite page tags then
      .error (approvalForbidden "Resubmission is not allowed")
    else if page.sourceRevision ≠ expected then
      .error (approvalStale "The page changed before approval resubmission")
    else
      let version := db.version page "approval-resubmitted"
      .ok ({ request with
          status := .submitted, revisionId := version.id, revisionUpdatedAt := page.updatedAt },
        db.addVersion version)
  | .publish =>
    if request.status ≠ .approved || !reviewer then
      .error (approvalForbidden "Publication is not allowed")
    else if staleRevision request page then
      .error (approvalStale "The approved revision is stale")
    else do
      let db ← publishPage env page actor now fresh db
      return ({ request with status := .published }, db)
  | .reassign =>
    if !reviewer && !admin then .error (approvalForbidden "Reassignment is not allowed")
    else
      match input.assigneeId with
      | none => .error (invalidInput "assigneeId must be a positive integer")
      | some id =>
        if !validAssignee id then
          .error (invalidInput "assigneeId must be a positive integer")
        else .ok ({ request with assigneeId := some id }, db)

/-- The columns that every action writes. -/
def stamped (request : ApprovalRequest) (now : Time) : ApprovalRequest :=
  { request with updatedAt := now, closedAt := if request.status.closed then some now else none }

/-- Only a resubmission names the revision it is about. -/
def resubmittedRevision (input : TransitionInput) : Except OutboxError Nat :=
  if input.action = .resubmit then requiredSourceRevision input.expectedSourceRevision else .ok 0

def transitionApproval (requester : Requester) (input : TransitionInput) (now : Time)
    (fresh : Fresh) (s : System) : Except OutboxError System := do
  if (input.action = .requestChanges || input.action = .reject) && (trim input.comment).isEmpty then
    .error ⟨"COMMENT_REQUIRED", "A review comment is required"⟩
  else do
    let actor ← requester.actorId
    let expected ← resubmittedRevision input
    match Table.get ApprovalRequest.id s.requests input.requestId with
    | none => .error approvalNotFound
    | some request =>
      match s.db.pages request.pageId with
      | none => .error approvalPageNotFound
      | some page =>
        if !canViewRequest requester actor request page (s.db.pageTags page.id) then
          .error approvalNotFound
        else if requester.requiresUnlock page.id then .error pageLocked
        else do
          let (next, db) ← transitionAction env requester actor input expected request page now
            fresh s.db
          let next := stamped next now
          return { s with
            db
            requests := Table.replace ApprovalRequest.id next s.requests
            transitions := s.transitions ++ [⟨request.id, some request.status, next.status,
              actor, next.revisionId, storedComment input.comment, now⟩] }

/-! ## Runs -/

/-- An operation on pages. `page` was read earlier; `outbox` is what the workers of the outbox
leave. -/
inductive PageOp
  | create (call : Call) (opts : CreatePageOptions)
  | update (call : Call) (page : PageRow) (opts : UpdatePageOptions)
  | changeVisibility (call : Call) (page : PageRow) (visibility : Outbox.PageVisibility)
      (expected : Option Nat)
  | transferOwnership (call : Call) (page : PageRow) (ownerId : Int) (expected : Option Nat)
  | convert (call : Call) (page : PageRow) (opts : ConvertPageOptions)
  | move (call : Call) (page : PageRow) (opts : MovePageOptions)
  | migrate (call : Call) (pageId : Nat) (targetLocale : JsString)
  | applyTaxonomy (call : Call) (pageId : Nat) (tags : Finset Nat) (extra : JsString → JsString)
  | reassignAccount (pageId : Nat) (id replaceId : Int)
  | delete (call : Call) (page : PageRow) (expected : Option Nat)
  | restore (call : Call) (opts : RestoreOptions)
  | outbox (rows : List PageMutationOutboxRow)

def PageOp.run (db : PageDatabase) : PageOp → Except OutboxError PageDatabase
  | .create call opts => createPage env call opts db
  | .update call page opts => updatePage env call page opts db
  | .changeVisibility call page visibility expected =>
    Pages.changeVisibility env call page visibility expected db
  | .transferOwnership call page ownerId expected =>
    Pages.transferOwnership env call page ownerId expected db
  | .convert call page opts => convertPage env call page opts db
  | .move call page opts => movePage env call page opts db
  | .migrate call pageId targetLocale => migratePage env call pageId targetLocale db
  | .applyTaxonomy call pageId tags extra => Pages.applyTaxonomy env call pageId tags extra db
  | .reassignAccount pageId id replaceId => Pages.reassignAccount pageId id replaceId db
  | .delete call page expected => deletePage env call page expected db
  | .restore call opts => restoreDeletedPage env call opts db
  | .outbox rows => .ok { db with outbox := rows }

/-- The row that an operation read before its transaction. -/
def PageOp.read : PageOp → Option PageRow
  | .update _ page _ | .changeVisibility _ page _ _ | .transferOwnership _ page _ _
  | .convert _ page _ | .move _ page _ | .delete _ page _ => some page
  | _ => none

/-- The workers of the outbox keep the payload of every effect and admit effects only at the
revision of a page. -/
def workersMayLeave (db : PageDatabase) (rows : List PageMutationOutboxRow) : Prop :=
  (∀ row ∈ db.outbox, ∃ row' ∈ rows, row'.key = row.key ∧ row'.payload = row.payload) ∧
  (∀ row' ∈ rows, (∃ row ∈ db.outbox, row'.key = row.key ∧ row'.payload = row.payload) ∨
    ∃ page, db.pages row'.pageId = some page ∧ row'.sourceRevision = page.sourceRevision)

def PageOp.enabled (db : PageDatabase) (op : PageOp) : Prop :=
  (∀ page, op.read = some page → page ∈ db.committed) ∧
  (∀ rows, op = .outbox rows → workersMayLeave db rows)

inductive Op
  | page (op : PageOp)
  | submit (requester : Requester) (input : SubmitInput) (id : Uuid) (now : Time)
  | transition (requester : Requester) (input : TransitionInput) (now : Time) (fresh : Fresh)

/-- A page that is deleted takes its requests along. -/
def cascade (db : PageDatabase) (s : System) : System :=
  let requests := s.requests.filter fun request => (db.pages request.pageId).isSome
  { s with
    db, requests
    transitions := s.transitions.filter fun transition =>
      requests.any fun request => request.id = transition.requestId }

def Op.run (s : System) : Op → Except OutboxError System
  | .page op => (op.run env s.db).map fun db => cascade db s
  | .submit requester input id now => submitPageApproval requester input id now s
  | .transition requester input now fresh => transitionApproval env requester input now fresh s

/-- A transaction that throws leaves everything as it was. -/
def exec (op : Op) (s : System) : System :=
  match op.run env s with
  | .ok s' => s'
  | .error _ => s

def Op.enabled (s : System) : Op → Prop
  | .page op => op.enabled s.db
  | .submit _ _ id _ => id ∉ s.issued
  | .transition .. => True

def workflow : Machine System Op where
  enabled op s := op.enabled s
  exec := exec env

end

end TsEpistle.Pages
