import TsEpistle.Library.Machine
import TsEpistle.Outbox.Execution

/-! Any number of workers and claims on the outbox of all pages. A transaction that
holds a page's lock is one operation; a claim runs in its statements and a worker in
the database statements of `executePageMutationEffect`, each on the database as it is
then. Nothing orders the clock readings. The render, search and knowledge sinks may
answer anything; of the render sink the publication is an operation, of the search
sink its writes and its render admission. -/

namespace TsEpistle.Outbox
open Library

/-- Where `executePageMutationEffect` is. -/
inductive Stage
  | claimed
  | owned
  | deletingLinks
  | readingRemaining
  | readingRender (before : ProjectionPageRow) (location : PageProjectionLocation)
  | replacingLinks (before : ProjectionPageRow) (links : List PageLinkIdentity)
  | finishing (update : FinishUpdate)
  | done
  deriving DecidableEq, Repr

structure Worker where
  claim : ClaimedPageProjectionEffect
  stage : Stage
  deriving DecidableEq, Repr

/-- Where `claimPageMutationEffects` is; `progress` holds once the round has claimed or
quarantined a row. -/
inductive ClaimStage
  | probed
  | expired (now : Time)
  | selecting (now : Time) (limit : Int) (claimed : Nat)
  | granting (now : Time) (limit : Int) (rows : List PageMutationOutboxRow) (claimed : Nat)
      (progress : Bool)
  | done
  deriving DecidableEq, Repr

structure ClaimCall where
  input : ClaimInput
  stage : ClaimStage
  deriving DecidableEq, Repr

structure System where
  db : Database
  workers : List Worker
  calls : List ClaimCall
  issued : List Uuid

inductive Op
  | createPage (id : Nat) (edit : PageEdit) (fresh : Fresh)
  | editPage (id : Nat) (edit : PageEdit) (action : Action)
      (previousLocation : Option PageProjectionLocation) (fresh : Fresh)
  | deletePage (id : Nat) (fresh : Fresh)
  | admitPageRenderEffect (input : RenderAdmissionInput) (fresh : Fresh) (now : Time)
  | admitPageSearchEffect (pageId : Nat) (fresh : Fresh) (now : Time)
  | repairSearchPage (pageId : Nat) (fresh : Fresh)
  | maintainGraphEffects (pageId : Nat) (fresh : Fresh)
  | setPassword (pageId : Nat) (isProtected : Bool)
  | writeSearchRows (pageId : Nat) (rows : SearchRows)
  | beginClaim (input : ClaimInput) (now : Time)
  | expireLeases (call : Nat) (now : Time)
  | countActive (call : Nat)
  | selectRows (call : Nat) (skipLocked : List Uuid)
  | grantNext (call : Nat) (leaseToken : Uuid)
  | checkLease (worker : Nat) (now : Time)
  | noSink (worker : Nat)
  | readPage (worker : Nat)
  | deleteLinks (worker : Nat)
  | readRemaining (worker : Nat)
  | readRenderEffect (worker : Nat) (now : Time)
  | replaceLinks (worker : Nat)
  | throws (worker : Nat) (message : String) (now : Time)
  | renderPage (worker : Nat) (output : JsString) (now : Time)
  | ensureSearchRender (worker : Nat) (fresh : Fresh)
  | otherSink (worker : Nat) (answer : Option PageProjectionSinkResult)
  | heartbeat (worker : Nat) (now : Time)
  | finish (worker : Nat) (now : Time)

def Database.empty : Database where
  pages _ := none
  outbox := []
  pageLinks _ := []
  searchRows _ := ⟨none, false⟩
  pageAccessPasswords _ := false

def System.empty : System := ⟨.empty, [], [], []⟩

variable (env : Environment)

/-! ## What an operation does to the database -/

/-- The search sink admits the render it waits for. -/
def ensureSearchRender (payload : PageProjectionPayload) (fresh : Fresh) (db : Database) :
    Except OutboxError Database :=
  match db.pages payload.pageId with
  | none => .ok db
  | some page =>
    if isExactProjectionSource env page payload then
      (ensureRenderDependency env page fresh fresh.now db).map Prod.fst
    else .ok db

/-- The transactions under a page's lock. -/
def transaction (s : System) : Op → Except OutboxError Database
  | .createPage id edit fresh => createPage env id edit fresh s.db
  | .editPage id edit action previousLocation fresh =>
    editPage env id edit action previousLocation fresh s.db
  | .deletePage id fresh => deletePage env id fresh s.db
  | .admitPageRenderEffect input fresh now =>
    (admitPageRenderEffect env input fresh now s.db).map Prod.fst
  | .admitPageSearchEffect pageId fresh now =>
    (admitPageSearchEffect env pageId fresh now s.db).map Prod.fst
  | .repairSearchPage pageId fresh => (repairSearchPage env pageId fresh s.db).map Prod.fst
  | .maintainGraphEffects pageId fresh => maintainGraphEffects env pageId fresh s.db
  | .setPassword pageId isProtected => .ok { s.db with
      pageAccessPasswords := Function.update s.db.pageAccessPasswords pageId isProtected }
  | .writeSearchRows pageId rows => .ok { s.db with
      searchRows := Function.update s.db.searchRows pageId rows }
  | .deleteLinks i =>
    match s.workers[i]? with
    | some ⟨claim, .deletingLinks⟩ => .ok { s.db with
        pageLinks := Function.update s.db.pageLinks claim.payload.pageId [] }
    | _ => .ok s.db
  | .replaceLinks i =>
    match s.workers[i]? with
    | some ⟨claim, .replacingLinks before links⟩ =>
      .ok (replaceLinks env claim.payload before links s.db).1
    | _ => .ok s.db
  | .renderPage i output now =>
    match s.workers[i]? with
    | some ⟨claim, .owned⟩ =>
      if claim.payload.effectKind = .render then .ok (renderPage env claim output now s.db).1
      else .ok s.db
    | _ => .ok s.db
  | .ensureSearchRender i fresh =>
    match s.workers[i]? with
    | some ⟨claim, .owned⟩ =>
      if claim.payload.effectKind = .search then ensureSearchRender env claim.payload fresh s.db
      else .ok s.db
    | _ => .ok s.db
  | _ => .ok s.db

/-- An `UPDATE` of the outbox outside these transactions. -/
structure Update where
  cond : PageMutationOutboxRow → Bool
  set : PageMutationOutboxRow → PageMutationOutboxRow

def update (s : System) : Op → Option Update
  | .expireLeases i now =>
    match s.calls[i]? with
    | some ⟨input, .probed⟩ => some ⟨expiredLease input now, releaseLease now⟩
    | _ => none
  | .grantNext i leaseToken =>
    match s.calls[i]? with
    | some ⟨input, .granting now _ (candidate :: _) _ _⟩ =>
      match parseRowPayload candidate with
      | .error e => some ⟨quarantineWhere candidate, quarantine e now⟩
      | .ok _ => some ⟨grantWhere candidate now, grant input candidate leaseToken now⟩
    | _ => none
  | .heartbeat i now =>
    (s.workers[i]?).map fun worker => ⟨leaseLive worker.claim now, heartbeat now⟩
  | .finish i now =>
    match s.workers[i]? with
    | some ⟨claim, .finishing update⟩ => some ⟨leaseHeld claim, finishClaim update now⟩
    | _ => none
  | _ => none

def databaseAfter (s : System) (op : Op) : Database :=
  match update s op with
  | some u => { s.db with outbox := Table.updateWhere u.cond u.set s.db.outbox }
  | none =>
    match transaction env s op with
    | .ok db => db
    | .error _ => s.db

/-! ## What an operation does to claims and workers -/

/-- The claims after a candidate was dealt with. -/
def nextRound (now : Time) (limit : Int) (rest : List PageMutationOutboxRow) (claimed : Nat)
    (progress : Bool) : ClaimStage :=
  match rest with
  | [] => if progress then .selecting now limit claimed else .done
  | rest => .granting now limit rest claimed progress

def callsAfter (s : System) : Op → List ClaimCall
  | .beginClaim input now =>
    match input.validate with
    | .ok _ => if s.db.outbox.any (claimProbe input now) then s.calls ++ [⟨input, .probed⟩]
        else s.calls
    | .error _ => s.calls
  | .expireLeases i now =>
    match s.calls[i]? with
    | some ⟨input, .probed⟩ => s.calls.set i ⟨input, .expired now⟩
    | _ => s.calls
  | .countActive i =>
    match s.calls[i]? with
    | some ⟨input, .expired now⟩ =>
      let limit := grantLimit input (activeEffects input now s.db.outbox)
      s.calls.set i ⟨input, if limit = 0 then .done else .selecting now limit 0⟩
    | _ => s.calls
  | .selectRows i skipLocked =>
    match s.calls[i]? with
    | some ⟨input, .selecting now limit claimed⟩ =>
      if (claimed : Int) < limit then
        match selectReady env input now (limit - claimed).toNat skipLocked s.db with
        | [] => s.calls.set i ⟨input, .done⟩
        | rows => s.calls.set i ⟨input, .granting now limit rows claimed false⟩
      else s.calls.set i ⟨input, .done⟩
    | _ => s.calls
  | .grantNext i _ =>
    match s.calls[i]? with
    | some ⟨input, .granting now limit (candidate :: rest) claimed progress⟩ =>
      match parseRowPayload candidate with
      | .error _ =>
        let removed := Table.updated (quarantineWhere candidate) s.db.outbox == 1
        s.calls.set i ⟨input, nextRound now limit rest claimed (progress || removed)⟩
      | .ok _ =>
        let granted := Table.updated (grantWhere candidate now) s.db.outbox == 1
        s.calls.set i ⟨input, nextRound now limit rest (if granted then claimed + 1 else claimed) (progress || granted)⟩
    | _ => s.calls
  | _ => s.calls

/-- The worker a grant starts. -/
def granted (s : System) : Op → Option Worker
  | .grantNext i leaseToken =>
    match s.calls[i]? with
    | some ⟨_, .granting now _ (candidate :: _) _ _⟩ =>
      match parseRowPayload candidate with
      | .error _ => none
      | .ok payload =>
        if Table.updated (grantWhere candidate now) s.db.outbox == 1 then
          some ⟨⟨candidate.id, leaseToken, candidate.attempts + 1, payload⟩, .claimed⟩
        else none
    | _ => none
  | _ => none

/-- The stages inside the call of a sink. -/
def Stage.inSink : Stage → Bool
  | .owned | .deletingLinks | .readingRemaining => true
  | .readingRender _ _ | .replacingLinks _ _ => true
  | _ => false

def afterPlan : LinksPlan → Stage
  | .answer result => .finishing (sinkAnswered (some result))
  | .deleteLinks => .deletingLinks
  | .readRender before location => .readingRender before location

/-- The next stage of a worker that an operation moves. -/
def nextStage (db : Database) (worker : Worker) : Op → Stage
  | .checkLease _ now =>
    match worker.stage with
    | .claimed => if db.outbox.any (leaseLive worker.claim now) then .owned else .done
    | stage => stage
  | .noSink _ =>
    match worker.stage with
    | .owned => .finishing missingSink
    | stage => stage
  | .readPage _ =>
    match worker.stage with
    | .owned =>
      if worker.claim.payload.effectKind = .links then
        afterPlan (linksPlan env worker.claim.payload (db.pages worker.claim.payload.pageId))
      else .owned
    | stage => stage
  | .deleteLinks _ =>
    match worker.stage with
    | .deletingLinks => .readingRemaining
    | stage => stage
  | .readRemaining _ =>
    match worker.stage with
    | .readingRemaining => .finishing (sinkAnswered (some (deletedResult worker.claim.payload
        (db.pageLinks worker.claim.payload.pageId ≠ []))))
    | stage => stage
  | .readRenderEffect _ now =>
    match worker.stage with
    | .readingRender before location =>
      if linksReady worker.claim.payload before db.outbox then
        .replacingLinks before (extractRenderedPageLinks env before.render location.locale)
      else .finishing (sinkThrew worker.claim renderNotReady now)
    | stage => stage
  | .replaceLinks _ =>
    match worker.stage with
    | .replacingLinks before links => .finishing (sinkAnswered (some
        (replaceLinks env worker.claim.payload before links db).2))
    | stage => stage
  | .throws _ message now =>
    if worker.stage.inSink then .finishing (sinkThrew worker.claim message now)
    else worker.stage
  | .otherSink _ answer =>
    match worker.stage with
    | .owned =>
      if worker.claim.payload.effectKind = .links then .owned
      else .finishing (sinkAnswered answer)
    | stage => stage
  | .finish _ _ =>
    match worker.stage with
    | .finishing _ => .done
    | stage => stage
  | _ => worker.stage

/-- The worker an operation moves. -/
def Op.worker : Op → Option Nat
  | .checkLease i _ | .noSink i | .readPage i | .deleteLinks i | .readRemaining i => some i
  | .readRenderEffect i _ | .replaceLinks i | .throws i _ _ | .renderPage i _ _ => some i
  | .ensureSearchRender i _ | .otherSink i _ | .heartbeat i _ | .finish i _ => some i
  | _ => none

def workersAfter (s : System) (op : Op) : List Worker :=
  match op.worker with
  | some i => s.workers.modify i fun worker =>
    { worker with stage := nextStage env s.db worker op }
  | none => s.workers ++ (granted s op).toList

def Fresh.ids (fresh : Fresh) : List Uuid := pageProjectionEffectKinds.map fresh.id

/-- What `randomUUID` answers during an operation. -/
def Op.issues : Op → List Uuid
  | .createPage _ _ fresh | .editPage _ _ _ _ fresh | .deletePage _ fresh => fresh.ids
  | .admitPageRenderEffect _ fresh _ | .admitPageSearchEffect _ fresh _ => fresh.ids
  | .repairSearchPage _ fresh | .maintainGraphEffects _ fresh => fresh.ids
  | .ensureSearchRender _ fresh => fresh.ids
  | .grantNext _ leaseToken => [leaseToken]
  | _ => []

/-- The id of a page comes from a sequence: it had no effect before. -/
def Op.newPage (s : System) : Op → Prop
  | .createPage id _ _ => s.db.pages id = none ∧ ∀ row ∈ s.db.outbox, row.pageId ≠ id
  | _ => True

instance (s : System) : ∀ op, Decidable (Op.newPage s op)
  | .createPage id _ _ =>
    inferInstanceAs (Decidable (s.db.pages id = none ∧ ∀ row ∈ s.db.outbox, row.pageId ≠ id))
  | .editPage _ _ _ _ _ | .deletePage _ _ | .admitPageRenderEffect _ _ _
  | .admitPageSearchEffect _ _ _ | .repairSearchPage _ _ | .maintainGraphEffects _ _
  | .setPassword _ _ | .writeSearchRows _ _ | .beginClaim _ _ | .expireLeases _ _
  | .countActive _ | .selectRows _ _ | .grantNext _ _ | .checkLease _ _ | .noSink _
  | .readPage _ | .deleteLinks _ | .readRemaining _ | .readRenderEffect _ _ | .replaceLinks _
  | .throws _ _ _ | .renderPage _ _ _ | .ensureSearchRender _ _ | .otherSink _ _
  | .heartbeat _ _ | .finish _ _ => .isTrue trivial

def outbox : Machine System Op where
  enabled op s := (op.issues.Nodup ∧ ∀ t ∈ op.issues, t ∉ s.issued) ∧ op.newPage s
  exec op s :=
    { db := databaseAfter env s op
      workers := workersAfter env s op
      calls := callsAfter env s op
      issued := op.issues ++ s.issued }

instance (op : Op) (s : System) : Decidable ((outbox env).enabled op s) :=
  inferInstanceAs (Decidable ((op.issues.Nodup ∧ ∀ t ∈ op.issues, t ∉ s.issued) ∧ op.newPage s))

abbrev Reachable (s : System) : Prop := (outbox env).Reachable .empty s

end TsEpistle.Outbox
