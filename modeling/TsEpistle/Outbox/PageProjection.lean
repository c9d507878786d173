import TsEpistle.Library.JsString
import TsEpistle.Library.Table

/-! The page mutation outbox (`server/core/page-mutation-outbox.ts`): admission of
projection effects, the transactions that hold a page's lock, and the statements of
a claim. A transaction answers the new database or an error, after which nothing
changed. A row stores its payload decoded: `payload` and `payloadSha256` are written
together and no statement changes either. Source revisions are positive from the
column's default on, so `revisionString` is the identity. -/

namespace TsEpistle.Outbox
open Library

abbrev Uuid := JsString
abbrev Time := Int

inductive PageProjectionEffectKind
  | render | links | search | knowledge
  deriving DecidableEq, Repr

inductive PageProjectionDesiredState
  | present | absent
  deriving DecidableEq, Repr

inductive Action
  | create | update | restore | convert | move | visibility | ownership | delete
  deriving DecidableEq, Repr

inductive PageVisibility
  | «public» | «private»
  deriving DecidableEq, Repr

structure PageProjectionLocation where
  (locale path : JsString)
  visibility : PageVisibility
  ownerId : Option Int
  deriving DecidableEq, Repr

structure PageProjectionPayload where
  effectKind : PageProjectionEffectKind
  desiredState : PageProjectionDesiredState
  action : Action
  (pageId sourceRevision : Nat)
  sourceSha256 : Option JsString
  (location previousLocation : Option PageProjectionLocation)
  deriving DecidableEq, Repr

/-- A `PageMutationOutboxError`, or another error with an empty code. -/
structure OutboxError where
  (code message : String)
  deriving DecidableEq, Repr

/-- The `result` column. `other` holds what the render, search and knowledge sinks
answer. -/
inductive EffectResult
  | superseded (projection : Option PageProjectionEffectKind)
  | removed (projection : PageProjectionEffectKind) (removed previousIdentityEvicted : Bool)
  | replaced (projection : PageProjectionEffectKind) (replaced : Bool)
      (linkCount : Option Nat) (previousIdentityEvicted : Option Bool)
  | error (message : String)
  | quarantined (code error : String)
  | other (text : JsString)
  deriving DecidableEq, Repr

structure Postcondition where
  satisfied : Bool
  observedSourceRevision : Option Nat
  detail : String
  deriving DecidableEq, Repr

structure PageProjectionSinkResult where
  result : EffectResult
  postcondition : Postcondition
  deriving DecidableEq, Repr

inductive EffectStatus
  | pending | running | retry | succeeded | failed | superseded
  deriving DecidableEq, Repr

/-- `effectKey` is the pair in `page:<pageId>:<effectKind>`. -/
structure PageMutationOutboxRow where
  id : Uuid
  (pageId sourceRevision : Nat)
  effectKind : PageProjectionEffectKind
  effectKey : Nat × PageProjectionEffectKind
  desiredState : PageProjectionDesiredState
  payload : PageProjectionPayload
  status : EffectStatus
  attempts : Nat
  leaseOwner : Option JsString
  leaseToken : Option Uuid
  leaseExpiresAt : Option Time
  availableAt : Time
  result : Option EffectResult
  postcondition : Option Postcondition
  (createdAt updatedAt : Time)
  deriving DecidableEq, Repr

/-- The key of the unique index of the table. -/
def PageMutationOutboxRow.key (row : PageMutationOutboxRow) :
    Nat × Nat × PageProjectionEffectKind :=
  (row.pageId, row.sourceRevision, row.effectKind)

structure ProjectionPageRow where
  (id sourceRevision : Nat)
  content : JsString
  (isPublished isSearchable : Bool)
  render : JsString
  renderedSourceRevision : Option Nat
  (publishStartDate publishEndDate : Option JsString)
  (localeCode path : JsString)
  visibility : PageVisibility
  ownerId : Option Int
  deriving DecidableEq, Repr

structure PageLinkIdentity where
  (localeCode path : JsString)
  deriving DecidableEq, Repr

/-- What `loadSearchRows` reads of `pagesVector` and `pagesWords`. -/
structure SearchRows where
  vector : Option Nat
  hasWords : Bool
  deriving DecidableEq, Repr

structure Database where
  pages : Nat → Option ProjectionPageRow
  outbox : List PageMutationOutboxRow
  pageLinks : Nat → List PageLinkIdentity
  searchRows : Nat → SearchRows
  pageAccessPasswords : Nat → Bool

/-- What the module takes from elsewhere. `timestamp` is
`publicationBoundaryTimestamp` of a nonempty bound (`none` for `NaN`),
`internalHrefs` the `href` of each `a.is-internal-link` that `cheerio` finds, and
`pathname` is `decodeURIComponent(new URL(href, base).pathname)`, `none` where it throws. -/
structure Environment where
  sha256 : JsString → JsString
  timestamp : JsString → Option Time
  internalHrefs : JsString → List (Option JsString)
  pathname : JsString → Option JsString

/-- What `randomUUID` and `new Date` answer while rows are enqueued. -/
structure Fresh where
  id : PageProjectionEffectKind → Uuid
  now : Time

variable (env : Environment)

/-! ## Enqueueing -/

def pageProjectionEffectKinds : List PageProjectionEffectKind :=
  [.render, .links, .search, .knowledge]

def validPageId (pageId : Nat) : Bool := 1 ≤ pageId && pageId ≤ 2 ^ 53 - 1

/-- `PageLocationSchema`. -/
def validLocation (location : PageProjectionLocation) : Bool :=
  1 ≤ location.locale.length && location.locale.length ≤ 35 &&
    1 ≤ location.path.length && location.path.length ≤ 1024 &&
    location.ownerId.all (0 < ·)

def schemaError : OutboxError := ⟨"", "ZodError"⟩

def idempotencyConflict (message : String) : OutboxError :=
  ⟨"OUTBOX_IDEMPOTENCY_CONFLICT", message⟩

/-- `parseRowPayload`: the payload agrees with the indexed columns. -/
def parseRowPayload (row : PageMutationOutboxRow) : Except OutboxError PageProjectionPayload :=
  if row.payload.effectKind = row.effectKind ∧ row.payload.desiredState = row.desiredState ∧
      row.payload.pageId = row.pageId ∧ row.payload.sourceRevision = row.sourceRevision then
    .ok row.payload
  else .error ⟨"INVALID_OUTBOX_PAYLOAD", "Page mutation outbox envelope does not match its indexed fields"⟩

structure EnqueueInput where
  (pageId sourceRevision : Nat)
  desiredState : PageProjectionDesiredState
  action : Action
  source : Option JsString
  (location previousLocation : Option PageProjectionLocation)
  effects : Option (List PageProjectionEffectKind)

def EnqueueInput.payload (input : EnqueueInput) (effectKind : PageProjectionEffectKind) :
    PageProjectionPayload where
  effectKind
  desiredState := input.desiredState
  action := input.action
  pageId := input.pageId
  sourceRevision := input.sourceRevision
  sourceSha256 := input.source.map env.sha256
  location := input.location
  previousLocation := input.previousLocation

def pendingRow (payload : PageProjectionPayload) (id : Uuid) (now : Time) :
    PageMutationOutboxRow where
  id
  pageId := payload.pageId
  sourceRevision := payload.sourceRevision
  effectKind := payload.effectKind
  effectKey := (payload.pageId, payload.effectKind)
  desiredState := payload.desiredState
  payload
  status := .pending
  attempts := 0
  leaseOwner := none
  leaseToken := none
  leaseExpiresAt := none
  availableAt := now
  result := none
  postcondition := none
  createdAt := now
  updatedAt := now

/-- `where({ pageId, sourceRevision, effectKind }).first()`. -/
def effectRow (outbox : List PageMutationOutboxRow) (pageId sourceRevision : Nat)
    (kind : PageProjectionEffectKind) : Option PageMutationOutboxRow :=
  Table.get PageMutationOutboxRow.key outbox (pageId, sourceRevision, kind)

/-- One turn of the loop of `enqueuePageMutationEffects`. -/
def enqueueEffect (input : EnqueueInput) (fresh : Fresh) (outbox : List PageMutationOutboxRow)
    (kind : PageProjectionEffectKind) : Except OutboxError (List PageMutationOutboxRow × Uuid) :=
  let payload := input.payload env kind
  if !(payload.location.all validLocation && payload.previousLocation.all validLocation) then
    .error schemaError
  else
    let row := pendingRow payload (fresh.id kind) fresh.now
    match effectRow outbox input.pageId input.sourceRevision kind with
    | none => .ok (outbox ++ [row], row.id)
    | some existing =>
      if existing.payload = payload ∧ existing.desiredState = input.desiredState then
        .ok (outbox, existing.id)
      else .error (idempotencyConflict "Existing page projection effect has different immutable content")

def enqueueEffects (input : EnqueueInput) (fresh : Fresh) :
    List PageProjectionEffectKind → List PageMutationOutboxRow →
      Except OutboxError (List PageMutationOutboxRow × List Uuid)
  | [], outbox => .ok (outbox, [])
  | kind :: kinds, outbox => do
      let (outbox, id) ← enqueueEffect env input fresh outbox kind
      let (outbox, ids) ← enqueueEffects input fresh kinds outbox
      return (outbox, id :: ids)

def enqueuePageMutationEffects (input : EnqueueInput) (fresh : Fresh)
    (outbox : List PageMutationOutboxRow) :
    Except OutboxError (List PageMutationOutboxRow × List Uuid) :=
  let effects := input.effects.getD pageProjectionEffectKinds
  if !validPageId input.pageId then
    .error ⟨"INVALID_PAGE_ID", "Page mutation page ID is invalid"⟩
  else if input.desiredState = .present ∧ (input.source = none ∨ input.location = none) then
    .error ⟨"INCOMPLETE_PRESENT_STATE", "Present projection state requires exact source and location"⟩
  else if input.desiredState = .absent ∧ (input.source ≠ none ∨ input.location ≠ none) then
    .error ⟨"INVALID_ABSENT_STATE", "Absent projection state cannot carry current source or location"⟩
  else if ¬ effects.Nodup then
    .error ⟨"INVALID_EFFECT_SET", "Page projection effects must be unique and supported"⟩
  else enqueueEffects env input fresh effects outbox

/-! ## The page as projections see it -/

/-- `publicationBoundaryTimestamp`: an empty bound is open, `some none` is `NaN`. -/
def publicationBoundaryTimestamp (value : Option JsString) : Option (Option Time) :=
  match value with
  | none | some [] => none
  | some text => some (env.timestamp text)

def publicationWindowOpen (page : ProjectionPageRow) (now : Time) : Bool :=
  (match publicationBoundaryTimestamp env page.publishStartDate with
    | none => true
    | some start => start.any (· ≤ now)) &&
  (match publicationBoundaryTimestamp env page.publishEndDate with
    | none => true
    | some stop => stop.any (now ≤ ·))

def pageSearchEligible (page : ProjectionPageRow) (now : Time) : Bool :=
  page.visibility = .public && page.isPublished && page.isSearchable && publicationWindowOpen env page now

def hasCertifiedRender (page : ProjectionPageRow) : Bool :=
  page.renderedSourceRevision = some page.sourceRevision

def projectionLocation (page : ProjectionPageRow) : PageProjectionLocation :=
  ⟨page.localeCode, page.path, page.visibility, page.ownerId⟩

def pageLocationMatches (page : ProjectionPageRow) (location : PageProjectionLocation) : Bool :=
  page.localeCode = location.locale && page.path = location.path &&
    page.visibility = location.visibility && page.ownerId = location.ownerId

def isExactProjectionSource (page : ProjectionPageRow) (payload : PageProjectionPayload) : Bool :=
  payload.location.any (pageLocationMatches page) &&
    page.sourceRevision = payload.sourceRevision &&
    payload.sourceSha256 = some (env.sha256 page.content)

/-! ## Admission under the page lock -/

structure AdmitInput where
  (rearm fenceRunning : Bool)
  action : Option Action

/-- The columns a re-arm sets. -/
def rearmed (now : Time) (row : PageMutationOutboxRow) : PageMutationOutboxRow :=
  { row with
    status := .retry, attempts := 0, availableAt := now, result := none, postcondition := none
    leaseOwner := none, leaseToken := none, leaseExpiresAt := none, updatedAt := now }

/-- The enqueue input of `admitCurrentEffect`. -/
def currentEffect (page : ProjectionPageRow) (kind : PageProjectionEffectKind)
    (input : AdmitInput) : EnqueueInput where
  pageId := page.id
  sourceRevision := page.sourceRevision
  desiredState := .present
  action := input.action.getD .update
  source := some page.content
  location := some (projectionLocation page)
  previousLocation := none
  effects := some [kind]

structure Admission where
  id : Uuid
  changed : Bool

def admitCurrentEffect (page : ProjectionPageRow) (kind : PageProjectionEffectKind)
    (input : AdmitInput) (fresh : Fresh) (now : Time) (outbox : List PageMutationOutboxRow) :
    Except OutboxError (List PageMutationOutboxRow × Admission) :=
  match effectRow outbox page.id page.sourceRevision kind with
  | none =>
    match enqueuePageMutationEffects env (currentEffect page kind input) fresh outbox with
    | .error e => .error e
    | .ok (_, []) => .error ⟨"OUTBOX_ADMISSION_FAILED", "Current page projection intent could not be admitted"⟩
    | .ok (outbox, id :: _) => .ok (outbox, ⟨id, true⟩)
  | some existing =>
    match parseRowPayload existing with
    | .error e => .error e
    | .ok payload =>
      if existing.effectKey ≠ (page.id, kind) ∨ payload.desiredState ≠ .present ∨
          isExactProjectionSource env page payload = false then
        .error (idempotencyConflict "Existing projection effect has different immutable content")
      else if (input.rearm && (existing.status = .succeeded || existing.status = .failed) &&
            existing.leaseToken.isNone) ||
          (input.fenceRunning && existing.status = .running) then
        let matching := fun row : PageMutationOutboxRow =>
          row.id = existing.id && row.status = existing.status
        .ok (Table.updateWhere matching (rearmed now) outbox, ⟨existing.id, Table.updated matching outbox == 1⟩)
      else .ok (outbox, ⟨existing.id, false⟩)

/-- The render of a page is withdrawn and the rows derived from it are deleted. -/
def invalidateRenderedProjections (pageId : Nat) (db : Database) : Database :=
  { db with
    pages := Function.update db.pages pageId
      ((db.pages pageId).map fun page => { page with render := [], renderedSourceRevision := none })
    pageLinks := Function.update db.pageLinks pageId []
    searchRows := Function.update db.searchRows pageId ⟨none, false⟩ }

/-- What follows a changed render effect: the projections of the page are withdrawn
and its links and search effects are armed again, running ones included. -/
def rearmRenderedProjections (page : ProjectionPageRow) (fresh : Fresh) (now : Time)
    (db : Database) : Except OutboxError Database := do
  let db := invalidateRenderedProjections page.id db
  let (outbox, _) ← admitCurrentEffect env page .links ⟨true, true, none⟩ fresh now db.outbox
  let (outbox, _) ← admitCurrentEffect env page .search ⟨true, true, none⟩ fresh now outbox
  return { db with outbox }

/-- The admission of the render effect inside `ensureRenderDependency`. -/
def admitRenderDependency (page : ProjectionPageRow) (fresh : Fresh) (now : Time)
    (db : Database) : Except OutboxError (Database × Bool) := do
  let (outbox, render) ←
    admitCurrentEffect env page .render ⟨true, false, none⟩ fresh now db.outbox
  if render.changed then
    let db ← rearmRenderedProjections env page fresh now { db with outbox }
    return (db, true)
  else return ({ db with outbox }, false)

def ensureRenderDependency (page : ProjectionPageRow) (fresh : Fresh) (now : Time)
    (db : Database) : Except OutboxError (Database × Bool) :=
  match effectRow db.outbox page.id page.sourceRevision .render with
  | none => admitRenderDependency env page fresh now db
  | some existing =>
    match parseRowPayload existing with
    | .error e => .error e
    | .ok payload =>
      if payload.desiredState ≠ .present ∨ isExactProjectionSource env page payload = false then
        .error (idempotencyConflict "Render dependency does not match current page source")
      else if existing.status ≠ .succeeded ∨ hasCertifiedRender page then .ok (db, false)
      else admitRenderDependency env page fresh now db

/-- `pageSearchEligible(page) && !protectedPage ? ensureRenderDependency(…) : false` -/
def ensureSearchableRender (page : ProjectionPageRow) (fresh : Fresh) (db : Database) :
    Except OutboxError (Database × Bool) :=
  if pageSearchEligible env page fresh.now && !db.pageAccessPasswords page.id then
    ensureRenderDependency env page fresh fresh.now db
  else .ok (db, false)

structure RenderAdmissionInput where
  (pageId sourceRevision : Nat)
  source : JsString
  location : PageProjectionLocation
  action : Option Action

def admitPageRenderEffect (input : RenderAdmissionInput) (fresh : Fresh) (now : Time)
    (db : Database) : Except OutboxError (Database × Uuid) :=
  if !validPageId input.pageId then
    .error ⟨"INVALID_PAGE_ID", "Page mutation page ID is invalid"⟩
  else if !validLocation input.location then .error schemaError
  else
    let mismatch := idempotencyConflict "Render admission does not match the current page source"
    match db.pages input.pageId with
    | none => .error mismatch
    | some page =>
      if page.sourceRevision ≠ input.sourceRevision ∨
          env.sha256 page.content ≠ env.sha256 input.source ∨
          pageLocationMatches page input.location = false then
        .error mismatch
      else do
        let (outbox, render) ← admitCurrentEffect env page .render
          ⟨true, false, some (input.action.getD .update)⟩ fresh now db.outbox
        let db := { db with outbox }
        if render.changed then
          let db ← rearmRenderedProjections env page fresh now db
          return (db, render.id)
        else return (db, render.id)

def admitPageSearchEffect (pageId : Nat) (fresh : Fresh) (now : Time) (db : Database) :
    Except OutboxError (Database × Uuid) :=
  if !validPageId pageId then
    .error ⟨"INVALID_PAGE_ID", "Page mutation page ID is invalid"⟩
  else
    match db.pages pageId with
    | none => .error ⟨"PAGE_NOT_FOUND", "Current page search intent requires an existing page"⟩
    | some page => do
        let (outbox, effect) ←
          admitCurrentEffect env page .search ⟨true, true, none⟩ fresh now db.outbox
        let (db, _) ← ensureSearchableRender env page fresh { db with outbox }
        return (db, effect.id)

def searchStateDisagrees (page : ProjectionPageRow) (now : Time) (db : Database) : Bool :=
  let rows := db.searchRows page.id
  if pageSearchEligible env page now then rows.vector ≠ some page.sourceRevision
  else rows.vector.isSome || rows.hasWords

/-- What `#repairSearchPage` does to a page whose search effect may be repaired. -/
def repairSearchEffect (page : ProjectionPageRow) (fresh : Fresh) (db : Database) :
    Except OutboxError (Database × Bool) := do
  let (db, renderChanged) ← ensureSearchableRender env page fresh db
  let (outbox, search) ← admitCurrentEffect env page .search
    ⟨searchStateDisagrees env page fresh.now db, false, none⟩ fresh fresh.now db.outbox
  return ({ db with outbox }, renderChanged || search.changed)

/-- `#repairSearchPage` of the audit. -/
def repairSearchPage (pageId : Nat) (fresh : Fresh) (db : Database) :
    Except OutboxError (Database × Bool) :=
  match db.pages pageId with
  | none => .ok (db, false)
  | some page =>
    match effectRow db.outbox page.id page.sourceRevision .search with
    | none => repairSearchEffect env page fresh db
    | some existing =>
      match parseRowPayload existing with
      | .error e => .error e
      | .ok payload =>
        if payload.desiredState ≠ .present ∨ isExactProjectionSource env page payload = false then .ok (db, false)
        else repairSearchEffect env page fresh db

/-! ## Page mutations -/

/-- The columns an edit of a page sets. `keepsRender` holds where the edit leaves
`renderedSourceRevision` as it is. -/
structure PageEdit where
  content : JsString
  (isPublished isSearchable : Bool)
  (publishStartDate publishEndDate : Option JsString)
  (localeCode path : JsString)
  visibility : PageVisibility
  ownerId : Option Int
  keepsRender : Bool

def PageEdit.page (edit : PageEdit) (id sourceRevision : Nat) (render : JsString)
    (renderedSourceRevision : Option Nat) : ProjectionPageRow where
  id
  sourceRevision
  content := edit.content
  isPublished := edit.isPublished
  isSearchable := edit.isSearchable
  render
  renderedSourceRevision
  publishStartDate := edit.publishStartDate
  publishEndDate := edit.publishEndDate
  localeCode := edit.localeCode
  path := edit.path
  visibility := edit.visibility
  ownerId := edit.ownerId

/-- `enqueueCurrentPageProjections` of a page. -/
def enqueueCurrentPageProjections (page : ProjectionPageRow) (action : Action)
    (previousLocation : Option PageProjectionLocation) (fresh : Fresh)
    (outbox : List PageMutationOutboxRow) :
    Except OutboxError (List PageMutationOutboxRow × List Uuid) :=
  enqueuePageMutationEffects env
    { pageId := page.id
      sourceRevision := page.sourceRevision
      desiredState := .present
      action
      source := some page.content
      location := some (projectionLocation page)
      previousLocation
      effects := none } fresh outbox

def createPage (id : Nat) (edit : PageEdit) (fresh : Fresh) (db : Database) :
    Except OutboxError Database := do
  let page := edit.page id 1 [] none
  let (outbox, _) ← enqueueCurrentPageProjections env page .create none fresh db.outbox
  return { db with pages := Function.update db.pages id (some page), outbox }

/-- An edit that changes a column the revision trigger looks at. -/
def editPage (id : Nat) (edit : PageEdit) (action : Action)
    (previousLocation : Option PageProjectionLocation) (fresh : Fresh) (db : Database) :
    Except OutboxError Database :=
  match db.pages id with
  | none => .error ⟨"", "PageNotFound"⟩
  | some before => do
      let page := edit.page before.id (before.sourceRevision + 1) before.render
        (if edit.keepsRender then before.renderedSourceRevision else none)
      let (outbox, _) ←
        enqueueCurrentPageProjections env page action previousLocation fresh db.outbox
      return { db with pages := Function.update db.pages id (some page), outbox }

/-- The page goes, and its links with it, at a revision of its own. -/
def deletePage (id : Nat) (fresh : Fresh) (db : Database) : Except OutboxError Database :=
  match db.pages id with
  | none => .error ⟨"", "PageNotFound"⟩
  | some page => do
      let (outbox, _) ← enqueuePageMutationEffects env
        { pageId := page.id
          sourceRevision := page.sourceRevision + 1
          desiredState := .absent
          action := .delete
          source := none
          location := none
          previousLocation := some (projectionLocation page)
          effects := none } fresh db.outbox
      return { db with
        pages := Function.update db.pages id none
        pageLinks := Function.update db.pageLinks id []
        outbox }

end TsEpistle.Outbox
