import TsEpistle.Outbox.PageProjection

/-! The rows that an operation on a page writes (`server/models/pages.ts`,
`server/models/pageHistory.ts`): the page with its revision trigger, its tags, its versions
and the effects it queues. A transaction answers the new database or an error, after which
nothing changed. -/

namespace TsEpistle.Pages
open Library
open Outbox (PageVisibility PageProjectionLocation PageMutationOutboxRow OutboxError Fresh)

abbrev Time := Int

/-- The columns of `pages` that a version keeps as well. -/
structure VersionColumns where
  (path hash title description : JsString)
  visibility : PageVisibility
  ownerId : Option Int
  (isPublished isSearchable : Bool)
  (publishStartDate publishEndDate content contentType editorKey localeCode : JsString)
  authorId : Int
  extra : JsString
  deriving DecidableEq, Repr

/-- The columns that `wiki_increment_page_source_revision` compares. -/
structure PageColumns extends VersionColumns where
  creatorId : Int
  deriving DecidableEq, Repr

structure PageRow where
  id : Nat
  columns : PageColumns
  sourceRevision : Nat
  changeReason : Option JsString
  updatedAt : Time
  deriving DecidableEq, Repr

/-- A row of `pageHistory` with its `pageHistoryTags`. -/
structure PageVersion where
  (id pageId : Nat)
  columns : VersionColumns
  tags : Finset Nat
  sourceRevision : Nat
  action : String
  versionDate : Time
  changeReason : Option JsString
  deriving DecidableEq

/-- What a deletion keeps of the page. -/
structure FormerPage where
  (path localeCode : JsString)
  visibility : PageVisibility
  ownerId : Option Int
  tags : Finset Nat
  deriving DecidableEq

structure RecoveryRow where
  (pageId deletionVersionId deletionRevision : Nat)
  former : FormerPage
  deriving DecidableEq

/-- `nextPageId` and `nextVersionId` are the serials of the tables; `committed` keeps every
page row that was ever written. -/
structure PageDatabase where
  pages : Nat → Option PageRow
  pageTags : Nat → Finset Nat
  history : List PageVersion
  recovery : List RecoveryRow
  outbox : List PageMutationOutboxRow
  (nextPageId nextVersionId : Nat)
  committed : List PageRow

def PageDatabase.empty : PageDatabase where
  pages _ := none
  pageTags _ := ∅
  history := []
  recovery := []
  outbox := []
  nextPageId := 1
  nextVersionId := 1
  committed := []

/-- What the operations take from elsewhere: the outbox, the hash of a page's location, the
check of `encodeStoragePageDocument`, the content type of an editor and
`normalizePageFeatures` over an archived `extra`. -/
structure Environment where
  outbox : Outbox.Environment
  generateHash : JsString → JsString → PageVisibility → Option Int → JsString
  exportable : PageRow → Finset Nat → Bool
  editorContentType : JsString → Option JsString
  recoveredExtra : JsString → JsString

namespace PageRow

def location (page : PageRow) : PageProjectionLocation :=
  ⟨page.columns.localeCode, page.columns.path, page.columns.visibility, page.columns.ownerId⟩

/-- The row after `update` sets these columns: the trigger adds one to the revision exactly
when one of the columns it compares changes. -/
def patched (page : PageRow) (columns : PageColumns) (changeReason : Option JsString)
    (updatedAt : Time) : PageRow where
  id := page.id
  columns
  sourceRevision := if columns = page.columns then page.sourceRevision else page.sourceRevision + 1
  changeReason
  updatedAt

end PageRow

namespace PageDatabase

def putPage (page : PageRow) (db : PageDatabase) : PageDatabase :=
  { db with
    pages := Function.update db.pages page.id (some page), committed := page :: db.committed }

def putTags (pageId : Nat) (tags : Finset Nat) (db : PageDatabase) : PageDatabase :=
  { db with pageTags := Function.update db.pageTags pageId tags }

/-- The version that `addVersion` makes of a page, with its present tags. -/
def version (page : PageRow) (action : String) (db : PageDatabase) : PageVersion where
  id := db.nextVersionId
  pageId := page.id
  columns := page.columns.toVersionColumns
  tags := db.pageTags page.id
  sourceRevision := page.sourceRevision
  action
  versionDate := page.updatedAt
  changeReason := page.changeReason

/-- `pageHistory.addVersion`. -/
def addVersion (version : PageVersion) (db : PageDatabase) : PageDatabase :=
  { db with history := db.history ++ [version], nextVersionId := db.nextVersionId + 1 }

/-- `deletedPage.delete()`, which takes the tags along. -/
def deletePage (pageId : Nat) (db : PageDatabase) : PageDatabase :=
  { db with
    pages := Function.update db.pages pageId none
    pageTags := Function.update db.pageTags pageId ∅ }

/-- A page stands at this location. -/
def occupied (db : PageDatabase) (location : PageProjectionLocation) (except : Option Nat) : Bool :=
  (List.range db.nextPageId).any fun id =>
    (db.pages id).any fun page => page.location = location && some id ≠ except

end PageDatabase

def pageNotFound : OutboxError := ⟨"6003", "This page does not exist."⟩
def pagePathCollision : OutboxError := ⟨"6006", "Destination page path already exists."⟩
def pageIllegalPath : OutboxError := ⟨"6005", "Page path cannot contains illegal characters."⟩
def pageEmptyContent : OutboxError := ⟨"6004", "Page content cannot be empty."⟩

def pageUpdateConflict : OutboxError :=
  ⟨"PageUpdateConflict", "The page changed after history was opened. Reload history before restoring."⟩

/-! ## Queued effects -/

variable (env : Environment)

/-- The effects of a present page at its revision. -/
def presentEffects (page : PageRow) (action : Outbox.Action)
    (previousLocation : Option PageProjectionLocation) : Outbox.EnqueueInput where
  pageId := page.id
  sourceRevision := page.sourceRevision
  desiredState := .present
  action
  source := some page.columns.content
  location := some page.location
  previousLocation
  effects := none

def enqueue (input : Outbox.EnqueueInput) (fresh : Fresh) (db : PageDatabase) :
    Except OutboxError PageDatabase := do
  let (outbox, _) ← Outbox.enqueuePageMutationEffects env.outbox input fresh db.outbox
  return { db with outbox }

/-- `assertCanonicalPageExportable`. -/
def assertCanonicalPageExportable (page : PageRow) (db : PageDatabase) : Except OutboxError Unit :=
  if page.columns.visibility = .public && page.columns.contentType = js "markdown"
      && !env.exportable page (db.pageTags page.id) then
    .error ⟨"OKF_DOCUMENT_INVALID", "Markdown page cannot be saved for storage"⟩
  else .ok ()

def enqueueCurrentPageProjections (pageId : Nat) (action : Outbox.Action)
    (previousLocation : Option PageProjectionLocation) (fresh : Fresh) (db : PageDatabase) :
    Except OutboxError PageDatabase :=
  match db.pages pageId with
  | none => .error pageNotFound
  | some page => do
      assertCanonicalPageExportable env page db
      enqueue env (presentEffects page action previousLocation) fresh db

/-! ## A new revision of a page -/

/-- What an operation writes for a page: the version it keeps, the columns it sets, the tags
where it changes them, and the effects it queues. -/
structure Revision where
  historyAction : String
  columns : PageColumns → PageColumns
  changeReason : Option JsString
  tags : Option (Finset Nat)
  projectionAction : Outbox.Action
  previousLocation : Option PageProjectionLocation

namespace Revision

/-- The tags that the page has before and after differ. -/
def tagsChanged (revision : Revision) (tags : Finset Nat) : Bool :=
  revision.tags.any fun next => next ≠ tags

/-- The row that the update leaves, one more revision on where only the tags changed. -/
def row (revision : Revision) (stored : PageRow) (tags : Finset Nat) (now : Time) : PageRow :=
  let next := stored.patched (revision.columns stored.columns) revision.changeReason now
  if revision.tagsChanged tags && next.sourceRevision = stored.sourceRevision then
    { next with sourceRevision := next.sourceRevision + 1 }
  else next

end Revision

/-- `saveCanonicalPageRevision`, which the other writers repeat without tags: the version of
the page that was read, the update where its revision stands still, and the effects. -/
def saveCanonicalPageRevision (page : PageRow) (revision : Revision) (now : Time) (fresh : Fresh)
    (db : PageDatabase) : Except OutboxError PageDatabase :=
  match db.pages page.id with
  | none => .error pageUpdateConflict
  | some stored =>
    if stored.sourceRevision ≠ page.sourceRevision then .error pageUpdateConflict
    else
      let tags := db.pageTags page.id
      let version := db.version page revision.historyAction
      let db := (db.addVersion version).putTags page.id (revision.tags.getD tags)
      let db := db.putPage (revision.row stored tags now)
      enqueueCurrentPageProjections env page.id revision.projectionAction
        revision.previousLocation fresh db

end TsEpistle.Pages
