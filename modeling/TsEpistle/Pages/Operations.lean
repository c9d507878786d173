import TsEpistle.Pages.Rows

/-! The operations on pages (`server/models/pages.ts`, `server/operations/taxonomy.ts`,
`server/operations/account-administration.ts`). `page` is the row that an operation read before
its transaction, and `allowed` what the access rules and the tables outside the model answer
inside it. -/

namespace TsEpistle.Pages
open Library
open Outbox (PageVisibility PageProjectionLocation OutboxError Fresh)

/-- What an operation brings besides its own arguments. -/
structure Call where
  user : Int
  now : Time
  fresh : Fresh
  allowed : Except OutboxError Unit

section
variable (env : Environment)

/-! ## Checks -/

/-- `lockPageForMutation`: the page still is the one that was read. -/
def lockPageForMutation (page : PageRow) (db : PageDatabase) : Except OutboxError Unit :=
  match db.pages page.id with
  | none => .error pageNotFound
  | some locked =>
    if locked.sourceRevision ≠ page.sourceRevision || locked.updatedAt ≠ page.updatedAt then
      .error pageUpdateConflict
    else .ok ()

/-- The white space and line ends that `trim` takes away. -/
def isSpace (unit : UInt16) : Bool :=
  (9 ≤ unit && unit ≤ 13) || unit = 32 || unit = 160 || unit = 5760
    || (8192 ≤ unit && unit ≤ 8202) || unit = 8232 || unit = 8233 || unit = 8239 || unit = 8287
    || unit = 12288 || unit = 65279

def trim (text : JsString) : JsString :=
  ((text.dropWhile isSpace).reverse.dropWhile isSpace).reverse

def illegalPath (path : JsString) : Bool :=
  path.contains 46 || path.contains 32 || path.contains 92 || (path.zip path.tail).contains (47, 47)

/-- The path without one slash at its end and one at its start. -/
def trimmedPath (path : JsString) : JsString :=
  let path := if path.getLast? = some 47 then path.dropLast else path
  if path.head? = some 47 then path.tail else path

def checkedPath (path : JsString) : Except OutboxError JsString :=
  if illegalPath path then .error pageIllegalPath else .ok (trimmedPath path)

/-- `_.last(path.split('/'))`. -/
def lastSegment (path : JsString) : JsString := (path.reverse.takeWhile (· ≠ 47)).reverse

/-- A page called after its path is called after its new one. -/
def movedTitle (columns : PageColumns) (path : JsString) : JsString :=
  if columns.title = lastSegment columns.path then lastSegment path else columns.title

def expectRevision (expected : Option Nat) (page : PageRow) : Except OutboxError Unit :=
  if expected.any fun revision => revision ≠ page.sourceRevision then .error pageUpdateConflict
  else .ok ()

/-! ## Creation -/

structure CreatePageOptions where
  (path title description : JsString)
  visibility : PageVisibility
  (isPublished isSearchable : Bool)
  (publishStartDate publishEndDate content editor locale extra : JsString)
  tags : Finset Nat
  changeReason : Option JsString

/-- The serial of the table has no more ids than an `integer` column. -/
def maxPageId : Nat := 2147483647

/-- A private page belongs to who makes it so. -/
def visibilityOwner (call : Call) : PageVisibility → Option Int
  | .private => some call.user
  | .public => none

def createdPage (call : Call) (opts : CreatePageOptions) (path : JsString) (id : Nat) :
    PageRow where
  id
  columns := {
    path
    hash := env.generateHash path opts.locale opts.visibility (visibilityOwner call opts.visibility)
    title := opts.title
    description := opts.description
    visibility := opts.visibility
    ownerId := visibilityOwner call opts.visibility
    isPublished := opts.isPublished
    isSearchable := opts.isSearchable
    publishStartDate := opts.publishStartDate
    publishEndDate := opts.publishEndDate
    content := opts.content
    contentType := (env.editorContentType opts.editor).getD (js "text")
    editorKey := opts.editor
    localeCode := opts.locale
    authorId := call.user
    extra := opts.extra
    creatorId := call.user }
  sourceRevision := 1
  changeReason := opts.changeReason
  updatedAt := call.now

/-- The checks of `createPage`, and the row that it inserts. -/
def createChecks (call : Call) (opts : CreatePageOptions) (db : PageDatabase) :
    Except OutboxError PageRow := do
  let path ← checkedPath opts.path
  if (trim opts.content).isEmpty then .error pageEmptyContent
  else do
    call.allowed
    let page := createdPage env call opts path db.nextPageId
    if db.occupied page.location none then
      .error ⟨"6002", "Cannot create this page because an entry already exists at the same path."⟩
    else if maxPageId < page.id then .error ⟨"2200H", "nextval: reached maximum value of sequence"⟩
    else return page

def createPage (call : Call) (opts : CreatePageOptions) (db : PageDatabase) :
    Except OutboxError PageDatabase := do
  let page ← createChecks env call opts db
  let db := ({ db with nextPageId := db.nextPageId + 1 }.putPage page).putTags page.id opts.tags
  enqueueCurrentPageProjections env page.id .create none call.fresh db

/-! ## Revisions of one page -/

/-- The options of `updatePage`. `extra` is what it makes of the stored `extra`, and the flags
of `OkfOptions` what it finds there. -/
structure OkfOptions where
  (scriptGiven okfMetadataGiven okfAuthorityChanged hasBrandingMutation brandingChanged : Bool)
  (pageFeaturesGiven pageFeaturesChanged okfRestoreGiven : Bool)
  deriving Repr

structure UpdatePageOptions where
  (content title description : Option JsString)
  (isPublished isSearchable : Option Bool)
  (publishStartDate publishEndDate editor contentType : Option JsString)
  action : Option String
  (locale path : Option JsString)
  tags : Option (Finset Nat)
  changeReason : Option JsString
  expectedUpdatedAt : Option Time
  expectedSourceRevision : Option Nat
  okf : OkfOptions
  extra : JsString → JsString

/-- `metadataOnlyNoOp || brandingOnlyNoOp || pageFeaturesOnlyNoOp`. -/
def UpdatePageOptions.noOp (opts : UpdatePageOptions) (page : PageRow) : Bool :=
  let noNonBrandingMutation :=
    opts.content.isNone && opts.description.isNone && opts.isPublished.isNone
      && opts.isSearchable.isNone && opts.title.isNone && opts.editor.isNone
      && opts.contentType.isNone && opts.action.isNone && opts.locale.isNone && opts.path.isNone
      && opts.publishEndDate.isNone && opts.publishStartDate.isNone && !opts.okf.scriptGiven
      && !opts.okf.okfRestoreGiven && opts.changeReason = page.changeReason
      && !opts.okf.pageFeaturesChanged
  (opts.okf.okfMetadataGiven && !opts.okf.okfAuthorityChanged && noNonBrandingMutation
      && !opts.okf.brandingChanged)
    || (opts.okf.hasBrandingMutation && !opts.okf.brandingChanged && !opts.okf.okfMetadataGiven
      && noNonBrandingMutation)
    || (opts.okf.pageFeaturesGiven && noNonBrandingMutation && !opts.okf.brandingChanged && !opts.okf.okfMetadataGiven)

/-- The columns that `updatePage` sets. -/
def updatedColumns (user : Int) (page : PageRow) (opts : UpdatePageOptions)
    (path locale : JsString) : PageColumns :=
  let og := page.columns
  let willMove := locale ≠ og.localeCode || path ≠ og.path
  { og with
    authorId := user
    content := opts.content.getD og.content
    contentType := opts.contentType.getD og.contentType
    description := opts.description.getD og.description
    editorKey := opts.editor.getD og.editorKey
    isPublished := opts.isPublished.getD og.isPublished
    isSearchable := opts.isSearchable.getD og.isSearchable
    publishEndDate := opts.publishEndDate.getD og.publishEndDate
    publishStartDate := opts.publishStartDate.getD og.publishStartDate
    title := opts.title.getD (if willMove then movedTitle og path else og.title)
    path := if willMove then path else og.path
    localeCode := if willMove then locale else og.localeCode
    hash := if willMove then env.generateHash path locale og.visibility og.ownerId else og.hash
    extra := opts.extra og.extra }

/-- The checks of `updatePage`; `none` where there is nothing to do. -/
def updateChecks (call : Call) (page : PageRow) (opts : UpdatePageOptions) (db : PageDatabase) :
    Except OutboxError (Option Revision) := do
  if opts.expectedUpdatedAt.any fun updatedAt => updatedAt ≠ page.updatedAt then
    .error pageUpdateConflict
  else do
    expectRevision opts.expectedSourceRevision page
    if (trim (opts.content.getD page.columns.content)).isEmpty then .error pageEmptyContent
    else do
      let path ← checkedPath (opts.path.getD page.columns.path)
      let locale := opts.locale.getD page.columns.localeCode
      if opts.noOp page then return none
      else do
        lockPageForMutation page db
        call.allowed
        let columns := updatedColumns env call.user page opts path locale
        let location : PageProjectionLocation := ⟨columns.localeCode, columns.path, columns.visibility, columns.ownerId⟩
        let willMove : Bool := locale ≠ page.columns.localeCode || path ≠ page.columns.path
        if willMove && db.occupied location (some page.id) then .error pagePathCollision
        else return some {
          historyAction := opts.action.getD "updated"
          columns := fun _ => columns
          changeReason := opts.changeReason
          tags := opts.tags
          projectionAction := if opts.action = some "restored" then .restore else if willMove then .move else .update
          previousLocation := if willMove then some page.location else none }

def updatePage (call : Call) (page : PageRow) (opts : UpdatePageOptions) (db : PageDatabase) :
    Except OutboxError PageDatabase := do
  match ← updateChecks env call page opts db with
  | none => return db
  | some revision => saveCanonicalPageRevision env page revision call.now call.fresh db

/-- A writer that sets columns of a page that it holds, and leaves its tags. -/
def simpleRevision (historyAction : String) (columns : PageColumns → PageColumns)
    (projectionAction : Outbox.Action) (previousLocation : Option PageProjectionLocation) :
    Revision where
  historyAction
  columns
  changeReason := none
  tags := none
  projectionAction
  previousLocation

/-- The columns of a page that changes hands. -/
def ownedColumns (visibility : PageVisibility) (ownerId : Option Int) (columns : PageColumns) :
    PageColumns :=
  { columns with
    visibility, ownerId
    hash := env.generateHash columns.path columns.localeCode visibility ownerId }

def visibilityAction : PageVisibility → String
  | .private => "made-private"
  | .public => "published"

/-- The checks of `changeVisibility`; `none` where the page has this visibility. -/
def visibilityChecks (call : Call) (page : PageRow) (visibility : PageVisibility)
    (expected : Option Nat) (db : PageDatabase) : Except OutboxError (Option Revision) :=
  if page.columns.visibility = visibility then .ok none
  else do
    expectRevision expected page
    lockPageForMutation page db
    call.allowed
    let ownerId := visibilityOwner call visibility
    if db.occupied { page.location with visibility, ownerId } none then .error pagePathCollision
    else return some (simpleRevision (visibilityAction visibility)
      (ownedColumns env visibility ownerId) .visibility (some page.location))

def changeVisibility (call : Call) (page : PageRow) (visibility : PageVisibility)
    (expected : Option Nat) (db : PageDatabase) : Except OutboxError PageDatabase := do
  match ← visibilityChecks env call page visibility expected db with
  | none => return db
  | some revision => saveCanonicalPageRevision env page revision call.now call.fresh db

def ownershipChecks (call : Call) (page : PageRow) (ownerId : Int) (expected : Option Nat)
    (db : PageDatabase) : Except OutboxError Revision := do
  call.allowed
  if page.columns.visibility ≠ .private then .error pageNotFound
  else do
    expectRevision expected page
    if db.occupied { page.location with visibility := .private, ownerId := some ownerId } none then
      .error pagePathCollision
    else
      let columns := ownedColumns env .private (some ownerId)
      return simpleRevision "ownership-transferred" columns .ownership (some page.location)

/-- The private versions of the page follow its owner. -/
def ownVersions (pageId : Nat) (ownerId : Int) (history : List PageVersion) : List PageVersion :=
  Table.updateWhere (fun version => version.pageId = pageId && version.columns.visibility = .private)
    (fun version => { version with columns := { version.columns with ownerId := some ownerId } })
    history

def transferOwnership (call : Call) (page : PageRow) (ownerId : Int) (expected : Option Nat)
    (db : PageDatabase) : Except OutboxError PageDatabase := do
  let revision ← ownershipChecks env call page ownerId expected db
  let db ← saveCanonicalPageRevision env page revision call.now call.fresh db
  return { db with history := ownVersions page.id ownerId db.history }

/-- `convertPage`: `converted` is the content in the other format, where the formats differ. -/
structure ConvertPageOptions where
  editor : JsString
  converted : Except OutboxError (Option JsString)
  extra : JsString → JsString
  expectedSourceRevision : Option Nat

/-- The content of the page in another format; `none` where it stays. -/
def convertedContent (page : PageRow) (opts : ConvertPageOptions) (target : JsString) :
    Except OutboxError (Option JsString) :=
  if page.columns.contentType = target then .ok none else opts.converted

def convertChecks (call : Call) (page : PageRow) (opts : ConvertPageOptions) (db : PageDatabase) :
    Except OutboxError Revision := do
  expectRevision opts.expectedSourceRevision page
  if page.columns.editorKey = opts.editor then
    .error ⟨"", "Page is already using this editor. Nothing to convert."⟩
  else do
    let target := (env.editorContentType opts.editor).getD (js "text")
    let converted ← convertedContent page opts target
    lockPageForMutation page db
    call.allowed
    let convert := fun columns : PageColumns => { columns with
      contentType := target
      editorKey := opts.editor
      content := converted.getD columns.content
      extra := if page.columns.contentType = target then columns.extra else opts.extra page.columns.extra }
    return simpleRevision "updated" convert .convert none

def convertPage (call : Call) (page : PageRow) (opts : ConvertPageOptions) (db : PageDatabase) :
    Except OutboxError PageDatabase := do
  let revision ← convertChecks env call page opts db
  saveCanonicalPageRevision env page revision call.now call.fresh db

structure MovePageOptions where
  (destinationPath destinationLocale : JsString)
  extra : JsString → JsString
  expectedSourceRevision : Option Nat

/-- The columns of a page at another location. -/
def movedColumns (path locale : JsString) (extra : JsString → JsString) (columns : PageColumns) :
    PageColumns :=
  { columns with
    path
    localeCode := locale
    title := movedTitle columns path
    hash := env.generateHash path locale columns.visibility columns.ownerId
    extra := extra columns.extra }

def moveChecks (call : Call) (page : PageRow) (opts : MovePageOptions) (db : PageDatabase) :
    Except OutboxError Revision := do
  expectRevision opts.expectedSourceRevision page
  let path ← checkedPath opts.destinationPath
  lockPageForMutation page db
  call.allowed
  if db.occupied { page.location with path, locale := opts.destinationLocale } none then
    .error pagePathCollision
  else
    let columns := movedColumns env path opts.destinationLocale opts.extra page.columns
    return simpleRevision "moved" (fun _ => columns) .move (some page.location)

def movePage (call : Call) (page : PageRow) (opts : MovePageOptions) (db : PageDatabase) :
    Except OutboxError PageDatabase := do
  let revision ← moveChecks env call page opts db
  saveCanonicalPageRevision env page revision call.now call.fresh db

/-- One page of `migrateToLocale`, whose versions follow it. -/
def migratePage (call : Call) (pageId : Nat) (targetLocale : JsString) (db : PageDatabase) :
    Except OutboxError PageDatabase :=
  match db.pages pageId with
  | none => .error pageNotFound
  | some page => do
      call.allowed
      let hash := env.generateHash page.columns.path targetLocale page.columns.visibility
        page.columns.ownerId
      let revision := simpleRevision "moved"
        (fun columns => { columns with localeCode := targetLocale, hash }) .move
        (some page.location)
      let db ← saveCanonicalPageRevision env page revision call.now call.fresh db
      let history := Table.updateWhere (fun version => version.pageId = pageId)
        (fun version => { version with columns := { version.columns with
          localeCode := targetLocale
          hash := env.generateHash version.columns.path targetLocale version.columns.visibility
            version.columns.ownerId } }) db.history
      return { db with history }

/-! ## Writers without the common path -/

/-- One page of `taxonomy.apply`, which sets the next revision itself. -/
def applyTaxonomy (call : Call) (pageId : Nat) (tags : Finset Nat) (extra : JsString → JsString)
    (db : PageDatabase) : Except OutboxError PageDatabase :=
  match db.pages pageId with
  | none => .error ⟨"TAXONOMY_REVIEW_EXPIRED", "Review the change again."⟩
  | some page => do
      call.allowed
      let db := db.addVersion (db.version page "updated")
      let next : PageRow := { page with
        columns := { page.columns with authorId := call.user, extra := extra page.columns.extra }
        sourceRevision := page.sourceRevision + 1, changeReason := none, updatedAt := call.now }
      enqueue env (presentEffects next .update none) call.fresh
        ((db.putTags pageId tags).putPage next)

/-- A page of a deleted account passes to the account that replaces it. -/
def reassignAccount (pageId : Nat) (id replaceId : Int) (db : PageDatabase) :
    Except OutboxError PageDatabase :=
  match db.pages pageId with
  | none => .error pageNotFound
  | some page =>
    let db := db.addVersion (db.version page "updated")
    let columns := { page.columns with
      authorId := if page.columns.authorId = id then replaceId else page.columns.authorId
      creatorId := if page.columns.creatorId = id then replaceId else page.columns.creatorId }
    .ok (db.putPage (page.patched columns none page.updatedAt))

/-! ## Deletion and recovery -/

def deletePage (call : Call) (page : PageRow) (expected : Option Nat) (db : PageDatabase) :
    Except OutboxError PageDatabase := do
  expectRevision expected page
  lockPageForMutation page db
  call.allowed
  let deletion := db.version page "deleted"
  let deletionRevision := page.sourceRevision + 1
  let recovery : RecoveryRow := ⟨page.id, deletion.id, deletionRevision,
    ⟨page.columns.path, page.columns.localeCode, page.columns.visibility, page.columns.ownerId, db.pageTags page.id⟩⟩
  let db := db.addVersion deletion
  let db := { db with
    recovery := db.recovery ++ [recovery]
    committed := { page with sourceRevision := deletionRevision } :: db.committed }
  let db ← enqueue env
    { pageId := page.id, sourceRevision := deletionRevision, desiredState := .absent
      action := .delete, source := none, location := none, previousLocation := some page.location
      effects := none } call.fresh db
  return db.deletePage page.id

def pageRecoveryConflict : OutboxError := ⟨"PAGE_RECOVERY_CONFLICT",
  "The deleted page changed or is no longer recoverable. Reload the recovery record."⟩

def pageRecoveryCollision : OutboxError :=
  ⟨"PAGE_RECOVERY_COLLISION", "The restore destination is already occupied."⟩

def invalidOwner (message : String) : OutboxError := ⟨"INVALID_OWNER", message⟩

/-- `formerOwnerExists` is whether the account of the former owner is still there. -/
structure RestoreOptions where
  (pageId deletionVersionId expectedDeletionRevision : Nat)
  securityContext : Option FormerPage
  legacyQuarantine : Bool
  (path localeCode : JsString)
  ownerId : Option Int
  formerOwnerExists : Bool

/-- The version of a page with the last date, the last id among those. -/
def latestVersion (pageId : Nat) (history : List PageVersion) : Option PageVersion :=
  (history.filter (·.pageId = pageId)).foldl (fun latest version =>
    if latest.any fun latest => version.versionDate < latest.versionDate
        || version.versionDate = latest.versionDate && version.id < latest.id then latest
    else some version) none

/-- The context that the record of the deletion and the caller agree on; `none` is the
quarantine of a page without a record. -/
def recoveryContext (opts : RestoreOptions) (record : Option RecoveryRow) (history : PageVersion) :
    Except OutboxError (Option FormerPage) :=
  if opts.legacyQuarantine then
    if record.isSome || opts.securityContext.isSome then .error pageRecoveryConflict else .ok none
  else
    match record with
    | none => .error pageRecoveryConflict
    | some record =>
      if opts.securityContext ≠ some record.former then .error pageRecoveryConflict
      else if record.former.path ≠ history.columns.path
          || record.former.localeCode ≠ history.columns.localeCode
          || record.former.visibility ≠ history.columns.visibility
          || record.former.ownerId ≠ history.columns.ownerId then .error pageRecoveryConflict
      else .ok (some record.former)

/-- The largest revision of the page that an effect has. -/
def effectMaximum (pageId : Nat) (outbox : List Outbox.PageMutationOutboxRow) : Option Nat :=
  ((outbox.filter (·.pageId = pageId)).map (·.sourceRevision)).max?

/-- The revision after all that the version, the record and the effects of the page know. -/
def restoredRevision (opts : RestoreOptions) (record : Option RecoveryRow) (history : PageVersion)
    (db : PageDatabase) : Except OutboxError Nat :=
  let effects := effectMaximum opts.pageId db.outbox
  let recorded := record.map (·.deletionRevision)
  let fallbackFence := max history.sourceRevision (effects.getD 0)
  if opts.expectedDeletionRevision ≠ recorded.getD fallbackFence
      || recorded.any (· < history.sourceRevision) then .error pageRecoveryConflict
  else .ok (max fallbackFence (recorded.getD 0) + 1)

/-- Who owns the page again. -/
def restoredOwner (call : Call) (opts : RestoreOptions) (former : Option FormerPage) :
    Except OutboxError (PageVisibility × Option Int) :=
  match former with
  | none => .ok (.private, some call.user)
  | some former =>
    match former.visibility with
    | .public =>
      if opts.ownerId.isSome then .error (invalidOwner "A public page cannot have an owner.")
      else .ok (.public, none)
    | .private =>
      if opts.formerOwnerExists then
        if opts.ownerId.any fun id => some id ≠ former.ownerId then
          .error (invalidOwner "The former page owner is still available.")
        else .ok (.private, former.ownerId)
      else if opts.ownerId.all (· ≤ 0) then
        .error (invalidOwner "Choose a valid owner for this private page.")
      else .ok (.private, opts.ownerId)

/-- The row that takes the page up again. -/
def restoredPage (call : Call) (opts : RestoreOptions) (history : PageVersion)
    (owner : PageVisibility × Option Int) (sourceRevision : Nat) : PageRow where
  id := opts.pageId
  columns := { history.columns with
    authorId := call.user
    creatorId := call.user
    hash := env.generateHash opts.path opts.localeCode owner.1 owner.2
    visibility := owner.1
    ownerId := owner.2
    isPublished := false
    localeCode := opts.localeCode
    path := opts.path
    extra := env.recoveredExtra history.columns.extra }
  sourceRevision
  changeReason := none
  updatedAt := call.now

def restoreDeletedPage (call : Call) (opts : RestoreOptions) (db : PageDatabase) :
    Except OutboxError PageDatabase :=
  if (db.pages opts.pageId).isSome then .error pageRecoveryConflict
  else
    match latestVersion opts.pageId db.history with
    | none => .error pageRecoveryConflict
    | some history =>
      if history.id ≠ opts.deletionVersionId || history.action ≠ "deleted" then
        .error pageRecoveryConflict
      else do
        let record := db.recovery.find? fun row =>
          row.pageId = opts.pageId && row.deletionVersionId = opts.deletionVersionId
        let former ← recoveryContext opts record history
        let sourceRevision ← restoredRevision opts record history db
        if env.editorContentType history.columns.editorKey ≠ some history.columns.contentType then
          .error pageRecoveryConflict
        else do
          let owner ← restoredOwner call opts former
          call.allowed
          let page := restoredPage env call opts history owner sourceRevision
          if db.occupied page.location none then .error pageRecoveryCollision
          else do
            let tags := former.elim history.tags (·.tags)
            let db := (db.putPage page).putTags opts.pageId tags
            let action := if opts.legacyQuarantine then "recovered-quarantined" else "restored"
            let db := db.addVersion (db.version page action)
            enqueueCurrentPageProjections env opts.pageId .restore none call.fresh db

end

end TsEpistle.Pages
