import TsEpistle.Storage.Writes

/-! Pages and assets on the same storage targets (`server/helpers/storage-path-admission.ts`):
the searches that keep a page from the file of an asset and an asset from the file of a page, and
the writers that run them (`server/models/pages.ts`, `server/models/assets.ts`,
`server/operations/assets.ts`, `server/operations/storage-configuration.ts`). -/

namespace TsEpistle.Admission
open Library
open Pages (PageRow PageDatabase VersionColumns PageOp)
open Outbox (OutboxError)
open Storage (StorageTarget storagePagePath pagePath okfFilePath parseOkfFilePath splitExtension
  segments joined isPublic allPages)

/-- `config.lang`. -/
structure Lang where
  code : JsString
  namespacing : Bool

/-- What the writers take from elsewhere. `normalized` is `sanitize(value).trim().toLowerCase()`,
`none` where it throws. -/
structure Environment where
  pages : Pages.Environment
  lang : Lang
  isStorageInternalPath : JsString → Bool
  generateHash : JsString → JsString
  normalized : JsString → Option JsString

structure AssetFolderRow where
  id : Nat
  slug : JsString
  parentId : Option Nat
  deriving DecidableEq, Repr

structure AssetRow where
  id : Nat
  filename : JsString
  folderId : Option Nat
  hash : JsString
  deriving DecidableEq, Repr

/-- `destination` are the other fields of the configuration that tell the destination, and
`operational` those that do not. -/
structure StorageTargetRow where
  key : JsString
  isEnabled : Bool
  mode : JsString
  alwaysNamespace : Bool
  (destination operational : JsString)
  deriving DecidableEq, Repr

/-- `reserved` are the paths of the relocations that are still to be reconciled. -/
structure Store where
  folders : List AssetFolderRow
  assets : List AssetRow
  targets : List StorageTargetRow
  reserved : List JsString
  (nextFolderId nextAssetId : Nat)

def storagePathCollision : OutboxError :=
  ⟨"STORAGE_PATH_COLLISION", "The storage destination is already occupied."⟩

def assetPathInternal : OutboxError := ⟨"ASSET_PATH_INVALID",
  "The asset destination uses an internal storage path. Choose another filename or folder."⟩

def assetPathMismatch : OutboxError := ⟨"ASSET_PATH_INVALID",
  "The asset destination does not match its filename and folder. Refresh the folder and try again."⟩

def assetLocationBusy : OutboxError :=
  ⟨"ASSET_LOCATION_BUSY", "Asset location is still being reconciled."⟩

/-! ## Folders -/

/-- The slugs from the root down to a folder. A chain that is longer than the table has a
cycle. -/
def climb (folders : List AssetFolderRow) : Nat → Option Nat → Option (List JsString)
  | _, none => some []
  | 0, some _ => none
  | fuel + 1, some id =>
    match Table.get AssetFolderRow.id folders id with
    | none => none
    | some row =>
      if row.slug = [] then none
      else (climb folders fuel row.parentId).map (· ++ [row.slug])

/-- `assetFolders.getHierarchy`. Folder 0 is the root. -/
def getHierarchy (store : Store) (folderId : Option Nat) : Option (List JsString) :=
  climb store.folders store.folders.length (folderId.filter (· ≠ 0))

/-- The path of a file in a folder. -/
def filePath (store : Store) (folderId : Option Nat) (filename : JsString) : Option JsString :=
  (getHierarchy store folderId).map fun slugs => joined (slugs ++ [filename])

def assetPath (store : Store) (asset : AssetRow) : Option JsString :=
  filePath store asset.folderId asset.filename

/-- The path, or what an operation answers where the hierarchy is broken. -/
def requiredPath (broken : OutboxError) (store : Store) (folderId : Option Nat)
    (filename : JsString) : Except OutboxError JsString :=
  match filePath store folderId filename with
  | none => .error broken
  | some path => .ok path

/-! ## Searches -/

/-- The names of pages do not depend on the rest of a target. -/
def pagePathOptions (lang : Lang) (target : StorageTargetRow) : StorageTarget where
  key := target.key
  defaultLocale := lang.code
  namespacing := lang.namespacing
  alwaysNamespace := target.alwaysNamespace
  mapReadmeToHome := false
  localeSegment := fun _ => none

def enabledPagePathOptions (lang : Lang) (store : Store) : List StorageTarget :=
  (store.targets.filter (·.isEnabled)).map (pagePathOptions lang)

def assertAssetLocationReservations (store : Store) (paths : List JsString) :
    Except OutboxError Unit :=
  if paths.any fun path => path ≠ [] && store.reserved.contains path then .error assetLocationBusy
  else .ok ()

/-- The page paths that a file may stand for. -/
def candidatePaths (assetPath : JsString) : List JsString :=
  match parseOkfFilePath assetPath with
  | some okf => [okf.2]
  | none =>
    match splitExtension assetPath with
    | none => []
    | some (basename, extension) =>
      if extension.contains 47 then []
      else
        let beforeSlash := basename.takeWhile (· ≠ 47)
        let fromSlash := basename.dropWhile (· ≠ 47)
        if beforeSlash.isEmpty || fromSlash.isEmpty then [basename]
        else [basename, fromSlash.tail]

/-- The public pages that the search for an asset path looks at. -/
def pagesLookedUp (db : PageDatabase) (assetPath : JsString) : List PageRow :=
  (allPages db).filter fun page =>
    isPublic page && (candidatePaths assetPath).contains page.columns.path

section
variable (env : Environment)

def assertStorageAssetDestinationAllowed (assetPath : JsString) : Except OutboxError Unit :=
  if env.isStorageInternalPath assetPath then .error assetPathInternal else .ok ()

def assertNoPublicStoragePageAtPath (store : Store) (db : PageDatabase) (assetPath : JsString) :
    Except OutboxError Unit := do
  assertStorageAssetDestinationAllowed env assetPath
  let options := enabledPagePathOptions env.lang store
  if (pagesLookedUp db assetPath).any fun page =>
      options.any fun policy => pagePath policy page = assetPath then
    .error storagePathCollision
  else .ok ()

/-- The folder below another one, or below the root. -/
def childFolder (folders : List AssetFolderRow) (parentId : Option Nat) (slug : JsString) :
    Option (Option Nat) :=
  (folders.find? fun folder => folder.slug = slug && folder.parentId = parentId).map
    fun folder => some folder.id

def isInFolder (folderId : Option Nat) (asset : AssetRow) : Bool :=
  match folderId with
  | none => asset.folderId = none || asset.folderId = some 0
  | some id => asset.folderId = some id

def assertNoAssetAtPath (store : Store) (storagePath : JsString) : Except OutboxError Unit := do
  assertAssetLocationReservations store [storagePath]
  let parts := segments storagePath
  let filename := parts.getLast?.getD []
  if filename = [] then .error storagePathCollision
  else
    match parts.dropLast.foldlM (childFolder store.folders) none with
    | none => .ok ()
    | some parentId =>
      if store.assets.any fun asset => asset.filename = filename && isInFolder parentId asset then
        .error storagePathCollision
      else .ok ()

/-- The check of several paths. -/
def assertNoAssets (store : Store) (paths : List JsString) : Except OutboxError Unit :=
  paths.foldlM (fun _ path => assertNoAssetAtPath store path) ()

def assertNoStorageAssetAtPagePaths (store : Store) (page : VersionColumns) :
    Except OutboxError Unit :=
  if page.visibility ≠ .public then .ok ()
  else
    let paths := (enabledPagePathOptions env.lang store).map fun options =>
      storagePagePath options page
    let okf := if page.contentType = js "markdown" then [okfFilePath page.localeCode page.path]
      else []
    assertNoAssets store (paths ++ okf).dedup

/-- The public pages after an id, at most 500 of them. -/
def pageBatch (db : PageDatabase) (afterId : Nat) : List PageRow :=
  ((allPages db).filter fun page => isPublic page && decide (afterId < page.id)).take 500

/-- The batches after an id. Every batch ends at a larger id, so that the fuel is not used up. -/
def checkBatches (store : Store) (db : PageDatabase) (options : StorageTarget) :
    Nat → Nat → Except OutboxError Unit
  | 0, _ => .error storagePathCollision
  | fuel + 1, afterId =>
    match (pageBatch db afterId).getLast? with
    | none => .ok ()
    | some last => do
        assertNoAssets store ((pageBatch db afterId).map (pagePath options))
        checkBatches store db options fuel last.id

def assertStorageTargetPathsAvailable (store : Store) (db : PageDatabase)
    (target : StorageTargetRow) : Except OutboxError Unit :=
  checkBatches store db (pagePathOptions env.lang target) (db.nextPageId + 1) 0

/-! ## Assets -/

/-- `allowed` is what the other checks of an operation answer. -/
structure UploadOptions where
  (originalname assetPath : JsString)
  folderId : Option Nat
  allowed : Except OutboxError Unit

/-- An upload names the kind of the failure and the folder as well. -/
def assetFolderHierarchyError : OutboxError :=
  ⟨"AssetFolderHierarchyError", "Asset folder hierarchy is broken."⟩

def assertUploadDestination (store : Store) (opts : UploadOptions) : Except OutboxError Unit := do
  assertStorageAssetDestinationAllowed env opts.assetPath
  let canonicalPath ← requiredPath assetFolderHierarchyError store opts.folderId opts.originalname
  assertStorageAssetDestinationAllowed env canonicalPath
  if canonicalPath ≠ opts.assetPath then .error assetPathMismatch else .ok ()

/-- `insert … onConflict('hash').merge`. -/
def upsertAsset (store : Store) (filename : JsString) (folderId : Option Nat) (hash : JsString) :
    Store :=
  if store.assets.any (·.hash = hash) then
    { store with
      assets := Table.updateWhere (fun asset => asset.hash = hash)
        (fun asset => { asset with filename, folderId }) store.assets }
  else
    { store with
      assets := store.assets ++ [⟨store.nextAssetId, filename, folderId, hash⟩]
      nextAssetId := store.nextAssetId + 1 }

def upload (opts : UploadOptions) (db : PageDatabase) (store : Store) :
    Except OutboxError Store := do
  assertUploadDestination env store opts
  assertNoPublicStoragePageAtPath env store db opts.assetPath
  assertAssetLocationReservations store [opts.assetPath]
  opts.allowed
  return upsertAsset store opts.originalname opts.folderId (env.generateHash opts.assetPath)

/-- `folderId` is `none` where it is not given, and `some none` or `some (some 0)` the root. -/
structure RelocateOptions where
  id : Nat
  filename : Option JsString
  folderId : Option (Option Nat)
  allowed : Except OutboxError Unit

def assetInvalid : OutboxError := ⟨"2004", "This asset does not exist or is invalid."⟩

def assetRenameInvalid : OutboxError := ⟨"2007", "The new asset filename is invalid."⟩

def assetRenameCollision : OutboxError :=
  ⟨"2005", "An asset with the same filename in the same folder already exists."⟩

def assetRenameTargetForbidden : OutboxError :=
  ⟨"2009", "You are not authorized to rename this asset to the requested name."⟩

/-- `normalizeAssetFilename` and `normalizeFolderSlug`. -/
def normalizedName (invalid : OutboxError) (value : JsString) : Except OutboxError JsString :=
  match env.normalized value with
  | none => .error invalid
  | some name =>
    if name = [] || name = js "." || name = js ".." || name.contains 47 || name.contains 92 then
      .error invalid
    else .ok name

def givenFilename (filename : Option JsString) : Except OutboxError (Option JsString) :=
  match filename with
  | none => .ok none
  | some value => (normalizedName env assetRenameInvalid value).map some

/-- The asset of this name in this folder that is read first; for the root it is looked up under `null`, then under 0. -/
def assetNamed (store : Store) (folderId : Option Nat) (filename : JsString) : Option AssetRow :=
  let named folderId := store.assets.find? fun asset => asset.filename = filename && asset.folderId = folderId
  if folderId.isNone then (named none).or (named (some 0)) else named folderId

def relocate (opts : RelocateOptions) (db : PageDatabase) (store : Store) :
    Except OutboxError Store := do
  let given ← givenFilename env opts.filename
  match Table.get AssetRow.id store.assets opts.id with
  | none => .error assetInvalid
  | some asset => do
      let sourcePath ← requiredPath assetInvalid store asset.folderId asset.filename
      let filename := given.getD asset.filename
      let folderId := (opts.folderId.getD asset.folderId).filter (· ≠ 0)
      let destinationPath ← requiredPath assetRenameTargetForbidden store folderId filename
      assertNoPublicStoragePageAtPath env store db destinationPath
      assertAssetLocationReservations store [sourcePath, destinationPath]
      opts.allowed
      if (assetNamed store folderId filename).any (·.id ≠ asset.id) then .error assetRenameCollision
      else return { store with
        assets := Table.replace AssetRow.id
          { asset with filename, folderId, hash := env.generateHash destinationPath } store.assets
        reserved := store.reserved ++ [sourcePath, destinationPath] }

/-- The destination of a resized image. -/
structure ResizeOptions where
  id : Nat
  filename : JsString
  folderId : Option Nat
  allowed : Except OutboxError Unit

def imageResizeStale : OutboxError :=
  ⟨"ASSET_IMAGE_SOURCE_STALE", "The source asset changed during image transformation. Refresh and try again."⟩

def imageResizeDestinationForbidden : OutboxError := ⟨"ASSET_IMAGE_DESTINATION_FORBIDDEN",
  "You are not authorized to write to the requested asset destination."⟩

def imageResizeConflict : OutboxError :=
  ⟨"ASSET_IMAGE_DESTINATION_CONFLICT", "An asset already exists at the requested destination."⟩

def resizeImage (opts : ResizeOptions) (db : PageDatabase) (store : Store) :
    Except OutboxError Store := do
  let filename ← normalizedName env assetRenameInvalid opts.filename
  let folderId := opts.folderId.filter (· ≠ 0)
  match Table.get AssetRow.id store.assets opts.id with
  | none => .error imageResizeStale
  | some asset => do
      let currentSourcePath ← requiredPath imageResizeStale store asset.folderId asset.filename
      let destinationPath ← requiredPath imageResizeDestinationForbidden store folderId filename
      assertNoPublicStoragePageAtPath env store db destinationPath
      assertAssetLocationReservations store [currentSourcePath, destinationPath]
      opts.allowed
      let destinationHash := env.generateHash destinationPath
      if store.assets.any (·.hash = destinationHash) then .error imageResizeConflict
      else if (assetNamed store folderId filename).isSome then .error imageResizeConflict
      else return { store with
        assets := store.assets ++ [⟨store.nextAssetId, filename, folderId, destinationHash⟩]
        nextAssetId := store.nextAssetId + 1 }

structure FolderOptions where
  slug : JsString
  parentFolderId : Nat
  allowed : Except OutboxError Unit

def invalidFolderSlug : OutboxError :=
  ⟨"ASSET_FOLDER_INVALID", "Folder slug must be a canonical non-empty path segment."⟩

def folderCreationForbidden : OutboxError :=
  ⟨"ASSET_FOLDER_FORBIDDEN", "You are not authorized to create this asset folder."⟩

def assetFolderExists : OutboxError := ⟨"2002", "An asset folder with the same name already exists."⟩

def createFolder (opts : FolderOptions) (store : Store) : Except OutboxError Store := do
  let folderSlug ← normalizedName env invalidFolderSlug opts.slug
  let parentId := if opts.parentFolderId = 0 then none else some opts.parentFolderId
  let destinationPath ← requiredPath folderCreationForbidden store parentId folderSlug
  opts.allowed
  assertStorageAssetDestinationAllowed env destinationPath
  if (childFolder store.folders parentId folderSlug).isSome then .error assetFolderExists
  else return { store with
    folders := store.folders ++ [⟨store.nextFolderId, folderSlug, parentId⟩]
    nextFolderId := store.nextFolderId + 1 }

/-! ## Targets -/

/-- What `nativeStorageMutationConfigurationKey` is a digest of. -/
def nativeStorageMutationConfigurationKey (target : StorageTargetRow) :
    JsString × Bool × JsString × Bool × JsString :=
  (target.key, target.isEnabled, target.mode, target.alwaysNamespace, target.destination)

def outstandingChanges : OutboxError := ⟨"",
  "Canonical storage changes are still outstanding. Restore access to the existing destination and let them finish before disabling or changing its destination or mode."⟩

def targetsMismatch : OutboxError := ⟨"", "Include each current storage target exactly once."⟩

/-- The publication of one target. -/
def configure (next : StorageTargetRow) (outstanding : Bool) (db : PageDatabase) (store : Store) :
    Except OutboxError Store :=
  match Table.get StorageTargetRow.key store.targets next.key with
  | none => .error targetsMismatch
  | some original => do
      let destinationChanged : Bool := nativeStorageMutationConfigurationKey original
        ≠ nativeStorageMutationConfigurationKey next
      if destinationChanged && outstanding then .error outstandingChanges
      else do
        if next.isEnabled && destinationChanged then
          assertStorageTargetPathsAvailable env store db next
        return { store with targets := Table.replace StorageTargetRow.key next store.targets }

/-! ## Pages -/

/-- The location that a recovery checks. -/
def recoveryIdentity (call : Pages.Call) (opts : Pages.RestoreOptions) (db : PageDatabase) :
    Option VersionColumns :=
  match Pages.latestVersion opts.pageId db.history with
  | none => none
  | some history =>
    let record := db.recovery.find? fun row =>
      row.pageId = opts.pageId && row.deletionVersionId = opts.deletionVersionId
    match Pages.recoveryContext opts record history >>= Pages.restoredOwner call opts with
    | .error _ => none
    | .ok owner => some { history.columns with
        path := opts.path, localeCode := opts.localeCode, visibility := owner.1 }

/-- What an operation on a page hands to `assertNoStorageAssetAtPagePaths`: the common path what
it is about to write, the others the location that they name. Taxonomy changes, account changes
and transfers of ownership leave the name of the page alone. -/
def checkedIdentity (db : PageDatabase) : PageOp → Option VersionColumns
  | .create call opts =>
    match Pages.checkedPath opts.path with
    | .error _ => none
    | .ok path =>
      some (Pages.createdPage env.pages call opts path db.nextPageId).columns.toVersionColumns
  | .update call page opts =>
    match Pages.updateChecks env.pages call page opts db with
    | .ok (some revision) => some (revision.columns page.columns).toVersionColumns
    | _ => none
  | .changeVisibility _ page visibility _ => some { page.columns.toVersionColumns with visibility }
  | .convert _ page opts => some { page.columns.toVersionColumns with
      contentType := (env.pages.editorContentType opts.editor).getD (js "text") }
  | .move _ page opts =>
    match Pages.checkedPath opts.destinationPath with
    | .error _ => none
    | .ok path => some { page.columns.toVersionColumns with
        path, localeCode := opts.destinationLocale }
  | .migrate _ pageId targetLocale => (db.pages pageId).map fun page =>
    { page.columns.toVersionColumns with localeCode := targetLocale }
  | .restore call opts => recoveryIdentity call opts db
  | .transferOwnership .. | .applyTaxonomy .. | .reassignAccount .. | .delete .. | .outbox _ => none

/-! ## Runs -/

structure System where
  pages : Pages.System
  store : Store

/-- An operation in the transaction that its fences guard; `effects` is what the reconciliation of
relocations leaves. -/
inductive Op
  | page (op : Pages.Op)
  | upload (opts : UploadOptions)
  | relocate (opts : RelocateOptions)
  | resizeImage (opts : ResizeOptions)
  | createFolder (opts : FolderOptions)
  | configure (next : StorageTargetRow) (outstanding : Bool)
  | effects (reserved : List JsString)

/-- The check of an operation on a page. -/
def checkPage (op : Pages.Op) (s : System) : Except OutboxError Unit :=
  match op with
  | .page op =>
    match checkedIdentity env s.pages.db op with
    | none => .ok ()
    | some columns => assertNoStorageAssetAtPagePaths env s.store columns
  | .submit .. | .transition .. => .ok ()

def runPage (op : Pages.Op) (s : System) : Except OutboxError System := do
  let pages ← op.run env.pages s.pages
  checkPage env op s
  return { s with pages }

def runStore (s : System) : Op → Except OutboxError Store
  | .page _ => .ok s.store
  | .upload opts => Admission.upload env opts s.pages.db s.store
  | .relocate opts => Admission.relocate env opts s.pages.db s.store
  | .resizeImage opts => Admission.resizeImage env opts s.pages.db s.store
  | .createFolder opts => Admission.createFolder env opts s.store
  | .configure next outstanding => Admission.configure env next outstanding s.pages.db s.store
  | .effects reserved => .ok { s.store with reserved }

/-- A transaction that throws leaves everything as it was. -/
def System.commit (s : System) : Except OutboxError Store → System
  | .ok store => { s with store }
  | .error _ => s

def exec (op : Op) (s : System) : System :=
  match op with
  | .page op => (runPage env op s).toOption.getD s
  | op => s.commit (runStore env s op)

/-- The locales of pages are those of the table of locales, recovery names a path that
`assertRecoveryPath` let through, and a file that is uploaded has a name without folders. -/
def Op.enabled (s : System) : Op → Prop
  | .page op => op.enabled s.pages ∧ ∀ pageOp, op = .page pageOp →
      (∀ locale ∈ Storage.namedLocales pageOp, Storage.CleanLocale locale) ∧
        ∀ path, Storage.recoveryPath pageOp = some path → Storage.assertRecoveryPath path = true
  | .upload opts => 47 ∉ opts.originalname
  | _ => True

def exclusion : Machine System Op where
  enabled op s := op.enabled s
  exec := exec env

end

end TsEpistle.Admission
