import TsEpistle.Pages.Approvals
import TsEpistle.Storage.Paths

/-! Storage mutations (`server/jobs/storage-mutations.ts`): the jobs that page operations queue
for one enabled target, and the handler that brings the target up to the pages. Assets have no
part in it. -/

namespace TsEpistle.Storage
open Library
open Pages (PageRow PageDatabase VersionColumns PageOp)
open Outbox (OutboxError)

/-- The configuration that decides the names of pages. `localeSegment` tells a locale from the
first segment of a path. -/
structure StorageTarget where
  (key defaultLocale : JsString)
  (namespacing alwaysNamespace mapReadmeToHome : Bool)
  localeSegment : JsString → Option JsString

/-- The payload of a job of protocol 2. -/
structure StorageMutation where
  (entityId sourceRevision : Nat)
  paths : List JsString
  deriving DecidableEq

def isPublic (page : PageRow) : Bool := page.columns.visibility = .public

section
variable (target : StorageTarget)

def storagePagePath (columns : VersionColumns) : JsString :=
  if columns.contentType = js "markdown" then okfFilePath columns.localeCode columns.path
  else
    let filename := columns.path ++ 46 :: getFileExtension columns.contentType
    let always : Bool := target.key = js "git" && target.alwaysNamespace
    let namespaced : Bool := target.key = js "disk" || target.namespacing
    if always || namespaced && target.defaultLocale ≠ columns.localeCode then
      columns.localeCode ++ 47 :: filename
    else filename

def pagePath (page : PageRow) : JsString := storagePagePath target page.columns.toVersionColumns

/-! ## Admission -/

/-- What an operation hands to `enqueuePageStorageMutation`. -/
structure StorageRequest where
  pageId : Nat
  previous : Option PageRow
  sourceRevision : Option Nat

/-- A path that the schema of the payload accepts. -/
def validStoragePath (path : JsString) : Bool :=
  1 ≤ path.length && path.length ≤ 2048 && path.head? ≠ some 47 && !path.contains 92
    && path.all (31 < ·)
    && (segments path).all fun part => part ≠ js ".." && part ≠ js "." && part ≠ []

/-- The public locations that a request is about, the earlier one first. -/
def requestLocations (request : StorageRequest) (db : PageDatabase) : List PageRow :=
  (request.previous.toList ++ (db.pages request.pageId).toList).filter isPublic

/-- `current?.sourceRevision ?? input.sourceRevision ?? input.previous?.sourceRevision`. -/
def requestRevision (request : StorageRequest) (db : PageDatabase) : Nat :=
  (((db.pages request.pageId).map (·.sourceRevision)).or
    (request.sourceRevision.or (request.previous.map (·.sourceRevision)))).getD 0

/-- `enqueuePageStorageMutation`, in the transaction of the operation. -/
def enqueuePageStorageMutation (request : StorageRequest) (db : PageDatabase) :
    Except OutboxError (Option StorageMutation) :=
  let locations := requestLocations request db
  let sourceRevision := requestRevision request db
  let paths := (locations.map (pagePath target)).dedup
  if locations.isEmpty then .ok none
  else if sourceRevision = 0 then
    .error ⟨"TypeError", "Storage page mutation requires its canonical source revision"⟩
  else if !(Outbox.validPageId request.pageId && paths.all validStoragePath) then
    .error Outbox.schemaError
  else .ok (some ⟨request.pageId, sourceRevision, paths⟩)

/-! ## The handler -/

/-- The locations of pages that a name may stand for; `none` where it has no extension. -/
def pageCandidates (relativePath : JsString) : Option (List (JsString × Option JsString)) :=
  match parseOkfFilePath relativePath with
  | some (locale, path) => some [(path, some locale)]
  | none =>
    match splitExtension relativePath with
    | none => none
    | some (basename, extension) =>
      if extension.contains 47 then none
      else
        let first := basename.takeWhile (· ≠ 47)
        let rest := basename.dropWhile (· ≠ 47)
        some ((basename, none) :: if first.isEmpty || rest.isEmpty then [] else [(rest.tail, some first)])

/-- The pages of the database. -/
def allPages (db : PageDatabase) : List PageRow := (List.range db.nextPageId).filterMap db.pages

def pathOwners (db : PageDatabase) (relativePath : JsString)
    (candidates : List (JsString × Option JsString)) : List PageRow :=
  (allPages db).filter fun page => isPublic page
    && (candidates.any fun candidate => candidate.1 = page.columns.path
      && candidate.2.all (· = page.columns.localeCode))
    && pagePath target page = relativePath

def currentPage (db : PageDatabase) (relativePath : JsString) : Except OutboxError (Option PageRow) :=
  match pageCandidates relativePath with
  | none => .ok none
  | some candidates =>
    match pathOwners target db relativePath candidates with
    | [] => .ok none
    | [page] => .ok (some page)
    | _ => .error ⟨"Error", "Storage path has multiple canonical page owners"⟩

def getContentType (filePath : JsString) : Option JsString :=
  let extension := (filePath.splitOn 46).getLast?.getD []
  if extension = js "md" then some (js "markdown")
  else if extension = js "adoc" then some (js "asciidoc")
  else if extension = js "html" then some (js "html")
  else none

/-- The locale and the path of a file that was imported under this name. -/
def getPagePath (filePath : JsString) : JsString × JsString :=
  let path := (filePath.splitOn 46).dropLast.flatten
  match segments path with
  | first :: rest =>
    if first.isEmpty || rest.isEmpty then (target.defaultLocale, path)
    else
      match target.localeSegment first with
      | some locale => (locale, joined rest)
      | none => (target.defaultLocale, path)
  | [] => (target.defaultLocale, path)

/-- Another public page could have been imported from this name. -/
def hasImportedPageOwner (db : PageDatabase) (relativePath : JsString) (entityId : Nat) : Bool :=
  if target.key ≠ js "git" && target.key ≠ js "disk" || (parseOkfFilePath relativePath).isSome then
    false
  else
    match getContentType relativePath with
    | none => false
    | some contentType =>
      let identity := getPagePath target relativePath
      let home : Bool := target.mapReadmeToHome
        && (contentType = js "markdown" || contentType = js "asciidoc")
        && lower identity.2 = js "readme"
      (allPages db).any fun page => isPublic page && page.columns.localeCode = identity.1
        && (page.columns.path = identity.2 || home && page.columns.path = js "home")
        && page.id ≠ entityId

variable {δ : Type} (encode : PageRow → Finset Nat → δ)

/-- One path of a job: the page that owns it is written unless the job is about an earlier
revision of that page, and what no page owns is removed. -/
def runPath (job : StorageMutation) (db : PageDatabase) (files : JsString → Option δ)
    (relativePath : JsString) : Except OutboxError (JsString → Option δ) := do
  match ← currentPage target db relativePath with
  | some page =>
    if page.id = job.entityId && page.sourceRevision ≠ job.sourceRevision then return files
    else
      return Function.update files relativePath (some (encode page (db.pageTags page.id)))
  | none =>
    if hasImportedPageOwner target db relativePath job.entityId then return files
    else return Function.update files relativePath none

def runPaths (job : StorageMutation) (db : PageDatabase) (paths : List JsString)
    (files : JsString → Option δ) : Except OutboxError (JsString → Option δ) :=
  paths.foldlM (runPath target encode job db) files

end

/-! ## Runs -/

/-- The request of an operation that reached its end. -/
def storageRequest (env : Pages.Environment) (db : PageDatabase) : PageOp → Option StorageRequest
  | .create _ _ => some ⟨db.nextPageId, none, none⟩
  | .update call page opts =>
    match Pages.updateChecks env call page opts db with
    | .ok (some _) => some ⟨page.id, some page, none⟩
    | _ => none
  | .changeVisibility call page visibility expected =>
    match Pages.visibilityChecks env call page visibility expected db with
    | .ok (some _) => some ⟨page.id, some page, none⟩
    | _ => none
  | .convert _ page _ | .move _ page _ => some ⟨page.id, some page, none⟩
  | .migrate _ pageId _ => some ⟨pageId, db.pages pageId, none⟩
  | .delete _ page _ => some ⟨page.id, some page, some (page.sourceRevision + 1)⟩
  | .restore _ opts => some ⟨opts.pageId, none, none⟩
  | .transferOwnership .. | .applyTaxonomy .. | .reassignAccount .. | .outbox _ => none

/-- The locales that an operation names, and the path that a recovery names. -/
def namedLocales : PageOp → List JsString
  | .create _ opts => [opts.locale]
  | .update _ _ opts => opts.locale.toList
  | .move _ _ opts => [opts.destinationLocale]
  | .migrate _ _ targetLocale => [targetLocale]
  | .restore _ opts => [opts.localeCode]
  | _ => []

def recoveryPath : PageOp → Option JsString
  | .restore _ opts => some opts.path
  | _ => none

/-- `assertRecoveryPath`. -/
def assertRecoveryPath (path : JsString) : Bool :=
  path ≠ [] && path.head? ≠ some 47 && path.getLast? ≠ some 47 && !Pages.illegalPath path

structure System (δ : Type) where
  pages : Pages.System
  jobs : List StorageMutation
  files : JsString → Option δ

def System.empty {δ : Type} : System δ := ⟨.empty, [], fun _ => none⟩

/-- An operation; a run of a job that ends after some of its paths, or that is delivered once
more; and a run to success. -/
inductive Op
  | operation (op : Pages.Op)
  | attempt (job : StorageMutation) (paths : Nat)
  | complete (job : StorageMutation)

section
variable (env : Pages.Environment) (target : StorageTarget) {δ : Type}
  (encode : PageRow → Finset Nat → δ)

/-- The job that an operation queues in its transaction. -/
def queuedJob (before after : PageDatabase) : Pages.Op → Except OutboxError (Option StorageMutation)
  | .page op =>
    match storageRequest env before op with
    | none => .ok none
    | some request => enqueuePageStorageMutation target request after
  | .submit .. | .transition .. => .ok none

def runOperation (op : Pages.Op) (s : System δ) : Except OutboxError (System δ) := do
  let pages ← op.run env s.pages
  let job ← queuedJob env target s.pages.db pages.db op
  return { s with pages, jobs := s.jobs ++ job.toList }

def exec : Op → System δ → System δ
  | .operation op, s => (runOperation env target op s).toOption.getD s
  | .attempt job paths, s =>
    match runPaths target encode job s.pages.db (job.paths.take paths) s.files with
    | .ok files => { s with files }
    | .error _ => s
  | .complete job, s =>
    match runPaths target encode job s.pages.db job.paths s.files with
    | .ok files => { s with files, jobs := s.jobs.erase job }
    | .error _ => s

/-- The locales of pages are those of the table of locales, and recovery names a path that
`assertRecoveryPath` let through. -/
def Op.enabled (s : System δ) : Op → Prop
  | .operation op => op.enabled s.pages ∧ ∀ pageOp, op = .page pageOp →
      (∀ locale ∈ namedLocales pageOp, CleanLocale locale) ∧
        ∀ path, recoveryPath pageOp = some path → assertRecoveryPath path = true
  | .attempt job _ | .complete job => job ∈ s.jobs

def mirror : Machine (System δ) Op where
  enabled op s := op.enabled s
  exec := exec env target encode

end

end TsEpistle.Storage
