import TsEpistle.Okf.Trust
import TsEpistle.Taxonomy.Tags

/-! `updatePage` with all its options (`server/models/pages.ts`): which requests return early, and the patch of the
others. The rights of the caller and the state of other pages are checks that the caller of the model answers. -/

namespace TsEpistle.Pages.Updates
open Library Library.Checked Json
open Okf (Entries property assign remove OkfDocumentError OkfMetadataMutation mutateOkfMetadata)
open Taxonomy (TagRow TaxonomyError tagAliasMap)

inductive UpdateError
  | page (error : Outbox.OutboxError)
  | okf (error : OkfDocumentError)
  | taxonomy (error : TaxonomyError)
  | schema
  | pageFeatures
  deriving DecidableEq

/-! ## Tags -/

def tooManyTags : TaxonomyError := Taxonomy.invalid "Use no more than 100 tags."

def archivedTag (name : JsString) : TaxonomyError :=
  ⟨"Tag “" ++ String.ofList ((LinePatch.codePoints name).map Char.ofNat) ++
    "” is archived. Restore it in Administration → Tags, or choose an active tag.", 400, none⟩

def uniq (names : List JsString) : List JsString :=
  names.foldl (fun names name => if names.contains name then names else names ++ [name]) []

section
variable (toLowerCase : JsString → JsString)

def tagNames (names : List JsString) : Except TaxonomyError (List JsString) :=
  if 100 < names.length then .error tooManyTags else (names.mapM (Taxonomy.tagName toLowerCase)).map uniq

/-- The names that are no tags yet become tags, with ids from `fresh` on. -/
def insertTags (fresh : Int) (tags : List TagRow) : List JsString → List TagRow
  | [] => tags
  | name :: names =>
    if tags.any (·.tag = name) then insertTags fresh tags names
    else insertTags (fresh + 1) (tags ++ [⟨fresh, name, name, none, false⟩]) names

/-- The tags after the names were inserted, and the active names that they stand for. -/
def canonicalTags (fresh : Int) (tags : List TagRow) (names : List JsString) :
    Except TaxonomyError (List TagRow × List JsString) := do
  let submitted ← tagNames toLowerCase names
  let tags := insertTags fresh tags submitted
  let aliases ← tagAliasMap tags
  match submitted.find? fun name => aliases.get name = some none with
  | some archived => .error (archivedTag archived)
  | none => return (tags, uniq (submitted.map fun name => ((aliases.get name).getD none).getD name))

/-- The tags of the page become those of the names. -/
def associateTags (fresh : Int) (tags : List TagRow) (assigned : List Int) (names : List JsString) :
    Except TaxonomyError (List TagRow × List Int) := do
  let (tags, canonical) ← canonicalTags toLowerCase fresh tags names
  let target := (tags.filter fun tag => canonical.contains tag.tag).map (·.id)
  return (tags, assigned.filter (target.contains ·) ++ target.filter (!assigned.contains ·))

end

section
variable {ν : Type}

/-! ## Page features -/

structure PageFeatures where
  (linksVisible ratingsAllowed lastEditorVisible : Bool)
  deriving DecidableEq, Repr

def booleanOf : Option (JsonValue ν) → Option Bool
  | some (.boolean value) => some value
  | _ => none

def featureKeys : List JsString := [js "schemaVersion", js "linksVisible", js "ratingsAllowed", js "lastEditorVisible"]

section
variable [One ν] [DecidableEq ν]

def isSchemaVersion : Option (JsonValue ν) → Bool
  | some (.number value) => value = 1
  | _ => false

def parsePageFeatures (value : JsonValue ν) : Option PageFeatures :=
  match value with
  | .object entries =>
    if isSchemaVersion (property (js "schemaVersion") entries) && entries.all (fun entry => featureKeys.contains entry.1)
    then do
      let linksVisible ← booleanOf (property (js "linksVisible") entries)
      let ratingsAllowed ← booleanOf (property (js "ratingsAllowed") entries)
      let lastEditorVisible ← booleanOf (property (js "lastEditorVisible") entries)
      return ⟨linksVisible, ratingsAllowed, lastEditorVisible⟩
    else none
  | _ => none

def PageFeatures.toJson (features : PageFeatures) : JsonValue ν :=
  .object [(js "schemaVersion", .number 1), (js "linksVisible", .boolean features.linksVisible),
    (js "ratingsAllowed", .boolean features.ratingsAllowed),
    (js "lastEditorVisible", .boolean features.lastEditorVisible)]

def pageFeaturesFromOkfMetadata (metadata : Option (JsonValue ν)) : Except UpdateError (Option PageFeatures) :=
  match (metadata.map Okf.entriesOf).bind (property (js "x-wiki")) with
  | some (.object extension) =>
    match property (js "page_features") extension with
    | none => .ok none
    | some value =>
      match parsePageFeatures value with
      | none => .error .pageFeatures
      | some features => .ok (some features)
  | _ => .ok none

end

/-! ## Branding -/

section
variable [DecidableEq ν] (isAssetId : ν → Bool)

/-- The asset of a branding; which numbers are ids of assets is a parameter. -/
def parseBranding (value : JsonValue ν) : Option ν :=
  match value with
  | .object [(key, .number assetId)] => if key = js "assetId" && isAssetId assetId then some assetId else none
  | _ => none

def brandingJson (assetId : ν) : JsonValue ν := .object [(js "assetId", .number assetId)]

def pageBrandingFromExtra (extra : Entries ν) : Option ν := (property (js "branding") extra).bind (parseBranding isAssetId)

/-- A branding that is asked for: `some none` takes it away. -/
def brandingChanged (extra : Entries ν) : Option (Option ν) → Bool
  | none => false
  | some none => (property (js "branding") extra).isSome
  | some (some assetId) => pageBrandingFromExtra isAssetId extra ≠ some assetId

end

/-! ## Equality of JSON values -/

mutual
/-- `_.isEqual`: objects have the same properties in any order. -/
def isEqual [DecidableEq ν] : JsonValue ν → JsonValue ν → Bool
  | .null, .null => true
  | .boolean left, .boolean right => left = right
  | .number left, .number right => left = right
  | .string left, .string right => left = right
  | .array left, .array right => isEqualItems left right
  | .object left, .object right =>
    isEqualEntries left right && right.all fun entry => (property entry.1 left).isSome
  | _, _ => false

def isEqualItems [DecidableEq ν] : List (JsonValue ν) → List (JsonValue ν) → Bool
  | [], [] => true
  | left :: lefts, right :: rights => isEqual left right && isEqualItems lefts rights
  | _, _ => false

/-- Every property on the left is on the right. -/
def isEqualEntries [DecidableEq ν] : List (JsString × JsonValue ν) → List (JsString × JsonValue ν) → Bool
  | [], _ => true
  | (key, left) :: lefts, right =>
    (match property key right with
      | none => false
      | some value => isEqual left value) && isEqualEntries lefts right
end

theorem isEqual_object [DecidableEq ν] (left right : List (JsString × JsonValue ν)) : isEqual (.object left)
    (.object right) = (isEqualEntries left right && right.all fun entry => (property entry.1 left).isSome) := rfl

/-! ## Requests -/

/-- A flag given as the number 1 is `true`, any other number `false`. A date may be `null`. -/
structure UpdatePageOptions (ν : Type) where
  (content description : Option JsString)
  (isPublished isSearchable : Option Bool)
  (title changeReason : Option JsString)
  tags : Option (List JsString)
  (editor contentType action locale path : Option JsString)
  (publishEndDate publishStartDate : Option (Option JsString))
  (scriptCss scriptJs : Option JsString)
  (pageFeatures okfMetadata : Option (JsonValue ν))
  replaceOkfMetadata : Bool
  (okfProducer okfRestoreRevision : Option JsString)
  branding : Option (Option (JsonValue ν))

structure StoredPage (ν : Type) where
  (content title description editorKey contentType : JsString)
  (isPublished isSearchable : Bool)
  (publishStartDate publishEndDate localeCode path hash : JsString)
  changeReason : Option JsString
  extra : Entries ν

/-- The page, all tags, and the ids of those that the page has. -/
structure Site (ν : Type) where
  page : StoredPage ν
  tags : List TagRow
  assigned : List Int

/-- What a call brings with it, with the answers of the checks before the early returns and of those in the
transaction. -/
structure Call where
  user : Nat
  now : JsString
  fresh : Int
  (preflight admitted : Except UpdateError Unit)

/-- Code of other packages, and what `validateMetadata` asks of YAML. -/
structure Env (ν : Type) where
  (minify toLowerCase : JsString → JsString)
  generateHash : JsString → JsString → JsString
  isAssetId : ν → Bool
  frontmatterBytes : Entries ν → Nat

def reasonUnit (unit : UInt16) : Bool :=
  unit < 32 || (127 ≤ unit && unit ≤ 159) || unit = 0x061C || unit = 0x200E || unit = 0x200F
    || (0x2028 ≤ unit && unit ≤ 0x202E) || (0x2066 ≤ unit && unit ≤ 0x206F)

def pageChangeReason : Option JsString → Except UpdateError (Option JsString)
  | none => .ok none
  | some value =>
    if 200 < value.length || value.any reasonUnit then
      .error (.page (invalidInput
        "changeReason must be a single line of at most 200 characters without controls or bidi formatting."))
    else .ok (if (trim value).isEmpty then none else some (trim value))

/-- The text of a script in `extra`. -/
def scriptOf (key : JsString) (extra : Entries ν) : JsString :=
  match property key extra with
  | some (.string text) => text
  | _ => []

def requestedScriptCss (env : Env ν) (opts : UpdatePageOptions ν) : Option JsString :=
  opts.scriptCss.map fun css => if css.isEmpty then [] else env.minify css

/-- `date || ''`. -/
def requestedDate (stored : JsString) : Option (Option JsString) → JsString
  | none => stored
  | some date => date.getD []

section
variable [One ν] [DecidableEq ν] (env : Env ν) (call : Call)

def requestedPageFeatures (opts : UpdatePageOptions ν) : Except UpdateError (Option PageFeatures) :=
  match opts.pageFeatures with
  | none => pageFeaturesFromOkfMetadata opts.okfMetadata
  | some value =>
    match parsePageFeatures value with
    | none => .error .schema
    | some features => .ok (some features)

def requestedBranding (opts : UpdatePageOptions ν) : Except UpdateError (Option (Option ν)) :=
  match opts.branding with
  | none => .ok none
  | some none => .ok (some none)
  | some (some value) =>
    match parseBranding env.isAssetId value with
    | none => .error .schema
    | some assetId => .ok (some (some assetId))

def pageFeaturesChanged (extra : Entries ν) : Option PageFeatures → Bool
  | none => false
  | some features => (property (js "pageFeatures") extra).bind parsePageFeatures ≠ some features

/-! ## OKF metadata -/

def UpdatePageOptions.restoring (opts : UpdatePageOptions ν) : Bool := opts.okfRestoreRevision.isSome

def UpdatePageOptions.replacing (opts : UpdatePageOptions ν) : Bool := !opts.restoring && opts.replaceOkfMetadata

def UpdatePageOptions.producer (opts : UpdatePageOptions ν) : JsString :=
  opts.okfProducer.getD (js ("human:" ++ toString call.user))

def existingOkfMetadata (opts : UpdatePageOptions ν) (page : StoredPage ν) : Option (JsonValue ν) :=
  if opts.restoring then opts.okfMetadata else property (js "okf") page.extra

def mutateOkf (existing : Option (JsonValue ν)) (input : OkfMetadataMutation ν) : Except UpdateError (Entries ν) :=
  (mutateOkfMetadata env.frontmatterBytes existing input).mapError .okf

def replacementOkfMetadata (opts : UpdatePageOptions ν) : Except UpdateError (Option (JsonValue ν)) :=
  if opts.replacing then
    (mutateOkf env none ⟨some (opts.okfMetadata.getD .null), opts.producer call, false, true, call.now, none⟩).map
      fun metadata => some (.object metadata)
  else .ok none

/-- `none` where the metadata is not valid and is replaced. -/
def normalizedExistingOkfMetadata (opts : UpdatePageOptions ν) (page : StoredPage ν) :
    Except UpdateError (Option (Entries ν)) :=
  match mutateOkf env (existingOkfMetadata opts page) ⟨none, opts.producer call, false, false, call.now, none⟩ with
  | .ok metadata => .ok (some metadata)
  | .error error => if opts.replacing then .ok none else .error error

def okfMutation (opts : UpdatePageOptions ν) (replacement : Option (JsonValue ν)) (knowledgeChanged : Bool) :
    OkfMetadataMutation ν where
  proposed := if opts.restoring then none else replacement.or opts.okfMetadata
  producer := opts.producer call
  knowledgeChanged
  replace := opts.replacing
  at_ := call.now
  restore := opts.okfRestoreRevision

structure OkfOutcome (ν : Type) where
  metadata : Entries ν
  authorityChanged : Bool

def okfOutcome (opts : UpdatePageOptions ν) (page : StoredPage ν) (willMove : Bool) :
    Except UpdateError (OkfOutcome ν) := do
  let replacement ← replacementOkfMetadata env call opts
  let normalized ← normalizedExistingOkfMetadata env call opts page
  let existing := if normalized.isSome then existingOkfMetadata opts page else none
  let proposed ← mutateOkf env existing (okfMutation call opts replacement false)
  let authorityChanged := !opts.restoring && opts.okfMetadata.isSome && ((existingOkfMetadata opts page).isNone
    || !normalized.any fun normalized => isEqual (.object proposed) (.object normalized))
  let knowledgeChanged := opts.content.isSome || opts.title.isSome || opts.description.isSome || opts.tags.isSome
    || authorityChanged || willMove
  let metadata ← mutateOkf env existing (okfMutation call opts replacement knowledgeChanged)
  return ⟨if authorityChanged || willMove then remove (js "verified") metadata else metadata, authorityChanged⟩

/-! ## Early returns -/

/-- The fields that `noNonBrandingMutation` looks at; the tags are not among them. -/
def UpdatePageOptions.unnamed (opts : UpdatePageOptions ν) : Bool :=
  opts.content.isNone && opts.description.isNone && opts.isPublished.isNone && opts.isSearchable.isNone
    && opts.title.isNone && opts.editor.isNone && opts.contentType.isNone && opts.action.isNone && opts.locale.isNone
    && opts.path.isNone && opts.publishEndDate.isNone && opts.publishStartDate.isNone && opts.scriptCss.isNone
    && opts.scriptJs.isNone && opts.okfRestoreRevision.isNone

def noNonBrandingMutation (opts : UpdatePageOptions ν) (page : StoredPage ν) (changeReason : Option JsString)
    (features : Option PageFeatures) : Except UpdateError Bool :=
  if opts.unnamed then do
    let stored ← pageChangeReason page.changeReason
    return decide (changeReason = stored) && !pageFeaturesChanged page.extra features
  else .ok false

/-- `metadataOnlyNoOp || brandingOnlyNoOp || pageFeaturesOnlyNoOp`. -/
def noOp (opts : UpdatePageOptions ν) (page : StoredPage ν) (features : Option PageFeatures)
    (branding : Option (Option ν)) (okf : OkfOutcome ν) (unchanged : Bool) : Bool :=
  let brandingChanged := brandingChanged env.isAssetId page.extra branding
  (opts.okfMetadata.isSome && !okf.authorityChanged && unchanged && !brandingChanged)
    || (branding.isSome && !brandingChanged && opts.okfMetadata.isNone && unchanged)
    || (features.isSome && unchanged && !brandingChanged && opts.okfMetadata.isNone)

/-! ## The patch -/

def setFeatures (features : Option PageFeatures) (extra : Entries ν) : Entries ν :=
  match features with
  | none => extra
  | some features => assign (js "pageFeatures") features.toJson extra

def setBranding (branding : Option (Option ν)) (extra : Entries ν) : Entries ν :=
  match branding with
  | none => extra
  | some branding => Okf.assignOrRemove (js "branding") (branding.map brandingJson) extra

def patchedExtra (opts : UpdatePageOptions ν) (page : StoredPage ν) (features : Option PageFeatures)
    (branding : Option (Option ν)) (okf : Entries ν) : Entries ν :=
  let scriptJs := opts.scriptJs.getD (scriptOf (js "js") page.extra)
  let scriptCss := (requestedScriptCss env opts).getD (scriptOf (js "css") page.extra)
  assign (js "okf") (.object okf) (setBranding branding (setFeatures features
    (assign (js "css") (.string scriptCss) (assign (js "js") (.string scriptJs) page.extra))))

/-- A page called after its path is called after its new one. -/
def destinationTitle (opts : UpdatePageOptions ν) (page : StoredPage ν) (willMove : Bool) (path : JsString) : JsString :=
  opts.title.getD (if willMove && page.title = lastSegment page.path then lastSegment path else page.title)

def patched (opts : UpdatePageOptions ν) (page : StoredPage ν) (changeReason : Option JsString) (locale path : JsString)
    (extra : Entries ν) : StoredPage ν :=
  let willMove := locale ≠ page.localeCode || path ≠ page.path
  { content := opts.content.getD page.content
    title := destinationTitle opts page willMove path
    description := opts.description.getD page.description
    editorKey := opts.editor.getD page.editorKey
    contentType := opts.contentType.getD page.contentType
    isPublished := opts.isPublished.getD page.isPublished
    isSearchable := opts.isSearchable.getD page.isSearchable
    publishStartDate := requestedDate page.publishStartDate opts.publishStartDate
    publishEndDate := requestedDate page.publishEndDate opts.publishEndDate
    localeCode := locale
    path
    hash := if willMove then env.generateHash path locale else page.hash
    changeReason
    extra }

def associated (opts : UpdatePageOptions ν) (site : Site ν) : Except UpdateError (List TagRow × List Int) :=
  match opts.tags with
  | none => .ok (site.tags, site.assigned)
  | some names => (associateTags env.toLowerCase call.fresh site.tags site.assigned names).mapError .taxonomy

/-- The part of `updatePage` that commits. -/
def commit (opts : UpdatePageOptions ν) (site : Site ν) (changeReason : Option JsString) (locale path : JsString)
    (extra : Entries ν) : Except UpdateError (Site ν) := do
  let (tags, assigned) ← associated env call opts site
  call.admitted
  return ⟨patched env opts site.page changeReason locale path extra, tags, assigned⟩

def destinationLocale (opts : UpdatePageOptions ν) (page : StoredPage ν) : JsString := opts.locale.getD page.localeCode

def destinationPath (opts : UpdatePageOptions ν) (page : StoredPage ν) : Except UpdateError JsString :=
  (checkedPath (opts.path.getD page.path)).mapError .page

def updatePage (opts : UpdatePageOptions ν) (site : Site ν) : Except UpdateError (Site ν) := do
  let page := site.page
  let changeReason ← pageChangeReason opts.changeReason
  call.preflight
  if (trim (opts.content.getD page.content)).isEmpty then .error (.page pageEmptyContent)
  else do
    let features ← requestedPageFeatures opts
    let branding ← requestedBranding env opts
    let path ← destinationPath opts page
    let locale := destinationLocale opts page
    let okf ← okfOutcome env call opts page (locale ≠ page.localeCode || path ≠ page.path)
    let unchanged ← noNonBrandingMutation opts page changeReason features
    if noOp env opts page features branding okf unchanged then return site
    else commit env call opts site changeReason locale path (patchedExtra env opts page features branding okf.metadata)

end

end

end TsEpistle.Pages.Updates
