import TsEpistle.Json.Values
import TsEpistle.LiveNotes.Title
import TsEpistle.Pages.Approvals

/-! Documents of pages in storage (`server/modules/storage/page-document.ts`): how a document is
classified, and how a page with HTML is written. A position in a text is what follows it. -/

namespace TsEpistle.Documents
open Library Json
open Pages (isSpace trim)
open LiveNotes (byteLength)

/-! ## Reading texts -/

/-- `\r?\n`. -/
def lineBreak : JsString → Option JsString
  | 13 :: 10 :: rest => some rest
  | 10 :: rest => some rest
  | _ => none

/-- The text before the first place where `close` matches, and what follows the match. -/
def upTo (close : JsString → Option JsString) : JsString → Option (JsString × JsString)
  | [] => (close []).map fun tail => ([], tail)
  | unit :: rest =>
    match close (unit :: rest) with
    | some tail => some ([], tail)
    | none => (upTo close rest).map fun found => (unit :: found.1, found.2)

/-- The two slices at `indexOf`. -/
def sliceAt (needle : JsString) : JsString → Option (JsString × JsString) :=
  upTo fun tail => (tail.dropPrefix? needle).map fun _ => tail

def unixLines : JsString → JsString
  | 13 :: 10 :: rest => 10 :: unixLines rest
  | unit :: rest => unit :: unixLines rest
  | [] => []

def isLineTerminator (unit : UInt16) : Bool := unit = 10 || unit = 13 || unit = 8232 || unit = 8233

def lineTails : JsString → List JsString
  | [] => []
  | unit :: rest => if isLineTerminator unit then rest :: lineTails rest else lineTails rest

/-- Where `^` matches with the flag `m`. -/
def lineStarts (text : JsString) : List JsString := text :: lineTails text

/-- A key and a colon, with white space before each. -/
def keyAt (isBlank : UInt16 → Bool) (key text : JsString) : Bool :=
  match (text.dropWhile isBlank).dropPrefix? key with
  | some rest => (rest.dropWhile isBlank).head? = some 58
  | none => false

/-- Letters of one case, as the flags `iu` compare them; the long s is an s. -/
def foldUnit (unit : UInt16) : UInt16 :=
  if 65 ≤ unit && unit ≤ 90 then unit + 32 else if unit = 383 then 115 else unit

def dropFolded : JsString → JsString → Option JsString
  | [], text => some text
  | letter :: word, unit :: text => if foldUnit unit = letter then dropFolded word text else none
  | _ :: _, [] => none

def commentEnd (text : JsString) : Option JsString := text.dropPrefix? (js "-->")

/-- `<!--\s*` and a word. -/
def commentOf (word text : JsString) : Option JsString :=
  (text.dropPrefix? (js "<!--")).bind fun rest => dropFolded word (rest.dropWhile isSpace)

/-! ## Page features -/

/-- Features of schema version 1, the only one. -/
structure PageFeatures where
  (linksVisible ratingsAllowed lastEditorVisible : Bool)
deriving DecidableEq

def DEFAULT_PAGE_FEATURES : PageFeatures := ⟨false, true, false⟩
def FAIL_CLOSED_PAGE_FEATURES : PageFeatures := ⟨false, false, false⟩

section
variable {ν : Type} [DecidableEq ν] [One ν]

def property (entries : List (JsString × JsonValue ν)) (key : JsString) : Option (JsonValue ν) :=
  (entries.find? fun entry => entry.1 = key).map (·.2)

def pageFeatureKeys : List JsString :=
  [js "schemaVersion", js "linksVisible", js "ratingsAllowed", js "lastEditorVisible"]

def parsePageFeatures : JsonValue ν → Option PageFeatures
  | .object entries =>
    match property entries (js "schemaVersion"), property entries (js "linksVisible"),
      property entries (js "ratingsAllowed"), property entries (js "lastEditorVisible") with
    | some (.number version), some (.boolean linksVisible), some (.boolean ratingsAllowed),
      some (.boolean lastEditorVisible) =>
        if version = 1 && entries.all fun entry => pageFeatureKeys.contains entry.1 then
          some ⟨linksVisible, ratingsAllowed, lastEditorVisible⟩
        else none
    | _, _, _, _ => none
  | _ => none

def normalizePageFeatures : Option (JsonValue ν) → PageFeatures
  | none => DEFAULT_PAGE_FEATURES
  | some input => (parsePageFeatures input).getD FAIL_CLOSED_PAGE_FEATURES
end

def booleanText (value : Bool) : JsString := if value then js "true" else js "false"

/-- `JSON.stringify` of features. -/
def PageFeatures.stringify (features : PageFeatures) : JsString :=
  123 :: (js "\"schemaVersion\":1,\"linksVisible\":" ++ booleanText features.linksVisible
    ++ js ",\"ratingsAllowed\":" ++ booleanText features.ratingsAllowed
    ++ js ",\"lastEditorVisible\":" ++ booleanText features.lastEditorVisible ++ [125])

/-! ## Classification -/

def OKF_MAX_DOCUMENT_BYTES : Nat := 1048576

inductive StoragePageDocumentFormat
  | okfValid
  | okfInvalid
  | legacyWiki
  | legacyV1
  | plainMarkdown
deriving DecidableEq

structure StoragePageFields where
  title : Option JsString := none
  description : Option JsString := none
  isPublished : Option Bool := none
  pageFeatures : Option PageFeatures := none
  tags : List JsString := []

/-- Metadata of type `Reference` and status `stable`. -/
structure DefaultMetadata where
  (title description : Option JsString)
  tags : List JsString
  (generatedBy generatedAt : JsString)
  pageFeatures : Option PageFeatures

inductive OkfMetadata (μ : Type)
  | parsed (metadata : μ)
  | default (metadata : DefaultMetadata)

structure StoragePageDocument (μ δ : Type) where
  format : StoragePageDocumentFormat
  body : JsString
  fields : StoragePageFields
  okfMetadata : Option (OkfMetadata μ)
  diagnostics : List JsString
  sha256 : δ

structure StoragePageDocumentInput where
  (rawDocument contentType locale pagePath importer now : JsString)

/-- What reads the parts of a document: `yaml.load`, `JSON.parse`, `parseOkfDocument` with the links
of its body imported, and the hash. Errors are their diagnostics. -/
structure Readers (ν μ δ : Type) where
  load : JsString → Except JsString (JsonValue ν)
  parseJson : JsString → Option (JsonValue ν)
  parseOkf : StoragePageDocumentInput → Except JsString (JsString × StoragePageFields × μ)
  sourceHash : JsString → δ

def tagsOf (tags : List JsString) : List JsString :=
  (tags.map trim).filter fun tag => !tag.isEmpty

section
variable {ν μ δ : Type} [DecidableEq ν] [One ν] (readers : Readers ν μ δ)

def parseYaml (value : JsString) : Except JsString (Option (List (JsString × JsonValue ν))) :=
  (readers.load value).map fun parsed =>
    match parsed with
    | .object entries => some entries
    | _ => none

def textOf : JsonValue ν → Option JsString
  | .string value => some value
  | _ => none

def booleanOf : JsonValue ν → Option Bool
  | .boolean value => some value
  | _ => none

def tagsFrom : Option (JsonValue ν) → List JsString
  | some (.array items) => tagsOf (items.filterMap textOf)
  | some (.string value) => tagsOf (value.splitOn 44)
  | _ => []

def pageFeaturesFrom (value : Option (JsonValue ν)) : Except JsString PageFeatures :=
  match value.bind parsePageFeatures with
  | some features => .ok features
  | none => .error (js "Page feature metadata must use the strict version 1 schema")

def fieldsFrom (metadata : List (JsString × JsonValue ν)) : Except JsString StoragePageFields :=
  let fields : StoragePageFields :=
    { title := (property metadata (js "title")).bind textOf
      description := (property metadata (js "description")).bind textOf
      isPublished := (property metadata (js "isPublished")).bind booleanOf
      tags := tagsFrom (property metadata (js "tags")) }
  match property metadata (js "pageFeatures") with
  | none => .ok fields
  | some value =>
    (pageFeaturesFrom (some value)).map fun features => { fields with pageFeatures := some features }

def defaultMetadata (fields : StoragePageFields) (importer now : JsString) : DefaultMetadata where
  title := fields.title
  description := fields.description.filter fun description => !(trim description).isEmpty
  tags := fields.tags
  generatedBy := importer
  generatedAt := now
  pageFeatures := fields.pageFeatures

def invalid (input : StoragePageDocumentInput) (diagnostic : JsString) : StoragePageDocument μ δ where
  format := .okfInvalid
  body := input.rawDocument
  fields := {}
  okfMetadata := none
  diagnostics := [diagnostic]
  sha256 := readers.sourceHash input.rawDocument

def legacy (input : StoragePageDocumentInput) (format : StoragePageDocumentFormat) (body : JsString)
    (fields : StoragePageFields) : StoragePageDocument μ δ where
  format := format
  body := body
  fields := fields
  okfMetadata := some (.default (defaultMetadata fields (trim input.importer) input.now))
  diagnostics := []
  sha256 := readers.sourceHash input.rawDocument

/-- `FRONTMATTER_OPENER`. -/
def frontmatterOpener (text : JsString) : Option JsString := (text.dropPrefix? (js "---")).bind lineBreak

def frontmatterCloser (text : JsString) : Option JsString :=
  (lineBreak text).bind fun rest => (rest.dropPrefix? (js "---")).bind fun tail =>
    if tail = [] then some [] else lineBreak tail

/-- A document that begins as frontmatter; none where the next ways of reading are tried. -/
def frontmatterDocument (input : StoragePageDocumentInput) : Option (StoragePageDocument μ δ) :=
  match frontmatterOpener input.rawDocument with
  | none => none
  | some opened =>
    match upTo frontmatterCloser opened with
    | none => some (invalid readers input
        (js "INVALID_FRONTMATTER: YAML frontmatter is missing a bounded closing delimiter"))
    | some (block, tail) =>
      match parseYaml readers block with
      | .error diagnostic => some (invalid readers input diagnostic)
      | .ok metadata =>
        let claimsOkf := metadata.any (fun entries => (property entries (js "type")).isSome)
          || (lineStarts block).any (keyAt (fun unit => unit = 32 || unit = 9) (js "type"))
        if claimsOkf then
          match readers.parseOkf input with
          | .error diagnostic => some (invalid readers input diagnostic)
          | .ok (body, fields, okfMetadata) =>
            some ⟨.okfValid, body, fields, some (.parsed okfMetadata), [], readers.sourceHash input.rawDocument⟩
        else
          metadata.map fun entries =>
            match fieldsFrom entries with
            | .error diagnostic => invalid readers input diagnostic
            | .ok fields =>
              legacy readers input .legacyWiki (unixLines ((lineBreak tail).getD tail)) fields

/-- A document with nothing but features to read; its body is the document. -/
def featuresDocument (input : StoragePageDocumentInput) (value : Option (JsonValue ν)) :
    StoragePageDocument μ δ :=
  match pageFeaturesFrom value with
  | .error diagnostic => invalid readers input diagnostic
  | .ok features => legacy readers input .legacyWiki input.rawDocument { pageFeatures := some features }

def jsonDocument (input : StoragePageDocumentInput) : Option (StoragePageDocument μ δ) :=
  if input.contentType = js "json" then
    match readers.parseJson input.rawDocument with
    | some (.object entries) =>
      match property entries (js "_meta") with
      | some (.object metadata) =>
        (property metadata (js "pageFeatures")).map fun value =>
          featuresDocument readers input (some value)
      | _ => none
    | _ => none
  else none

def htmlMetadataEnd (text : JsString) : Option JsString := (lineBreak text).bind commentEnd

/-- The metadata in the comment at the start. -/
def htmlMetadata (text : JsString) : Option JsString :=
  ((text.dropPrefix? (js "<!--")).bind lineBreak).bind fun opened =>
    (upTo htmlMetadataEnd opened).map (·.1)

def htmlDocument (input : StoragePageDocumentInput) : Option (StoragePageDocument μ δ) :=
  if input.contentType = js "html" then
    match htmlMetadata input.rawDocument with
    | none => none
    | some metadataText =>
      if (lineStarts metadataText).any (keyAt isSpace (js "pageFeatures")) then
        match parseYaml readers metadataText with
        | .error diagnostic => some (invalid readers input diagnostic)
        | .ok none => some (invalid readers input (js "HTML page metadata must be an object"))
        | .ok (some entries) =>
          some (featuresDocument readers input (property entries (js "pageFeatures")))
      else none
  else none

/-- What follows each end of a comment. -/
def commentEnds : JsString → List JsString
  | [] => []
  | unit :: rest => (commentEnd (unit :: rest)).toList ++ commentEnds rest

/-- The text that a comment gives for its word. -/
def commentText (word text : JsString) : Option JsString :=
  ((commentOf word (text.dropWhile isSpace)).bind (upTo commentEnd)).map fun found => trim found.1

/-- The text without the comment at its start and the space after it. -/
def withoutComment (word text : JsString) : Option JsString :=
  ((commentOf word text).bind (upTo commentEnd)).map fun found => found.2.dropWhile isSpace

def v1Document (input : StoragePageDocumentInput) : Option (StoragePageDocument μ δ) :=
  let text := input.rawDocument
  let start := text.dropWhile isSpace
  let titled := commentOf (js "title:") start
  if titled.isSome || (commentOf (js "subtitle:") start).isSome then
    let subtitle := ((titled.map commentEnds).getD []).findSome? (commentText (js "subtitle:"))
    let untitled := (withoutComment (js "title:") start).getD text
    some (legacy readers input .legacyV1
      (unixLines ((withoutComment (js "subtitle:") untitled).getD untitled))
      { title := commentText (js "title:") text
        description := subtitle <|> commentText (js "subtitle:") text })
  else none

def classifyStoragePageDocument (input : StoragePageDocumentInput) :
    Except JsString (StoragePageDocument μ δ) :=
  if (trim input.importer).isEmpty then
    .error (js "Storage page importer identity must not be empty")
  else if OKF_MAX_DOCUMENT_BYTES < byteLength input.rawDocument then
    .ok (invalid readers input (js "OKF_DOCUMENT_TOO_LARGE: OKF document exceeds 1048576 bytes"))
  else
    .ok ((frontmatterDocument readers input <|> jsonDocument readers input
      <|> htmlDocument readers input <|> v1Document readers input).getD
        (legacy readers input .plainMarkdown (unixLines input.rawDocument) {}))
end

/-! ## Pages with HTML -/

/-- A page of content type `html`; dates are the texts that `String` gives, tags are texts. -/
structure StoragePageEncodingInput (ν : Type) where
  (title description content : JsString)
  isPublished : Bool
  (updatedAt createdAt editorKey : JsString)
  tags : List JsString
  pageFeatures : Option (JsonValue ν)

section
variable {ν : Type} [DecidableEq ν] [One ν]

def metadataLines (page : StoragePageEncodingInput ν) : JsString :=
  js "title: " ++ page.title
    ++ js "\ndescription: " ++ page.description
    ++ js "\npublished: " ++ booleanText page.isPublished
    ++ js "\ndate: " ++ page.updatedAt
    ++ js "\ntags: " ++ (js ", ").intercalate (tagsOf page.tags)
    ++ js "\neditor: " ++ page.editorKey
    ++ js "\ndateCreated: " ++ page.createdAt

def injectPageMetadata (page : StoragePageEncodingInput ν) : JsString :=
  js "<!--\n" ++ metadataLines page ++ js "\n-->\n\n" ++ page.content

def encodeStoragePageDocument (page : StoragePageEncodingInput ν) : Except JsString JsString :=
  let injected := injectPageMetadata page
  let malformed := js "HTML page metadata comment is malformed"
  if startsWith injected (js "<!--\n") then
    match sliceAt (js "\n-->") injected with
    | none => .error malformed
    | some (before, after) =>
      .ok (before ++ js "\npageFeatures: " ++ (normalizePageFeatures page.pageFeatures).stringify ++ after)
  else .error malformed
end

end TsEpistle.Documents
