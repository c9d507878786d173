import TsEpistle.Library.Checked
import TsEpistle.Okf.Timestamps

/-! OKF metadata and its validation (`validateMetadata` in `server/okf/format.ts`). An object is the list of
its entries; the size of the YAML text that `js-yaml` makes of it is a parameter. -/

namespace TsEpistle.Okf
open Library Library.Checked Json
open Pages (isSpace trim)

structure OkfDocumentError where
  (code message : String)
  deriving DecidableEq, Repr

section
variable {ν : Type}

/-! ## Objects -/

abbrev Entries (ν : Type) := List (JsString × JsonValue ν)

/-- `undefined` where the key is missing. -/
def property (key : JsString) : Entries ν → Option (JsonValue ν)
  | [] => none
  | entry :: entries => if entry.1 = key then some entry.2 else property key entries

def assign (key : JsString) (value : JsonValue ν) : Entries ν → Entries ν
  | [] => [(key, value)]
  | entry :: entries => if entry.1 = key then (key, value) :: entries else entry :: assign key value entries

/-- `delete`. -/
def remove (key : JsString) (entries : Entries ν) : Entries ν := entries.filter fun entry => entry.1 ≠ key

/-- `{ ...entries, ...others }`. -/
def spread (entries others : Entries ν) : Entries ν :=
  others.foldl (fun entries entry => assign entry.1 entry.2 entries) entries

def assignOrRemove (key : JsString) (value : Option (JsonValue ν)) (entries : Entries ν) : Entries ν :=
  match value with
  | some value => assign key value entries
  | none => remove key entries

/-! ## Limits -/

def MAX_FRONTMATTER_BYTES : Nat := 65536
def MAX_TREE_DEPTH : Nat := 20
def MAX_TREE_NODES : Nat := 5000

def STATUS_VALUES : List JsString := [js "draft", js "stable", js "deprecated"]
def DANGEROUS_KEYS : List String := ["__proto__", "constructor", "prototype"]

def fail {α : Type} (code message : String) : Except OkfDocumentError α := .error ⟨code, message⟩

mutual
/-- `visit` in `assertJsonTree`, with the nodes so far. -/
def visit (nodes : Nat) (value : JsonValue ν) (depth : Nat) : Except OkfDocumentError Nat :=
  if MAX_TREE_NODES < nodes + 1 then
    fail "OKF_METADATA_TOO_COMPLEX" "OKF frontmatter exceeds 5000 values"
  else if MAX_TREE_DEPTH < depth then
    fail "OKF_METADATA_TOO_DEEP" "OKF frontmatter exceeds 20 nested levels"
  else
    match value with
    | .array items => visitItems (nodes + 1) items (depth + 1)
    | .object entries => visitEntries (nodes + 1) entries (depth + 1)
    | _ => .ok (nodes + 1)

def visitItems (nodes : Nat) (items : List (JsonValue ν)) (depth : Nat) : Except OkfDocumentError Nat :=
  match items with
  | [] => .ok nodes
  | item :: items => do
      let nodes ← visit nodes item depth
      visitItems nodes items depth

def visitEntries (nodes : Nat) (entries : List (JsString × JsonValue ν)) (depth : Nat) :
    Except OkfDocumentError Nat :=
  match entries with
  | [] => .ok nodes
  | (key, value) :: entries =>
    match DANGEROUS_KEYS.find? fun name => js name = key with
    | some name => fail "INVALID_OKF_KEY" ("OKF frontmatter key " ++ name ++ " is not allowed")
    | none => do
        let nodes ← visit nodes value depth
        visitEntries nodes entries depth
end

def assertJsonTree (root : JsonValue ν) : Except OkfDocumentError Nat := visit 0 root 0

/-! ## Fields -/

def nonEmptyString (value : Option (JsonValue ν)) (field : String) (maximum : Nat) (code : String) :
    Except OkfDocumentError JsString :=
  match value with
  | some (.string text) =>
    if (trim text).isEmpty then fail code ("OKF field " ++ field ++ " must be a non-empty string")
    else if maximum < (trim text).length then
      fail code ("OKF field " ++ field ++ " exceeds " ++ toString maximum ++ " characters")
    else .ok (trim text)
  | _ => fail code ("OKF field " ++ field ++ " must be a non-empty string")

/-- A field with a string, where the object has it. -/
def stringField (key : JsString) (field : String) (maximum : Nat) (code : String) (entries : Entries ν) :
    Except OkfDocumentError (Entries ν) :=
  match property key entries with
  | none => .ok entries
  | some value => do
      let text ← nonEmptyString (some value) field maximum code
      return assign key (.string text) entries

def timestampOnly (text : JsString) (field code : String) : Except OkfDocumentError JsString :=
  if isOkfTimestamp text then .ok text
  else fail code ("OKF field " ++ field ++ " must be an ISO 8601 datetime with an explicit UTC offset")

def actorEvent (value : JsonValue ν) (field code : String) : Except OkfDocumentError (JsonValue ν) :=
  match value with
  | .object entries => do
      let by_ ← nonEmptyString (property (js "by") entries) (field ++ ".by") 255 code
      match property (js "at") entries with
      | none => return .object (assign (js "by") (.string by_) entries)
      | some value => do
          let at_ ← nonEmptyString (some value) (field ++ ".at") 64 code
          let at_ ← timestampOnly at_ (field ++ ".at") code
          return .object (assign (js "at") (.string at_) (assign (js "by") (.string by_) entries))
  | _ => fail code ("OKF field " ++ field ++ " must be an actor event")

/-- `map` with the index of each item, where the first error ends it. -/
def mapItems (f : Nat → JsonValue ν → Except OkfDocumentError (JsonValue ν)) :
    Nat → List (JsonValue ν) → Except OkfDocumentError (List (JsonValue ν))
  | _, [] => .ok []
  | index, item :: items => do
      let item ← f index item
      let items ← mapItems f (index + 1) items
      return item :: items

def indexed (field : String) (index : Nat) : String := field ++ "[" ++ toString index ++ "]"

def tagsField (value : JsonValue ν) : Except OkfDocumentError (JsonValue ν) :=
  match value with
  | .array items =>
    if 100 < items.length then
      fail "INVALID_TAGS" "OKF field tags must be a list of at most 100 non-empty strings"
    else do
      let tags ← mapItems (fun index tag =>
        (nonEmptyString (some tag) (indexed "tags" index) 255 "INVALID_TAGS").map .string) 0 items
      return .array tags
  | _ => fail "INVALID_TAGS" "OKF field tags must be a list of at most 100 non-empty strings"

def statusField (value : JsonValue ν) : Except OkfDocumentError (JsonValue ν) :=
  match value with
  | .string text =>
    if STATUS_VALUES.contains text then .ok (.string text)
    else fail "INVALID_STATUS" "OKF field status must be draft, stable, or deprecated"
  | _ => fail "INVALID_STATUS" "OKF field status must be draft, stable, or deprecated"

def verifiedField (value : JsonValue ν) : Except OkfDocumentError (JsonValue ν) :=
  match value with
  | .array items =>
    if items.length = 0 || 100 < items.length then
      fail "INVALID_VERIFIED" "OKF field verified must contain between 1 and 100 actor events"
    else do
      let events ← mapItems (fun index event =>
        actorEvent event (indexed "verified" index) "INVALID_VERIFIED") 0 items
      return .array events
  | _ => actorEvent value (indexed "verified" 0) "INVALID_VERIFIED"

def staleAfterField (value : JsonValue ν) : Except OkfDocumentError (JsonValue ν) := do
  let text ← nonEmptyString (some value) "stale_after" 64 "INVALID_STALE_AFTER"
  let text ← timestampOnly text "stale_after" "INVALID_STALE_AFTER"
  return .string text

def sourceItem (index : Nat) (source : JsonValue ν) : Except OkfDocumentError (JsonValue ν) :=
  match source with
  | .object entries => do
      let field := indexed "sources" index
      let resource ← nonEmptyString (property (js "resource") entries) (field ++ ".resource") 4096 "INVALID_SOURCES"
      let entries := assign (js "resource") (.string resource) entries
      let entries ← stringField (js "id") (field ++ ".id") 255 "INVALID_SOURCES" entries
      let entries ← stringField (js "title") (field ++ ".title") 512 "INVALID_SOURCES" entries
      return .object entries
  | _ => fail "INVALID_SOURCES" ("OKF source " ++ toString (index + 1) ++ " must be a mapping")

def sourcesField (value : JsonValue ν) : Except OkfDocumentError (JsonValue ν) :=
  match value with
  | .array items =>
    if 100 < items.length then
      fail "INVALID_SOURCES" "OKF field sources must be a list of at most 100 source mappings"
    else do
      let sources ← mapItems sourceItem 0 items
      return .array sources
  | _ => fail "INVALID_SOURCES" "OKF field sources must be a list of at most 100 source mappings"

def textField (field : String) (maximum : Nat) (code : String) (value : JsonValue ν) :
    Except OkfDocumentError (JsonValue ν) :=
  (nonEmptyString (some value) field maximum code).map .string

/-- The fields in the order of their checks, each with the value that is kept. -/
def fields : List (JsString × (JsonValue ν → Except OkfDocumentError (JsonValue ν))) :=
  [(js "type", textField "type" 128 "INVALID_TYPE"),
    (js "title", textField "title" 255 "INVALID_TITLE"),
    (js "description", textField "description" 2000 "INVALID_DESCRIPTION"),
    (js "resource", textField "resource" 4096 "INVALID_RESOURCE"),
    (js "tags", tagsField),
    (js "status", statusField),
    (js "generated", fun value => actorEvent value "generated" "INVALID_GENERATED"),
    (js "verified", verifiedField),
    (js "stale_after", staleAfterField),
    (js "sources", sourcesField)]

/-- Every field is written once, after it has been read. -/
def checkFields : List (JsString × (JsonValue ν → Except OkfDocumentError (JsonValue ν))) → Entries ν →
    Except OkfDocumentError (Entries ν)
  | [], entries => .ok entries
  | (key, check) :: rest, entries =>
    match property key entries with
    | none => checkFields rest entries
    | some value => do
        let value ← check value
        checkFields rest (assign key value entries)

variable (frontmatterBytes : Entries ν → Nat)

def validateMetadata (value : JsonValue ν) : Except OkfDocumentError (Entries ν) :=
  match value with
  | .object entries => do
      let _ ← assertJsonTree value
      if (property (js "type") entries).isNone then
        fail "INVALID_TYPE" "OKF field type must be a non-empty string"
      else do
        let metadata ← checkFields fields entries
        if MAX_FRONTMATTER_BYTES < frontmatterBytes metadata then
          fail "OKF_FRONTMATTER_TOO_LARGE" "OKF frontmatter exceeds 65536 bytes"
        else return metadata
  | _ => fail "INVALID_OKF_ROOT" "OKF frontmatter must be a YAML mapping"

/-! ## Mutation -/

structure OkfMetadataMutation (ν : Type) where
  proposed : Option (JsonValue ν)
  producer : JsString
  (knowledgeChanged replace : Bool)
  at_ : JsString
  restore : Option JsString

def producerKinds : List JsString := [js "human", js "agent", js "mcp", js "import"]

/-- `/^(human|agent|mcp|import):(\S+)$/u`, with digits for a human. -/
def validProducer (producer : JsString) : Bool :=
  producerKinds.any fun kind =>
    let name := producer.drop (kind.length + 1)
    startsWith producer (kind ++ [58]) && !name.isEmpty && name.all (fun unit => !isSpace unit)
      && (kind ≠ js "human" || name.all isDigit)

/-- What metadata starts from. -/
def defaultMetadata : Entries ν := [(js "type", .string (js "Reference")), (js "status", .string (js "stable"))]

def stamp (producer at_ : JsString) : JsonValue ν :=
  .object [(js "by", .string producer), (js "at", .string at_)]

def restoreStamp (revision producer at_ : JsString) : JsonValue ν :=
  .object [(js "revision", .string revision), (js "by", .string producer), (js "at", .string at_)]

def validateOptional (value : Option (JsonValue ν)) : Except OkfDocumentError (Option (Entries ν)) :=
  match value with
  | none => .ok none
  | some value => (validateMetadata frontmatterBytes value).map some

/-- The metadata before the fields of trust are set. -/
def ordinaryMetadata (replace : Bool) (existing proposed : Option (Entries ν)) : Entries ν :=
  if replace then proposed.getD defaultMetadata
  else spread (existing.getD defaultMetadata) (proposed.getD [])

def trustedField (key : JsString) (existing : Option (Entries ν)) (metadata : Entries ν) : Entries ν :=
  assignOrRemove key (existing.bind (property key)) metadata

/-- A time given as a `Date` is its ISO text. -/
def mutateOkfMetadata (existing : Option (JsonValue ν)) (input : OkfMetadataMutation ν) :
    Except OkfDocumentError (Entries ν) := do
  let producer ← nonEmptyString (some (.string input.producer) : Option (JsonValue ν)) "producer" 255
    "INVALID_OKF_PRODUCER"
  if !validProducer producer then
    fail "INVALID_OKF_PRODUCER" "OKF producer must identify a human, agent, MCP request, or import"
  else if !isOkfTimestamp input.at_ then
    fail "INVALID_OKF_TIMESTAMP" "OKF mutation timestamp must be an ISO 8601 datetime with an explicit UTC offset"
  else do
    let existing ← validateOptional frontmatterBytes existing
    let proposed ← validateOptional frontmatterBytes input.proposed
    let metadata ← validateMetadata frontmatterBytes (.object (ordinaryMetadata input.replace existing proposed))
    let metadata :=
      if input.knowledgeChanged || existing.isNone then assign (js "generated") (stamp producer input.at_) metadata
      else trustedField (js "generated") existing metadata
    let metadata :=
      if startsWith producer (js "import:") then remove (js "verified") metadata
      else trustedField (js "verified") existing metadata
    let metadata ← match input.restore with
      | none => .ok (trustedField (js "restored_from") existing metadata)
      | some revision => do
          let revision ← nonEmptyString (some (.string revision) : Option (JsonValue ν)) "restore.revision" 255
            "INVALID_RESTORE"
          .ok (assign (js "restored_from") (restoreStamp revision producer input.at_) metadata)
    validateMetadata frontmatterBytes (.object metadata)

/-! ## Trust -/

def entriesOf : JsonValue ν → Entries ν
  | .object entries => entries
  | _ => []

def textOf : JsonValue ν → Option JsString
  | .string text => some text
  | _ => none

def verificationEvents (metadata : Entries ν) : List (Entries ν) :=
  match property (js "verified") metadata with
  | none => []
  | some (.array items) => items.map entriesOf
  | some event => [entriesOf event]

inductive TrustTier
  | unverified
  | machineConfirmed
  | humanReviewed
  deriving DecidableEq, Repr

inductive Verification
  | unverified
  | current
  | outdated
  deriving DecidableEq, Repr

structure OkfTrustSummary where
  trustTier : TrustTier
  verification : Verification
  status : JsString
  stale : Bool
  (generatedAt verifiedAt : Option JsString)
  deriving DecidableEq, Repr

def eventAt (event : Entries ν) : Option JsString := (property (js "at") event).bind textOf

/-- The latest of the events so far, the first one among those of one instant. -/
def laterEvent (verified : Option (JsString × OkfTimestampInstant)) (event : Entries ν) :
    Option (JsString × OkfTimestampInstant) :=
  match eventAt event with
  | none => verified
  | some text =>
    match parseOkfTimestampInstant text, verified with
    | none, _ => verified
    | some instant, none => some (text, instant)
    | some instant, some latest =>
      if 0 < compareOkfTimestampInstants instant latest.2 then some (text, instant) else some latest

def summarizeValidatedOkfTrust (metadata : Entries ν) (now : OkfTimestampInstant) : OkfTrustSummary :=
  let events := verificationEvents metadata
  let generatedAt := ((property (js "generated") metadata).map entriesOf).bind eventAt
  let generatedInstant := generatedAt.bind parseOkfTimestampInstant
  let verified := events.foldl laterEvent none
  { trustTier :=
      if events.isEmpty then .unverified
      else if events.any fun event => ((property (js "by") event).bind textOf).any (startsWith · (js "human:")) then
        .humanReviewed
      else .machineConfirmed
    verification :=
      if events.isEmpty then .unverified
      else
        match verified with
        | none => .outdated
        | some verified =>
          if generatedInstant.any fun generated => compareOkfTimestampInstants verified.2 generated < 0 then
            .outdated
          else .current
    status := ((property (js "status") metadata).bind textOf).getD (js "stable")
    stale := (((property (js "stale_after") metadata).bind textOf).bind parseOkfTimestampInstant).any fun staleAfter =>
      0 ≤ compareOkfTimestampInstants now staleAfter
    generatedAt
    verifiedAt := verified.map (·.1) }

def summarizeOkfTrust (value : JsonValue ν) (now : OkfTimestampInstant) :
    Except OkfDocumentError OkfTrustSummary :=
  (validateMetadata frontmatterBytes value).map fun metadata => summarizeValidatedOkfTrust metadata now

end

end TsEpistle.Okf
