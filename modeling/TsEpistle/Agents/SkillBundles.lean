import TsEpistle.LinePatch.Decoding
import TsEpistle.Pages.Approvals
import TsEpistle.Storage.Paths

/-! Bundles of the resources of a skill: how they are approved, encoded and decoded (`server/agents/skills/parser.ts`,
`server/agents/skills/bundle.ts`, `server/agents/skills/virtual-path.ts`). The manifest and the hash of a bundle are
left out. -/

namespace TsEpistle.Agents.Skills
open Library LinePatch
open Pages (trim)
open Storage (segments joined lower)

abbrev Bytes := List UInt8

/-- `SkillValidationError`, `SkillPathError`, and the error of a buffer that is read or written out of range. -/
inductive Failure
  | validation (message : JsString)
  | path (message : JsString)
  | range
  deriving DecidableEq

def invalid (message : String) : Failure := .validation (js message)

/-! ## Paths -/

def MAX_PATH_BYTES : Nat := 512
def MAX_PATH_SEGMENTS : Nat := 8

/-- The bytes that `Buffer.from` makes of a text: a lone surrogate becomes the replacement character. -/
def bufferFrom (text : JsString) : Bytes :=
  ((codePoints text).map fun code => if IsScalar code then code else 0xfffd).flatMap utf8Bytes

def isAlphanumeric (unit : UInt16) : Bool :=
  (48 ≤ unit && unit ≤ 57) || (65 ≤ unit && unit ≤ 90) || (97 ≤ unit && unit ≤ 122)

/-- `/^[A-Za-z0-9][A-Za-z0-9._-]*$/` -/
def isPathSegment (segment : JsString) : Bool :=
  segment.head?.any isAlphanumeric && segment.all fun unit => isAlphanumeric unit || unit = 46 || unit = 95 || unit = 45

def validateSkillVirtualPath (value : JsString) : Except Failure JsString :=
  if value = [] ∨ MAX_PATH_BYTES < (bufferFrom value).length then
    .error (.path (js "Skill resource path is empty or too long"))
  else if value.head? = some 47 ∨ 92 ∈ value ∨ 0 ∈ value ∨ 37 ∈ value then
    .error (.path (js "Skill resource path must be a decoded relative POSIX path"))
  else if ¬ value.all fun unit => 0x20 ≤ unit && unit ≤ 0x7e then
    .error (.path (js "Skill resource path contains unsupported characters"))
  else if MAX_PATH_SEGMENTS < (segments value).length ∨ ¬ (segments value).all isPathSegment then
    .error (.path (js "Skill resource path contains an invalid segment"))
  else .ok (joined (segments value))

/-! ## Resources -/

structure SkillResourceInput where
  path : JsString
  bytes : Bytes
  (mediaType sourceId sourceRevision : JsString)
  symbolicLink : Bool

/-- The `size` of a resource is the number of its bytes, `executable` is always `false`. -/
structure SkillResource where
  path : JsString
  bytes : Bytes
  (mediaType sha256 sourceId sourceRevision : JsString)
  deriving DecidableEq

/-- What `parseSkillMarkdown` answers with, as far as a bundle reads it. -/
structure ParsedSkillMarkdown where
  bytes : Bytes
  references : List JsString

structure ApprovedSkillBundle where
  entry : ParsedSkillMarkdown
  resources : List SkillResource
  totalBytes : Nat

/-- The digests, the order of the language and the patterns of blocked texts: `secret` is the name of a pattern that
matches. -/
structure Platform where
  sha256 : Bytes → JsString
  toLowerCase : JsString → JsString
  localeCompare : JsString → JsString → Int
  activeContent : JsString → Bool
  secret : JsString → Option JsString

def MAX_RESOURCE_BYTES : Nat := 128 * 1024
def MAX_BUNDLE_BYTES : Nat := 512 * 1024
def MAX_RESOURCES : Nat := 32
def MAX_FIELD_BYTES : Nat := 1024

/-- The keys of `ALLOWED_MEDIA_TYPES`, and those that every object has and that are written in small letters. -/
def allowedMediaTypes : List JsString :=
  [js "text/markdown", js "text/plain", js "application/json", js "application/javascript", js "text/javascript",
    js "image/png", js "image/jpeg", js "image/gif", js "image/webp", js "constructor", js "__proto__"]

section
variable (platform : Platform)

def normalizedMediaType (mediaType : JsString) : JsString := trim ((platform.toLowerCase mediaType).takeWhile (· ≠ 59))

/-- `/\.(?:html?|xhtml|svg|xml)$/i` -/
def isMarkupPath (path : JsString) : Bool :=
  [js ".htm", js ".html", js ".xhtml", js ".svg", js ".xml"].any fun tail => endsWith (lower path) tail

def validateMediaType (path mediaType : JsString) : Except Failure Unit :=
  if allowedMediaTypes.contains (normalizedMediaType platform mediaType) = false ∨ isMarkupPath path then
    .error (.validation (js "Skill resource " ++ path ++ js " has a blocked media type"))
  else .ok ()

def isText (mediaType : JsString) : Bool :=
  startsWith mediaType (js "text/") || mediaType = js "application/json" || mediaType.tails.any fun rest =>
    startsWith rest (js "javascript")

def assertText (reference : JsString) (bytes : Bytes) : Except Failure Unit :=
  match decodeText bytes with
  | none => .error (.validation (reference ++ js " is not valid UTF-8"))
  | some text =>
    if 0 ∈ text ∨ platform.activeContent text then
      .error (.validation (js "Skill resource " ++ reference ++ js " contains blocked active content"))
    else
      match platform.secret text with
      | some name => .error (.validation (reference ++ js " matches blocked secret pattern " ++ name))
      | none => .ok ()

abbrev Supplied := List (JsString × SkillResourceInput)

def supply (supplied : Supplied) (resource : SkillResourceInput) : Except Failure Supplied := do
  let path ← validateSkillVirtualPath resource.path
  if path = js "SKILL.md" ∨ supplied.any (·.1 = path) then
    .error (.validation (js "Skill resource path " ++ path ++ js " is duplicated or reserved"))
  else return supplied ++ [(path, resource)]

def approvedResource (reference : JsString) (resource : SkillResourceInput) : SkillResource where
  path := reference
  bytes := resource.bytes
  mediaType := normalizedMediaType platform resource.mediaType
  sha256 := platform.sha256 resource.bytes
  sourceId := resource.sourceId
  sourceRevision := resource.sourceRevision

def approve (supplied : Supplied) (reference : JsString) : Except Failure SkillResource :=
  match supplied.find? fun entry => entry.1 = reference with
  | none => .error (.validation (js "Referenced skill resource " ++ reference ++ js " is missing"))
  | some (_, resource) =>
    if resource.symbolicLink then
      .error (.validation (js "Skill resource " ++ reference ++ js " must not be a symbolic link"))
    else if resource.bytes = [] ∨ MAX_RESOURCE_BYTES < resource.bytes.length then
      .error (.validation (js "Skill resource " ++ reference ++ js " exceeds its byte limit"))
    else do
      validateMediaType platform reference resource.mediaType
      if isText (normalizedMediaType platform resource.mediaType) then assertText platform reference resource.bytes
      return approvedResource platform reference resource

def sortByLocale (resources : List SkillResource) : List SkillResource :=
  resources.insertionSort fun left right => platform.localeCompare left.path right.path ≤ 0

def buildApprovedSkillBundle (entry : ParsedSkillMarkdown) (resources : List SkillResourceInput) :
    Except Failure ApprovedSkillBundle :=
  if MAX_RESOURCES < resources.length then .error (invalid "Skill bundle has too many resources")
  else do
    let supplied ← resources.foldlM supply []
    let approved ← entry.references.mapM (approve platform supplied)
    let totalBytes := entry.bytes.length + (approved.map fun resource => resource.bytes.length).sum
    if supplied.length ≠ approved.length then
      .error (invalid "Skill bundle contains resources not explicitly referenced by SKILL.md")
    else if MAX_BUNDLE_BYTES < totalBytes then .error (invalid "Skill bundle exceeds its total byte limit")
    else return ⟨entry, sortByLocale platform approved, totalBytes⟩

end

/-! ## Encoding -/

def MAGIC : Bytes := [87, 83, 75, 49]

def uint16 (value : Nat) : Bytes := [(value / 0x100).toUInt8, (value % 0x100).toUInt8]

def uint32 (value : Nat) : Bytes :=
  [(value / 0x1000000).toUInt8, (value / 0x10000 % 0x100).toUInt8, (value / 0x100 % 0x100).toUInt8,
    (value % 0x100).toUInt8]

def fieldBytes (bytes : Bytes) : Bytes := uint16 bytes.length ++ bytes

def encodeField (value : JsString) : Except Failure Bytes :=
  let bytes := bufferFrom value
  if bytes = [] ∨ MAX_FIELD_BYTES < bytes.length ∨ 0xffff < bytes.length then
    .error (invalid "Skill resource bundle field is empty or too long")
  else .ok (fieldBytes bytes)

def encodeData (bytes : Bytes) : Except Failure Bytes :=
  if 0xffffffff < bytes.length then .error .range else .ok (uint32 bytes.length ++ bytes)

def encodeResource (resource : SkillResource) : Except Failure Bytes := do
  let data ← encodeData resource.bytes
  let path ← encodeField resource.path
  let mediaType ← encodeField resource.mediaType
  let sha256 ← encodeField resource.sha256
  let sourceId ← encodeField resource.sourceId
  let sourceRevision ← encodeField resource.sourceRevision
  return path ++ (mediaType ++ (sha256 ++ (sourceId ++ (sourceRevision ++ data))))

/-- The paths go up from the one before, code unit by code unit. -/
def encodeResources : JsString → List SkillResource → Except Failure Bytes
  | _, [] => .ok []
  | previousPath, resource :: resources =>
    if ¬ previousPath < resource.path then .error (invalid "Skill resource bundle paths must be uniquely sorted")
    else do
      let bytes ← encodeResource resource
      let rest ← encodeResources resource.path resources
      return bytes ++ rest

def encodeSkillResourceBundle (resources : List SkillResource) : Except Failure Bytes :=
  if MAX_RESOURCES < resources.length then .error (invalid "Skill resource bundle has too many resources")
  else do
    let chunks ← encodeResources [] resources
    let bundle := MAGIC ++ (uint16 resources.length ++ chunks)
    if MAX_BUNDLE_BYTES < bundle.length then
      .error (invalid "Encoded skill resource bundle exceeds its byte limit")
    else return bundle

/-! ## Decoding -/

def truncated : Failure := invalid "Skill resource bundle is truncated"

def readUInt16 (buffer : Bytes) (offset : Nat) : Except Failure Nat :=
  if buffer.length < offset + 2 then .error truncated
  else
    match buffer.drop offset with
    | a :: b :: _ => .ok (a.toNat * 0x100 + b.toNat)
    | _ => .error .range

def readUInt32 (buffer : Bytes) (offset : Nat) : Except Failure Nat :=
  if buffer.length < offset + 4 then .error truncated
  else
    match buffer.drop offset with
    | a :: b :: c :: d :: _ => .ok (a.toNat * 0x1000000 + b.toNat * 0x10000 + c.toNat * 0x100 + d.toNat)
    | _ => .error .range

/-- The bytes from an offset; a buffer gives none behind its end. -/
def subarray (buffer : Bytes) (start length : Nat) : Except Failure Bytes :=
  if start + length ≤ buffer.length then .ok ((buffer.drop start).take length) else .error .range

def readField (buffer : Bytes) (offset : Nat) : Except Failure (JsString × Nat) := do
  let length ← readUInt16 buffer offset
  if length = 0 ∨ MAX_FIELD_BYTES < length ∨ buffer.length < offset + 2 + length then
    .error (invalid "Skill resource bundle field is invalid")
  else do
    let bytes ← subarray buffer (offset + 2) length
    match decodeText bytes with
    | none => .error (invalid "Skill resource bundle field is not valid UTF-8")
    | some value => .ok (value, offset + 2 + length)

/-- `HashSchema` -/
def isHash (text : JsString) : Bool :=
  text.length = 64 && text.all fun unit => (48 ≤ unit && unit ≤ 57) || (97 ≤ unit && unit ≤ 102)

def readData (buffer : Bytes) (offset : Nat) : Except Failure (Bytes × Nat) := do
  let dataLength ← readUInt32 buffer offset
  if dataLength = 0 ∨ buffer.length < offset + 4 + dataLength then
    .error (invalid "Skill resource bundle data is invalid")
  else do
    let bytes ← subarray buffer (offset + 4) dataLength
    return (bytes, offset + 4 + dataLength)

section
variable (sha256 : Bytes → JsString)

def decodeResource (buffer : Bytes) (previousPath : JsString) (offset : Nat) :
    Except Failure (SkillResource × Nat) := do
  let (path, offset) ← readField buffer offset
  let (mediaType, offset) ← readField buffer offset
  let (hash, offset) ← readField buffer offset
  let (sourceId, offset) ← readField buffer offset
  let (sourceRevision, offset) ← readField buffer offset
  let _ ← validateSkillVirtualPath path
  if ¬ previousPath < path ∨ isHash hash = false then .error (invalid "Skill resource bundle manifest is invalid")
  else do
    let (bytes, offset) ← readData buffer offset
    if sha256 bytes ≠ hash then .error (invalid "Skill resource bundle hash does not match its bytes")
    else return (⟨path, bytes, mediaType, hash, sourceId, sourceRevision⟩, offset)

/-- The loop over the resources that are left. -/
def decodeResources (buffer : Bytes) : Nat → JsString → Nat → Except Failure (List SkillResource × Nat)
  | 0, _, offset => .ok ([], offset)
  | count + 1, previousPath, offset => do
      let (resource, offset) ← decodeResource sha256 buffer previousPath offset
      let (resources, offset) ← decodeResources buffer count resource.path offset
      return (resource :: resources, offset)

def decodeSkillResourceBundle (buffer : Bytes) : Except Failure (List SkillResource) :=
  if buffer.length < 6 ∨ MAX_BUNDLE_BYTES < buffer.length ∨ buffer.take 4 ≠ MAGIC then
    .error (invalid "Skill resource bundle header is invalid")
  else do
    let count ← readUInt16 buffer 4
    if MAX_RESOURCES < count then .error (invalid "Skill resource bundle has too many resources")
    else do
      let (resources, offset) ← decodeResources sha256 buffer count [] 6
      if offset ≠ buffer.length then .error (invalid "Skill resource bundle has trailing bytes")
      else return resources

end

end TsEpistle.Agents.Skills
