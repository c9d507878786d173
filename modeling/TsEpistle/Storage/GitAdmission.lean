import TsEpistle.Json.Values
import TsEpistle.Library.Decimal
import TsEpistle.LinePatch.Decoding
import TsEpistle.Pages.Approvals
import TsEpistle.Storage.Paths

/-! What is admitted of the output of Git commands (`server/modules/storage/git/admission.ts`,
`server/modules/storage/internal-path.ts`, `server/modules/storage/import-budget.ts`). The output comes in chunks. -/

namespace TsEpistle.Storage.Git
open Library LinePatch
open Json (isDigit)
open Pages (isSpace trim)

abbrev Bytes := List UInt8

/-- `BoundedProcessError` with the code `parser`, and `RangeError`. -/
inductive Failure
  | parser (message : JsString)
  | range (message : JsString)
  deriving DecidableEq

def GIT_NATIVE_RECORD_LIMIT_BYTES : Nat := 8 * 1024
def IMPORT_MAX_ENTRIES : Nat := 10000
def IMPORT_MAX_BYTES : Nat := 256 * 1024 * 1024
def IMPORT_MAX_ASSET_BYTES : Nat := 64 * 1024 * 1024
def OKF_MAX_DOCUMENT_BYTES : Nat := 1048576
def MAX_SAFE_INTEGER : Nat := 2 ^ 53 - 1

/-! ## Records -/

structure NulRecordParser (σ : Type) where
  buffer : Bytes
  recordBytes : Nat
  state : σ

section
variable {σ : Type} (maxRecordBytes : Nat) (onRecord : Bytes → σ → Except Failure σ)

def recordExceeded : Failure :=
  .parser (js "Git NUL record exceeded " ++ decimal maxRecordBytes ++ js " bytes")

/-- The loop over the separators of the buffer, byte by byte: `record` is what stands before them. -/
def drain : Bytes → Bytes → Nat → σ → Except Failure (NulRecordParser σ)
  | record, [], recordBytes, state => .ok ⟨record, recordBytes, state⟩
  | record, byte :: bytes, recordBytes, state =>
    if byte = 0 then
      if maxRecordBytes < record.length then .error (recordExceeded maxRecordBytes)
      else do
        let state ← onRecord record state
        drain [] bytes bytes.length state
    else drain (record ++ [byte]) bytes recordBytes state

def push (parser : NulRecordParser σ) (chunk : Bytes) : Except Failure (NulRecordParser σ) :=
  if chunk = [] then .ok parser
  else if maxRecordBytes < parser.recordBytes + chunk.length ∧ 0 ∉ chunk then .error (recordExceeded maxRecordBytes)
  else do
    let parser ← drain maxRecordBytes onRecord [] (parser.buffer ++ chunk)
      (parser.recordBytes + chunk.length) parser.state
    if maxRecordBytes < parser.buffer.length then .error (recordExceeded maxRecordBytes) else return parser

def finish (parser : NulRecordParser σ) : Except Failure σ :=
  if parser.buffer ≠ [] then .error (.parser (js "Git command ended with an unterminated NUL record"))
  else .ok parser.state

/-- A command that writes these chunks and succeeds. -/
def stream (initial : σ) (chunks : List Bytes) : Except Failure σ := do
  let parser ← chunks.foldlM (push maxRecordBytes onRecord) ⟨[], 0, initial⟩
  finish parser

end

/-! ## Texts and paths -/

def parseUtf8 (bytes : Bytes) (label : JsString) : Except Failure JsString :=
  match decodeText bytes with
  | some text => .ok text
  | none => .error (.parser (js "Git " ++ label ++ js " is not valid UTF-8"))

def isLetter (unit : UInt16) : Bool := (65 ≤ unit && unit ≤ 90) || (97 ≤ unit && unit ≤ 122)

/-- The first two forms of `revisionPattern` are of the third. -/
def assertGitRevision (revision : JsString) : Except Failure Unit :=
  if revision = [] ∨ 128 < revision.length ∨ revision.head? = some 45
      ∨ ¬ revision.all fun unit => isLetter unit || isDigit unit || unit = 46 || unit = 95 || unit = 47
        || unit = 45 then
    .error (.parser (js "Git revision is not a safe object identifier"))
  else .ok ()

def pathParts (relativePath : JsString) : List JsString :=
  (segments (relativePath.map fun unit => if unit = 92 then 47 else unit)).filter fun part => !part.isEmpty

def isStorageGitMetadataPath (relativePath : JsString) : Bool :=
  (pathParts relativePath).any fun part => lower part = js ".git"

def isStorageReservedPath (relativePath : JsString) : Bool :=
  (pathParts relativePath).head? = some (js "_daily") || (pathParts relativePath).head? = some (js "_manual")

def isHexDigit (unit : UInt16) : Bool := isDigit unit || (97 ≤ unit && unit ≤ 102)

/-- `[0-9a-f]{8}-[0-9a-f]{4}-[1-5][0-9a-f]{3}-[89ab][0-9a-f]{3}-[0-9a-f]{12}` -/
def isUuid (text : JsString) : Bool :=
  match text.splitOn 45 with
  | [first, second, third, fourth, fifth] =>
    first.length = 8 && second.length = 4 && third.length = 4 && fourth.length = 4 && fifth.length = 12
      && [first, second, third, fourth, fifth].all (·.all isHexDigit)
      && third.head?.any (fun unit => 49 ≤ unit && unit ≤ 53)
      && fourth.head?.any fun unit => unit = 56 || unit = 57 || unit = 97 || unit = 98
  | _ => false

/-- `DESCRIPTOR_TEMPORARY_LEAF`: a dot and a name, a number, an identifier and `tmp`, between dots. -/
def isTemporaryLeaf (leaf : JsString) : Bool :=
  match ((lower leaf).splitOn 46).reverse with
  | tmp :: uuid :: number :: name :: names =>
    tmp = js "tmp" && isUuid uuid && number ≠ [] && number.all isDigit
      && (name :: names).getLast? = some [] && 2 ≤ ([46].intercalate (name :: names).reverse).length
  | _ => false

def isStorageTemporaryPath (relativePath : JsString) : Bool := (pathParts relativePath).getLast?.any isTemporaryLeaf

def isStorageInternalPath (relativePath : JsString) : Bool :=
  isStorageGitMetadataPath relativePath || isStorageReservedPath relativePath || isStorageTemporaryPath relativePath

def assertGitPath (relativePath : JsString) : Except Failure Unit :=
  if relativePath = [] ∨ GIT_NATIVE_RECORD_LIMIT_BYTES < relativePath.length ∨ relativePath.head? = some 47
      ∨ 92 ∈ relativePath ∨ 0 ∈ relativePath
      ∨ (segments relativePath).any fun part => part = [] || part = [46] || part = [46, 46] then
    .error (.parser (js "Git tree contains an unsafe path: " ++ relativePath))
  else if isStorageInternalPath relativePath || isStorageReservedPath relativePath then
    .error (.parser (js "Git tree contains an internal path: " ++ relativePath))
  else .ok ()

/-- The names that every object has. -/
def inheritedNames : List String :=
  ["constructor", "__defineGetter__", "__defineSetter__", "hasOwnProperty", "__lookupGetter__", "__lookupSetter__",
    "isPrototypeOf", "propertyIsEnumerable", "toString", "valueOf", "__proto__", "toLocaleString"]

/-- `getContentType` answers with something; the table of extensions inherits the names of objects. -/
def hasContentType (filePath : JsString) : Bool :=
  let extension := (filePath.splitOn 46).getLast?.getD []
  extension = js "md" || extension = js "adoc" || extension = js "html"
    || inheritedNames.any fun name => extension = js name

/-! ## Trees -/

inductive GitMode
  | directory
  | regular
  | executable
  deriving DecidableEq

inductive GitObjectType
  | tree
  | blob
  deriving DecidableEq

structure GitTreeEntry where
  mode : GitMode
  type : GitObjectType
  (oid path : JsString)
  size : Nat
  deriving DecidableEq

def parseMode (text : JsString) : Option GitMode :=
  if text = js "040000" then some .directory
  else if text = js "100644" then some .regular
  else if text = js "100755" then some .executable
  else none

def parseType (mode : GitMode) (text : JsString) : Option GitObjectType :=
  if mode = .directory then if text = js "tree" then some .tree else none
  else if text = js "blob" then some .blob else none

/-- `objectPattern` -/
def isObject (oid : JsString) : Bool := (oid.length = 40 || oid.length = 64) && oid.all isHexDigit

def parseSize (mode : GitMode) (text : JsString) : Option Nat :=
  if mode = .directory ∧ text = [45] then some 0
  else if text ≠ [] ∧ text.all isDigit ∧ decimalValue text ≤ MAX_SAFE_INTEGER then some (decimalValue text)
  else none

/-- `split(/\s+/u)` of a text without white space at its ends. -/
def words (text : JsString) : List JsString :=
  match (text.splitOnP isSpace).filter fun word => !word.isEmpty with
  | [] => [[]]
  | words => words

def parseHeader (header : JsString) : Except Failure (GitMode × GitObjectType × JsString × Nat) :=
  match words (trim header) with
  | [modeText, typeText, oid, sizeText] =>
    match parseMode modeText with
    | none => .error (.parser (js "Git tree contains a disallowed mode: " ++ modeText))
    | some mode =>
      match parseType mode typeText with
      | none => .error (.parser (js "Git ls-tree mode and object type do not agree"))
      | some type =>
        if ¬ isObject oid then .error (.parser (js "Git ls-tree record contains an invalid object identifier"))
        else
          match parseSize mode sizeText with
          | none => .error (.parser (js "Git ls-tree record contains an invalid object size"))
          | some size => .ok (mode, type, oid, size)
  | _ => .error (.parser (js "Git ls-tree record has an invalid header"))

def sizeLimit (maxAssetBytes : Nat) (path : JsString) : Nat :=
  if hasContentType path then OKF_MAX_DOCUMENT_BYTES else maxAssetBytes

/-- The bytes behind the first tabulator of a record. -/
def pathField (record : Bytes) : Bytes := (record.dropWhile (· ≠ 9)).tail

def parseTreeRecord (maxAssetBytes : Nat) (record : Bytes) : Except Failure GitTreeEntry :=
  if GIT_NATIVE_RECORD_LIMIT_BYTES < record.length then
    .error (.parser (js "Git ls-tree record exceeded " ++ decimal GIT_NATIVE_RECORD_LIMIT_BYTES ++ js " bytes"))
  else if 9 ∉ record then .error (.parser (js "Git ls-tree record is missing its path separator"))
  else do
    let header ← parseUtf8 (record.takeWhile (· ≠ 9)) (js "ls-tree header")
    let (mode, type, oid, size) ← parseHeader header
    let path ← parseUtf8 (pathField record) (js "ls-tree path")
    assertGitPath path
    if mode ≠ .directory ∧ sizeLimit maxAssetBytes path < size then
      .error (.parser (js "Git tree file exceeds its " ++ decimal (sizeLimit maxAssetBytes path) ++ js "-byte limit: "
        ++ path))
    else return ⟨mode, type, oid, path, size⟩

/-- The entries so far, and the budget. -/
structure TreeState where
  entries : List GitTreeEntry
  filesByPath : List (JsString × GitTreeEntry)
  (reserved bytes : Nat)

/-- `ImportBudget.reserve`; the size of an entry is a safe integer. -/
def reserve (maxEntries maxBytes : Nat) (size : Nat) (state : TreeState) : Except Failure TreeState :=
  if maxEntries ≤ state.reserved then
    .error (.parser (js "Import exceeds the " ++ decimal maxEntries ++ js "-entry limit"))
  else if (maxBytes : Int) - state.bytes < size then
    .error (.parser (js "Import exceeds the " ++ decimal maxBytes ++ js "-byte limit"))
  else .ok { state with reserved := state.reserved + 1, bytes := state.bytes + size }

def onTreeRecord (maxEntries maxBytes maxAssetBytes : Nat) (record : Bytes) (state : TreeState) :
    Except Failure TreeState := do
  let entry ← parseTreeRecord maxAssetBytes record
  if state.filesByPath.any (·.1 = entry.path) then
    .error (.parser (js "Git tree contains a duplicate path: " ++ entry.path))
  else do
    let state ← reserve maxEntries maxBytes entry.size state
    return { state with
      entries := state.entries ++ [entry], filesByPath := state.filesByPath ++ [(entry.path, entry)] }

/-- A number; `none` is one that is no safe integer. -/
abbrev Number := Option Int

def assertSafeLimit (value : Number) (name : JsString) : Except Failure Nat :=
  match value with
  | some value =>
    if value < 0 then .error (.range (name ++ js " must be a non-negative safe integer")) else .ok value.toNat
  | none => .error (.range (name ++ js " must be a non-negative safe integer"))

structure GitTreeAdmissionOptions where
  (maxEntries maxBytes maxAssetBytes : Option Number)

structure GitTreeAdmission where
  revision : JsString
  entries : List GitTreeEntry
  filesByPath : List (JsString × GitTreeEntry)
  (entriesCount bytes : Nat)
  deriving DecidableEq

/-- The limits of a tree: its entries, its bytes and the bytes of an asset. -/
def treeLimits (options : GitTreeAdmissionOptions) : Except Failure (Nat × Nat × Nat) := do
  let maxAssetBytes ← assertSafeLimit (options.maxAssetBytes.getD (some IMPORT_MAX_ASSET_BYTES))
    (js "Storage import asset limit")
  let maxEntries ← assertSafeLimit (options.maxEntries.getD (some IMPORT_MAX_ENTRIES)) (js "Import entry limit")
  let maxBytes ← assertSafeLimit (options.maxBytes.getD (some IMPORT_MAX_BYTES)) (js "Import byte limit")
  return (maxEntries, maxBytes, min maxAssetBytes IMPORT_MAX_ASSET_BYTES)

def admitGitTree (revision : JsString) (options : GitTreeAdmissionOptions) (chunks : List Bytes) :
    Except Failure GitTreeAdmission := do
  assertGitRevision revision
  let (maxEntries, maxBytes, maxAssetBytes) ← treeLimits options
  let state ← stream GIT_NATIVE_RECORD_LIMIT_BYTES (onTreeRecord maxEntries maxBytes maxAssetBytes)
    ⟨[], [], 0, 0⟩ chunks
  return ⟨revision, state.entries, state.filesByPath, state.reserved, state.bytes⟩

/-! ## Changes -/

inductive GitChangeStatus
  | A
  | C
  | D
  | M
  | R
  | T
  | U
  | X
  | B
  deriving DecidableEq

def parseStatus (unit : UInt16) : Option GitChangeStatus :=
  if unit = 65 then some .A
  else if unit = 67 then some .C
  else if unit = 68 then some .D
  else if unit = 77 then some .M
  else if unit = 82 then some .R
  else if unit = 84 then some .T
  else if unit = 85 then some .U
  else if unit = 88 then some .X
  else if unit = 66 then some .B
  else none

structure GitNameStatusChange where
  status : GitChangeStatus
  score : Option Nat
  (oldPath path : JsString)
  deriving DecidableEq

/-- `/^(A|C|D|M|R|T|U|X|B)([0-9]{1,3})?$/u` -/
def parseStatusToken (token : JsString) : Except Failure (GitChangeStatus × Option Nat) :=
  match token with
  | [] => .error (.parser (js "Git diff emitted an invalid status: " ++ token))
  | unit :: score =>
    match parseStatus unit with
    | none => .error (.parser (js "Git diff emitted an invalid status: " ++ token))
    | some status =>
      if 3 < score.length ∨ ¬ score.all isDigit then
        .error (.parser (js "Git diff emitted an invalid status: " ++ token))
      else .ok (status, if score = [] then none else some (decimalValue score))

/-- A rename and a copy have a destination as well. -/
def GitChangeStatus.renames (status : GitChangeStatus) : Bool := status = .R || status = .C

structure StatusState where
  fields : List JsString
  recordBytes : Nat
  changes : List GitNameStatusChange

def addChange (maxChanges : Nat) (change : GitNameStatusChange) (state : StatusState) : Except Failure StatusState :=
  if maxChanges ≤ state.changes.length then
    .error (.parser (js "Git diff exceeded its " ++ decimal maxChanges ++ js "-change limit"))
  else .ok ⟨[], 0, state.changes ++ [change]⟩

/-- What is done with the fields when one has been added. -/
def completeFields (maxChanges : Nat) (state : StatusState) : Except Failure StatusState :=
  match state.fields with
  | [] => .ok state
  | token :: paths => do
      let (status, score) ← parseStatusToken token
      match status.renames, paths with
      | _, [] => return state
      | false, [path] => do
          assertGitPath path
          addChange maxChanges ⟨status, score, path, path⟩ state
      | true, [_] => return state
      | true, [oldPath, path] => do
          assertGitPath oldPath
          assertGitPath path
          addChange maxChanges ⟨status, score, oldPath, path⟩ state
      | _, _ => .error (.parser (js "Git diff emitted too many fields for a status record"))

def onStatusRecord (maxChanges maxRecordBytes : Nat) (record : Bytes) (state : StatusState) :
    Except Failure StatusState :=
  if maxRecordBytes < state.recordBytes + (record.length + 1) then
    .error (.parser (js "Git diff record exceeded " ++ decimal maxRecordBytes ++ js " bytes"))
  else do
    let token ← parseUtf8 record (js "diff status/path")
    completeFields maxChanges
      { state with fields := state.fields ++ [token], recordBytes := state.recordBytes + (record.length + 1) }

structure GitNameStatusOptions where
  (maxChanges maxRecordBytes : Option Number)

/-- The limits of a list of changes: their number and the bytes of a record. -/
def statusLimits (options : GitNameStatusOptions) : Except Failure (Nat × Nat) :=
  match options.maxChanges.getD (some IMPORT_MAX_ENTRIES),
      options.maxRecordBytes.getD (some GIT_NATIVE_RECORD_LIMIT_BYTES) with
  | some maxChanges, maxRecordBytes =>
    if maxChanges < 0 then .error (.range (js "Git change limit must be a non-negative safe integer"))
    else
      match maxRecordBytes with
      | some maxRecordBytes =>
        if maxRecordBytes < 1 then .error (.range (js "Git record limit must be a positive safe integer"))
        else .ok (maxChanges.toNat, maxRecordBytes.toNat)
      | none => .error (.range (js "Git record limit must be a positive safe integer"))
  | none, _ => .error (.range (js "Git change limit must be a non-negative safe integer"))

def streamGitNameStatus (fromRevision toRevision : JsString) (options : GitNameStatusOptions) (chunks : List Bytes) :
    Except Failure (List GitNameStatusChange) := do
  assertGitRevision fromRevision
  assertGitRevision toRevision
  let (maxChanges, maxRecordBytes) ← statusLimits options
  let state ← stream maxRecordBytes (onStatusRecord maxChanges maxRecordBytes) ⟨[], 0, []⟩ chunks
  if state.fields ≠ [] then .error (.parser (js "Git diff ended with an incomplete status record"))
  else return state.changes

end TsEpistle.Storage.Git
