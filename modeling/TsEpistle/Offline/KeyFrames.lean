import TsEpistle.Agents.SkillFrames

/-! The keys of the offline storage on their way to the browser: the frames of the server
(`server/helpers/offline-draft-keys.ts`), how the client reads them (`client/helpers/offline-session.ts`), and what
the drafts are bound to (`client/helpers/offline-crypto.ts`). -/

namespace TsEpistle.Offline.KeyFrames
open Library LinePatch
open Agents.Skills (Bytes bufferFrom uint32)
open Pages (trim)

def MAX_SAFE_INTEGER : Nat := 2 ^ 53 - 1

/-! ## Origins -/

structure ParsedUrl where
  (origin protocol hostname username password pathname search hash : JsString)

/-- `https`, or `http` to this machine. -/
def ParsedUrl.secure (parsed : ParsedUrl) : Bool :=
  parsed.protocol = js "https:"
    || (parsed.protocol = js "http:" && [js "localhost", js "127.0.0.1", js "[::1]"].contains parsed.hostname)

/-- Nothing stands behind the origin. -/
def ParsedUrl.bare (parsed : ParsedUrl) : Bool :=
  parsed.username = [] && parsed.password = [] && parsed.pathname = js "/" && parsed.search = [] && parsed.hash = []

/-- What is assumed of `new URL`: the origin of such a URL is a text of visible ASCII, which is read as itself. -/
structure UrlLaws (parseUrl : JsString → Option ParsedUrl) : Prop where
  visible {value : JsString} {parsed : ParsedUrl} (h : parseUrl value = some parsed) (hsecure : parsed.secure = true) :
    parsed.origin ≠ [] ∧ ∀ unit ∈ parsed.origin, 33 ≤ unit.toNat ∧ unit.toNat ≤ 126
  again {value : JsString} {parsed : ParsedUrl} (h : parseUrl value = some parsed) (hsecure : parsed.secure = true) :
    ∃ same, parseUrl parsed.origin = some same ∧ same.origin = parsed.origin ∧ same.secure = true ∧ same.bare = true

/-! ## Contexts -/

structure DraftKeyContext where
  (canonicalOrigin siteId : JsString)
  (accountId authVersion : Nat)
  keyVersion : JsString
  deriving DecidableEq

/-- The `schemaVersion` is always 1. -/
structure OfflineReadingContext extends DraftKeyContext where
  keyId : JsString
  deriving DecidableEq

def OFFLINE_KEY_VERSION : JsString := js "session-secret-v1"
def OFFLINE_READING_KEY_VERSION : JsString := js "random-reading-v1"
def OFFLINE_DRAFT_KEY_LABEL : JsString := js "tsepistle/offline-draft-key/v1"
def OFFLINE_DRAFT_KEY_MAGIC : Bytes := [84, 83, 79, 68, 75, 49]
def OFFLINE_READING_KEY_MAGIC : Bytes := [84, 83, 79, 82, 75, 49]
def OFFLINE_KEY_BYTES : Nat := 32
def OFFLINE_READING_KEY_FRAME_MAX_BYTES : Nat := 16 * 1024

/-! ## The server's frames -/

def assertUnsignedInteger (value : Nat) (label : String) (minimum : Nat) : Except String Nat :=
  if MAX_SAFE_INTEGER < value ∨ value < minimum then .error (label ++ " must be a safe integer") else .ok value

def lpBytes (bytes : Bytes) : Bytes := uint32 bytes.length ++ bytes

def lpUtf8 (value : JsString) : Except String Bytes :=
  let bytes := bufferFrom value
  if 0xffffffff < bytes.length then .error "Encoded offline draft-key field is too large" else .ok (lpBytes bytes)

def assertBoundedUtf8 (value : JsString) (label : String) (maximumBytes : Nat) : Except String Unit :=
  if maximumBytes < (bufferFrom value).length then .error (label ++ " is too large") else .ok ()

/-- Eight bytes, of which the first four count by 2³². -/
def u64 (value : Nat) : Bytes := uint32 (value / 0x100000000) ++ uint32 (value % 0x100000000)

def u64be (value : Nat) (label : String) (minimum : Nat) : Except String Bytes := do
  let integer ← assertUnsignedInteger value label minimum
  return u64 integer

/-- The numbers of a context; its texts have been checked before. -/
def contextNumbers (context : DraftKeyContext) : Except String Unit := do
  let _ ← assertUnsignedInteger context.accountId "accountId" 1
  let _ ← assertUnsignedInteger context.authVersion "authVersion" 0
  return ()

def contextFields (context : DraftKeyContext) : Except String Unit :=
  if context.keyVersion ≠ OFFLINE_KEY_VERSION then .error "Unsupported offline draft-key version"
  else do
    assertBoundedUtf8 context.canonicalOrigin "Canonical origin" 2048
    assertBoundedUtf8 context.siteId "Site identity" 256
    contextNumbers context

/-- The fields that both frames and the key's derivation hold in this order. -/
def headBytes (context : DraftKeyContext) (keyVersion : JsString) : Except String Bytes := do
  let origin ← lpUtf8 context.canonicalOrigin
  let site ← lpUtf8 context.siteId
  let account ← u64be context.accountId "accountId" 1
  let auth ← u64be context.authVersion "authVersion" 0
  let version ← lpUtf8 keyVersion
  return origin ++ (site ++ (account ++ (auth ++ version)))

def encodeOfflineDraftKeyInfo (context : DraftKeyContext) : Except String Bytes := do
  contextFields context
  let label ← lpUtf8 OFFLINE_DRAFT_KEY_LABEL
  let head ← headBytes context OFFLINE_KEY_VERSION
  return label ++ head

def encodeOfflineDraftKeyFrame (context : DraftKeyContext) (key : Bytes) : Except String Bytes := do
  contextFields context
  if key.length ≠ OFFLINE_KEY_BYTES then .error "Offline draft key must contain exactly 32 bytes"
  else
    let head ← headBytes context OFFLINE_KEY_VERSION
    return OFFLINE_DRAFT_KEY_MAGIC ++ (head ++ key)

/-! ## Key identities -/

/-- The character for six bits in `base64url`. -/
def sextet (bits : Nat) : UInt16 :=
  (if bits < 26 then 65 + bits else if bits < 52 then 71 + bits else if bits < 62 then bits - 4
    else if bits = 62 then 45 else 95).toUInt16

def sextetBits (unit : UInt16) : Option Nat :=
  if 65 ≤ unit ∧ unit ≤ 90 then some (unit.toNat - 65)
  else if 97 ≤ unit ∧ unit ≤ 122 then some (unit.toNat - 71)
  else if 48 ≤ unit ∧ unit ≤ 57 then some (unit.toNat + 4)
  else if unit = 45 then some 62
  else if unit = 95 then some 63
  else none

/-- `toString('base64url')` -/
def base64UrlEncode : Bytes → JsString
  | a :: b :: c :: rest =>
    sextet (a.toNat / 4) :: sextet (a.toNat % 4 * 16 + b.toNat / 16) :: sextet (b.toNat % 16 * 4 + c.toNat / 64)
      :: sextet (c.toNat % 64) :: base64UrlEncode rest
  | [a, b] => [sextet (a.toNat / 4), sextet (a.toNat % 4 * 16 + b.toNat / 16), sextet (b.toNat % 16 * 4)]
  | [a] => [sextet (a.toNat / 4), sextet (a.toNat % 4 * 16)]
  | [] => []

def joinSextets : List Nat → Bytes
  | a :: b :: c :: d :: rest =>
    (a * 4 + b / 16).toUInt8 :: (b % 16 * 16 + c / 4).toUInt8 :: (c % 4 * 64 + d).toUInt8 :: joinSextets rest
  | [a, b, c] => [(a * 4 + b / 16).toUInt8, (b % 16 * 16 + c / 4).toUInt8]
  | [a, b] => [(a * 4 + b / 16).toUInt8]
  | _ => []

/-- `Buffer.from(value, 'base64url')`; other characters are passed over. -/
def base64UrlDecode (value : JsString) : Bytes := joinSextets (value.filterMap sextetBits)

/-- What `canonicalReadingKeyId` and the client's `base64UrlDecode` let through: sixteen bytes as they are written. -/
def isKeyId (value : JsString) : Bool :=
  value.length = 22 && (base64UrlDecode value).length = 16 && base64UrlEncode (base64UrlDecode value) = value

section
variable (parseUrl : JsString → Option ParsedUrl)

def canonicalOriginFromConfig (value : JsString) : Except String JsString :=
  if value = [] then .error "Configured site origin is unavailable"
  else
    match parseUrl value with
    | none => .error "Configured site origin is invalid"
    | some parsed =>
      if !parsed.secure || !parsed.bare then .error "Configured site origin is invalid"
      else do
        assertBoundedUtf8 parsed.origin "Configured site origin" 2048
        return parsed.origin

def configuredSiteId (value : JsString) : Except String JsString :=
  if value = [] then .error "Configured site identity is unavailable"
  else do
    assertBoundedUtf8 value "Configured site identity" 256
    return value

def readingContextFields (context : OfflineReadingContext) : Except String DraftKeyContext :=
  if context.keyVersion ≠ OFFLINE_READING_KEY_VERSION then .error "Unsupported offline reading key version"
  else do
    let canonicalOrigin ← canonicalOriginFromConfig parseUrl context.canonicalOrigin
    let siteId ← configuredSiteId context.siteId
    contextNumbers context.toDraftKeyContext
    if !isKeyId context.keyId then .error "Offline reading key id is invalid"
    else return { context.toDraftKeyContext with canonicalOrigin := canonicalOrigin, siteId := siteId }

def encodeOfflineReadingKeyFrame (context : OfflineReadingContext) (key : Bytes) : Except String Bytes := do
  let fields ← readingContextFields parseUrl context
  if key.length ≠ OFFLINE_KEY_BYTES then .error "Offline reading key must contain exactly 32 bytes"
  else
    let head ← headBytes fields OFFLINE_READING_KEY_VERSION
    let keyId ← lpUtf8 context.keyId
    let frame := OFFLINE_READING_KEY_MAGIC ++ (head ++ (keyId ++ key))
    if OFFLINE_READING_KEY_FRAME_MAX_BYTES < frame.length then .error "Offline reading key frame is too large"
    else return frame

/-! ## The server's contexts -/

/-- The user session of a request; `none` for what is not a number. -/
structure UserSession where
  userId : Nat
  (idClaim authVersionClaim : Option Nat)

/-- `authVersion` is `none` where the account has none. -/
structure Account where
  id : Nat
  isActive : Bool
  authVersion : Option Nat

structure Config where
  host : JsString
  offlineDraftSiteId : Option JsString

def sessionVersion : Option Nat → Option Nat
  | none => some 0
  | some version => if version ≤ 2147483647 then some version else none

def accountSessionIsCurrent (id authVersion : Nat) (account : Account) : Bool :=
  id ≤ MAX_SAFE_INTEGER && 1 ≤ id && id ≠ 2 && id = account.id && account.isActive
    && (sessionVersion (some authVersion)).isSome && sessionVersion (some authVersion)
      = sessionVersion account.authVersion

def authenticationRequired : String := "A current human user session is required"

/-- The id of the account that the claims are about. -/
def currentAccount (accountId authVersionClaim : Nat) : Option Account → Except String Nat
  | none => .error authenticationRequired
  | some account =>
    if !accountSessionIsCurrent accountId authVersionClaim account then .error authenticationRequired
    else assertUnsignedInteger account.id "accountId" 1

/-- The origin stands for an identity that is not configured. -/
def siteIdentity (config : Config) (canonicalOrigin : JsString) : JsString :=
  match config.offlineDraftSiteId with
  | none | some [] => canonicalOrigin
  | some siteId => siteId

/-- What both contexts are made of, before the version and the identity of the key. -/
def resolveContext (session : UserSession) (account : Option Account) (config : Config) (keyVersion : JsString) :
    Except String DraftKeyContext :=
  match session.authVersionClaim with
  | none => .error authenticationRequired
  | some authVersionClaim =>
    if session.idClaim ≠ some session.userId ∨ MAX_SAFE_INTEGER < authVersionClaim then .error authenticationRequired
    else do
      let accountId ← assertUnsignedInteger session.userId "accountId" 1
      let currentAccountId ← currentAccount accountId authVersionClaim account
      match account.bind fun account => sessionVersion account.authVersion with
      | none => .error authenticationRequired
      | some currentAuthVersion =>
        let canonicalOrigin ← canonicalOriginFromConfig parseUrl config.host
        let siteId ← configuredSiteId (siteIdentity config canonicalOrigin)
        return ⟨canonicalOrigin, siteId, currentAccountId, currentAuthVersion, keyVersion⟩

def resolveOfflineDraftKeyContext (session : UserSession) (account : Option Account) (config : Config) :
    Except String DraftKeyContext :=
  resolveContext parseUrl session account config OFFLINE_KEY_VERSION

/-- With sixteen random bytes. -/
def resolveOfflineReadingContext (session : UserSession) (account : Option Account) (config : Config)
    (keyIdBytes : Bytes) : Except String OfflineReadingContext := do
  let context ← resolveContext parseUrl session account config OFFLINE_READING_KEY_VERSION
  return ⟨context, base64UrlEncode keyIdBytes⟩

/-! ## The client's readers -/

def MAX_FRAME_BYTES : Nat := 16 * 1024
def MAX_CANONICAL_ORIGIN_BYTES : Nat := 8 * 1024
def MAX_SITE_ID_BYTES : Nat := 1024
def MAX_KEY_ID_BYTES : Nat := 128

def isSafePositiveInteger (value : Nat) : Bool := 0 < value && value ≤ MAX_SAFE_INTEGER

def isSafeNonnegativeInteger (value : Nat) : Bool := value ≤ MAX_SAFE_INTEGER

def canonicalOrigin (value : JsString) : Option JsString :=
  (parseUrl value).bind fun parsed =>
    if parsed.origin = value ∧ parsed.secure ∧ parsed.bare then some parsed.origin else none

/-- A number of four bytes, and the bytes behind it, which stand for the offset. -/
def readLength : Bytes → Option (Nat × Bytes)
  | a :: b :: c :: d :: rest =>
    some (a.toNat * 0x1000000 + b.toNat * 0x10000 + c.toNat * 0x100 + d.toNat, rest)
  | _ => none

/-- `readLpUtf8`, and `readReadingLength`, which does the same. -/
def readLpUtf8 (maximumBytes : Nat) (bytes : Bytes) : Option (JsString × Bytes) :=
  (readLength bytes).bind fun (length, rest) =>
    if maximumBytes < length ∨ rest.length < length then none
    else (decodeText (rest.take length)).map fun value => (value, rest.drop length)

def readU64 (bytes : Bytes) : Option (Nat × Bytes) :=
  (readLength bytes).bind fun (high, rest) =>
    (readLength rest).bind fun (low, rest) =>
      if MAX_SAFE_INTEGER < high * 0x100000000 + low then none else some (high * 0x100000000 + low, rest)

/-- The fields that both frames begin with, and the bytes behind them. -/
def readHead (versionBytes : Nat) (bytes : Bytes) : Option (DraftKeyContext × Bytes) :=
  (readLpUtf8 MAX_CANONICAL_ORIGIN_BYTES bytes).bind fun (origin, rest) =>
    (readLpUtf8 MAX_SITE_ID_BYTES rest).bind fun (siteId, rest) =>
      (readU64 rest).bind fun (accountId, rest) =>
        (readU64 rest).bind fun (authVersion, rest) =>
          (readLpUtf8 versionBytes rest).map fun (keyVersion, rest) =>
            (⟨origin, siteId, accountId, authVersion, keyVersion⟩, rest)

/-- The bytes behind the magic ones. -/
def afterMagic (magic bytes : Bytes) : Option Bytes :=
  if bytes.length < magic.length ∨ MAX_FRAME_BYTES < bytes.length then none
  else if magic.isPrefixOf bytes then some (bytes.drop magic.length) else none

def siteAccepted (siteId : JsString) : Bool := 1 ≤ siteId.length && siteId.length ≤ 256 && trim siteId = siteId

/-- `boundedIdentifier` -/
def boundedIdentifier (value : JsString) : Option JsString :=
  if 1 ≤ (trim value).length ∧ (trim value).length ≤ 256 then some (trim value) else none

/-- `DraftKeyContextSchema` -/
def parseDraftKeyContext (context : DraftKeyContext) : Option DraftKeyContext :=
  if (parseUrl (trim context.canonicalOrigin)).isSome ∧ (trim context.canonicalOrigin).length ≤ 2048
      ∧ isSafePositiveInteger context.accountId ∧ isSafeNonnegativeInteger context.authVersion
      ∧ context.keyVersion = OFFLINE_KEY_VERSION then
    (boundedIdentifier context.siteId).map fun siteId =>
      { context with canonicalOrigin := trim context.canonicalOrigin, siteId := siteId }
  else none

structure DraftKeyFrameExpectation where
  canonicalOrigin : JsString
  (expectedAccountId expectedSessionGeneration : Nat)

structure ParsedDraftKeyFrame where
  context : DraftKeyContext
  sessionGeneration : Nat
  keyBytes : Bytes
  deriving DecidableEq

def assertExpected (expected : DraftKeyFrameExpectation) : Bool :=
  1 ≤ expected.canonicalOrigin.length && expected.canonicalOrigin.length ≤ 2048
    && isSafePositiveInteger expected.expectedAccountId && isSafeNonnegativeInteger expected.expectedSessionGeneration

/-- Every error is the same opaque one. -/
def parseDraftKeyFrame (bytes : Bytes) (expected : DraftKeyFrameExpectation) : Option ParsedDraftKeyFrame :=
  if !assertExpected expected then none
  else
    (afterMagic OFFLINE_DRAFT_KEY_MAGIC bytes).bind fun rest =>
      (readHead OFFLINE_KEY_VERSION.length rest).bind fun (head, key) =>
        (canonicalOrigin parseUrl head.canonicalOrigin).bind fun origin =>
          if key.length = OFFLINE_KEY_BYTES ∧ canonicalOrigin parseUrl expected.canonicalOrigin = some origin
              ∧ siteAccepted head.siteId ∧ head.accountId = expected.expectedAccountId
              ∧ isSafePositiveInteger head.accountId ∧ isSafeNonnegativeInteger head.authVersion
              ∧ head.keyVersion = OFFLINE_KEY_VERSION then
            (parseDraftKeyContext parseUrl { head with canonicalOrigin := origin }).map fun context =>
              ⟨context, expected.expectedSessionGeneration, key⟩
          else none

structure OfflineReadingKeyFrameExpectation where
  canonicalOrigin : JsString
  (expectedAccountId expectedSessionGeneration : Nat)
  expectedAuthVersion : Option Nat
  expectedSiteId : Option JsString

structure ParsedOfflineReadingKeyFrame where
  context : OfflineReadingContext
  keyBytes : Bytes
  deriving DecidableEq

def validateReadingExpectation (expected : OfflineReadingKeyFrameExpectation) : Option JsString :=
  if isSafePositiveInteger expected.expectedAccountId ∧ isSafeNonnegativeInteger expected.expectedSessionGeneration
      ∧ expected.expectedAuthVersion.all isSafeNonnegativeInteger ∧ expected.expectedSiteId.all siteAccepted then
    canonicalOrigin parseUrl expected.canonicalOrigin
  else none

/-- `OfflineReadingContextV1Schema` -/
def parseOfflineReadingContext (context : OfflineReadingContext) : Option OfflineReadingContext :=
  if 1 ≤ context.canonicalOrigin.length ∧ context.canonicalOrigin.length ≤ 2048
      ∧ (canonicalOrigin parseUrl context.canonicalOrigin).isSome
      ∧ isSafePositiveInteger context.accountId ∧ isSafeNonnegativeInteger context.authVersion
      ∧ context.keyVersion = OFFLINE_READING_KEY_VERSION ∧ context.keyId.all (fun unit => (sextetBits unit).isSome)
      ∧ context.keyId.length = 22 then
    (boundedIdentifier context.siteId).map fun siteId => { context with siteId := siteId }
  else none

def parseOfflineReadingKeyFrame (bytes : Bytes) (expected : OfflineReadingKeyFrameExpectation) :
    Option ParsedOfflineReadingKeyFrame :=
  (validateReadingExpectation parseUrl expected).bind fun expectedOrigin =>
    (afterMagic OFFLINE_READING_KEY_MAGIC bytes).bind fun rest =>
      (readHead OFFLINE_READING_KEY_VERSION.length rest).bind fun (head, rest) =>
        (readLpUtf8 MAX_KEY_ID_BYTES rest).bind fun (keyId, key) =>
          (canonicalOrigin parseUrl head.canonicalOrigin).bind fun origin =>
            if key.length = OFFLINE_KEY_BYTES ∧ origin = expectedOrigin ∧ siteAccepted head.siteId
                ∧ expected.expectedSiteId.all (· = head.siteId) ∧ head.accountId = expected.expectedAccountId
                ∧ isSafePositiveInteger head.accountId ∧ isSafeNonnegativeInteger head.authVersion
                ∧ expected.expectedAuthVersion.all (· = head.authVersion)
                ∧ head.keyVersion = OFFLINE_READING_KEY_VERSION ∧ isKeyId keyId then
              (parseOfflineReadingContext parseUrl ⟨{ head with canonicalOrigin := origin }, keyId⟩).map fun context =>
                ⟨context, key⟩
            else none

end

/-! ## What a draft is bound to -/

def OFFLINE_SCHEMA_VERSION : Nat := 1
def OFFLINE_DRAFT_NONCE_BYTES : Nat := 12

structure OfflineDraftAadInput where
  recordId : JsString
  draftRevision : Nat
  submissionId : Option JsString
  nonce : Bytes
  deriving DecidableEq

def assertAadInput (input : OfflineDraftAadInput) : Bool :=
  siteAccepted input.recordId && isSafePositiveInteger input.draftRevision && input.submissionId.all siteAccepted
    && input.nonce.length = OFFLINE_DRAFT_NONCE_BYTES

/-- `encodeOfflineDraftAadForGeneration` for a handle that is current, with its context. -/
def encodeOfflineDraftAad (context : DraftKeyContext) (input : OfflineDraftAadInput) (sessionGeneration : Nat) :
    Option Bytes :=
  if assertAadInput input ∧ context.keyVersion = OFFLINE_KEY_VERSION ∧ isSafePositiveInteger context.accountId
      ∧ isSafeNonnegativeInteger context.authVersion ∧ isSafeNonnegativeInteger sessionGeneration then
    let submission := match input.submissionId with
      | none => [0]
      | some submissionId => 1 :: lpBytes (bufferFrom submissionId)
    some (uint32 OFFLINE_SCHEMA_VERSION ++ (lpBytes (bufferFrom input.recordId) ++ (u64 context.accountId
      ++ (u64 context.authVersion ++ (lpBytes (bufferFrom OFFLINE_KEY_VERSION) ++ (u64 sessionGeneration
        ++ (u64 input.draftRevision ++ (submission ++ lpBytes input.nonce))))))))
  else none

end TsEpistle.Offline.KeyFrames
