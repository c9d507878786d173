import TsEpistle.Json.Values
import TsEpistle.Library.Machine
import TsEpistle.Library.Table
import TsEpistle.LiveNotes.Title

/-! The drafts of the offline storage (`client/helpers/offline-storage.ts`). Each operation is one transaction; the
generation that it was given, or had read before, is part of it. An operation that fails leaves everything as it was. -/

namespace TsEpistle.Offline.Drafts
open Library Json List
open LiveNotes (byteLength)

structure OfflineDraftEnvelope where
  recordId : JsString
  (accountId authVersion keyVersion sessionGeneration draftRevision : Nat)
  submissionId : Option JsString
  (nonce ciphertext : List UInt8)
  deriving DecidableEq, Repr

/-- A value under its key, where an opaque one has not the form of an envelope. -/
inductive DraftRow
  | opaqueValue (key : JsString)
  | envelope (draft : OfflineDraftEnvelope)
  deriving DecidableEq, Repr

def DraftRow.key : DraftRow → JsString
  | .opaqueValue key => key
  | .envelope draft => draft.recordId

structure OfflineMeta where
  (sessionGeneration managedBytes snapshotCount corpusRevision : Nat)
  accountingComplete : Bool
  deriving DecidableEq, Repr

/-- No two drafts are stored under one key. -/
structure Store where
  info : OfflineMeta
  drafts : List DraftRow
  unique : (drafts.map DraftRow.key).Nodup

structure OfflineStorageError where
  (code message : String)
  deriving DecidableEq, Repr

def fenced : OfflineStorageError :=
  ⟨"generation-fenced", "The offline operation belongs to an obsolete session generation."⟩

def conflict : OfflineStorageError :=
  ⟨"draft-conflict", "The offline draft changed before this compare-and-swap commit."⟩

def draftConflict (message : String) : OfflineStorageError := ⟨"draft-conflict", message⟩

def invalidRecord (message : String) : OfflineStorageError := ⟨"invalid-record", message⟩

def quota (message : String) : OfflineStorageError := ⟨"quota", message⟩

def immutableSubmission (message : String) : OfflineStorageError := ⟨"immutable-submission", message⟩

def OFFLINE_SCHEMA_VERSION : Nat := 1

def OFFLINE_MANAGED_BYTES_LIMIT : Nat := 20 * 1024 * 1024

def OFFLINE_RECORD_BYTES_LIMIT : Nat := 1 * 1024 * 1024

def MAX_SAFE_INTEGER : Nat := 2 ^ 53 - 1

/-! ## Records -/

def Store.get (store : Store) (recordId : JsString) : Option DraftRow := Table.get DraftRow.key store.drafts recordId

def Store.keep (p : DraftRow → Bool) (store : Store) : Store where
  info := store.info
  drafts := store.drafts.filter p
  unique := store.unique.sublist (filter_sublist.map _)

def Store.delete (recordId : JsString) (store : Store) : Store := store.keep fun row => row.key ≠ recordId

def Store.put (envelope : OfflineDraftEnvelope) (store : Store) : Store where
  info := store.info
  drafts := (store.delete envelope.recordId).drafts ++ [.envelope envelope]
  unique := by
    rw [map_append, nodup_append]
    refine ⟨(store.delete envelope.recordId).unique, nodup_singleton _, fun key hkey other hother => ?_⟩
    rintro rfl
    obtain ⟨row, hrow, hsame⟩ := mem_map.mp hkey
    rw [map_singleton, mem_singleton] at hother
    exact of_decide_eq_true (mem_filter.mp hrow).2 (hsame.trans hother)

def isSameSubmission (left right : OfflineDraftEnvelope) : Bool :=
  left.recordId = right.recordId && left.sessionGeneration = right.sessionGeneration
    && left.draftRevision = right.draftRevision && left.submissionId = right.submissionId

def isSameKeyOwner (left right : OfflineDraftEnvelope) : Bool :=
  left.accountId = right.accountId && left.authVersion = right.authVersion && left.keyVersion = right.keyVersion

def isSameOwner (left right : OfflineDraftEnvelope) : Bool :=
  left.recordId = right.recordId && isSameKeyOwner left right

def isSameEnvelope (left right : OfflineDraftEnvelope) : Bool :=
  isSameSubmission left right && isSameKeyOwner left right && left.nonce = right.nonce
    && left.ciphertext = right.ciphertext

def decimal : Numbers Nat where
  text number := js (toString number)
  read _ := none

def logicalEnvelopeBytes (envelope : OfflineDraftEnvelope) : Nat :=
  byteLength (write decimal (.object [(js "schemaVersion", .number OFFLINE_SCHEMA_VERSION),
    (js "recordId", .string envelope.recordId), (js "accountId", .number envelope.accountId),
    (js "authVersion", .number envelope.authVersion), (js "keyVersion", .number envelope.keyVersion),
    (js "sessionGeneration", .number envelope.sessionGeneration), (js "draftRevision", .number envelope.draftRevision),
    (js "submissionId", (envelope.submissionId.map .string).getD .null),
    (js "nonceBytes", .number envelope.nonce.length), (js "ciphertextBytes", .number envelope.ciphertext.length)]))
    + envelope.nonce.length + envelope.ciphertext.length

/-! ## Accounting -/

def checkedAccountingValue (value : Nat) (delta : Int) (label : String) : Except OfflineStorageError Nat :=
  if MAX_SAFE_INTEGER < delta.natAbs then .error ⟨"transaction", label ++ " delta is not a safe integer."⟩
  else
    let next : Int := value + delta
    if (MAX_SAFE_INTEGER : Int) < next ∨ next < 0 then .error ⟨"transaction", label ++ " overflowed."⟩
    else .ok next.toNat

def assertGeneration (expected : Nat) (store : Store) : Except OfflineStorageError Unit :=
  if store.info.sessionGeneration ≠ expected then .error fenced else .ok ()

def putAccountingDelta (delta : Int) (accountingComplete : Bool) (store : Store) : Except OfflineStorageError Store := do
  let managedBytes ← checkedAccountingValue store.info.managedBytes delta "Offline managed bytes"
  let snapshotCount ← checkedAccountingValue store.info.snapshotCount 0 "Offline snapshot count"
  return { store with info := { store.info with managedBytes, snapshotCount, accountingComplete } }

/-- The check before bytes are added. -/
def assertCapacity (delta : Int) (incomplete exceeded : String) (store : Store) : Except OfflineStorageError Unit :=
  if !store.info.accountingComplete && 0 < delta then .error (quota incomplete)
  else do
    let projected ← checkedAccountingValue store.info.managedBytes delta "Offline managed bytes"
    if 0 < delta ∧ OFFLINE_MANAGED_BYTES_LIMIT < projected then .error (quota exceeded) else return ()

structure Accounting where
  (managedBytes snapshotCount : Nat)
  complete : Bool
  deriving DecidableEq, Repr

/-- The bytes of the drafts are added to what was counted in the other tables. -/
def recountAccounting (others : Accounting) (rows : List DraftRow) : Accounting :=
  rows.foldl (fun counted row => match row with
    | .opaqueValue _ => { counted with complete := false }
    | .envelope draft =>
      let next := counted.managedBytes + logicalEnvelopeBytes draft
      if MAX_SAFE_INTEGER < next then { counted with complete := false, managedBytes := MAX_SAFE_INTEGER }
      else { counted with managedBytes := next }) others

/-! ## Replacements -/

def tooLong : OfflineStorageError := quota "The encrypted draft envelope exceeds the per-record limit."

def putEnvelope (envelope : OfflineDraftEnvelope) (oldBytes : Nat) (incomplete exceeded : String) (store : Store) :
    Except OfflineStorageError Store := do
  let delta : Int := logicalEnvelopeBytes envelope - oldBytes
  assertCapacity delta incomplete exceeded store
  putAccountingDelta delta store.info.accountingComplete (store.put envelope)

/-- The selectors are `undefined`, `null` or a value. -/
structure Selector where
  draftRevision : Option (Option Nat)
  submissionId : Option (Option JsString)
  deriving DecidableEq, Repr

def putIncomplete : String := "Offline accounting is incomplete; clean up opaque records before adding data."

def putExceeded : String := "Offline managed storage limit would be exceeded; no draft was evicted."

def replaceDraft (existing parsed : OfflineDraftEnvelope) (selector : Selector) (store : Store) :
    Except OfflineStorageError Store :=
  match selector.draftRevision, selector.submissionId with
  | some draftRevision, some submissionId =>
    if some existing.draftRevision ≠ draftRevision ∨ existing.submissionId ≠ submissionId then .error conflict
    else if !isSameOwner existing parsed || parsed.submissionId.isSome then
      .error (invalidRecord "Mutable draft ownership and key identity cannot change.")
    else if parsed.draftRevision ≤ existing.draftRevision then
      .error (draftConflict "Draft revisions must increase monotonically.")
    else putEnvelope parsed (logicalEnvelopeBytes existing) putIncomplete putExceeded store
  | _, _ => .error (draftConflict "Mutable draft replacement requires an explicit stored selector.")

def putDraft (parsed : OfflineDraftEnvelope) (selector : Selector) (expected : Nat) (store : Store) :
    Except OfflineStorageError Store :=
  if parsed.sessionGeneration ≠ expected then .error fenced
  else if OFFLINE_RECORD_BYTES_LIMIT < logicalEnvelopeBytes parsed then .error tooLong
  else do
    assertGeneration expected store
    match store.get parsed.recordId with
    | some (.opaqueValue _) => .error (draftConflict "The existing draft is opaque and can only be removed by raw key.")
    | some (.envelope existing) =>
      if existing.sessionGeneration ≠ expected then .error fenced
      else if existing.submissionId.isSome then
        if isSameEnvelope existing parsed then .ok store
        else .error (immutableSubmission "Immutable publishing records cannot be overwritten.")
      else replaceDraft existing parsed selector store
    | none =>
      if (selector.draftRevision.getD none).isSome || (selector.submissionId.getD none).isSome then .error conflict
      else putEnvelope parsed 0 putIncomplete putExceeded store

def replaceExactEnvelope (expectedEnvelope replacement : OfflineDraftEnvelope) (expected : Nat) (store : Store) :
    Except OfflineStorageError Store :=
  if OFFLINE_RECORD_BYTES_LIMIT < logicalEnvelopeBytes replacement then .error tooLong
  else do
    assertGeneration expected store
    match store.get expectedEnvelope.recordId with
    | some (.envelope current) =>
      if isSameEnvelope current expectedEnvelope then
        putEnvelope replacement (logicalEnvelopeBytes current)
          "Offline accounting is incomplete; recovery cannot increase managed storage."
          "Offline managed storage limit would be exceeded." store
      else .error conflict
    | _ => .error conflict

def rewrapSubmission (envelope replacement : OfflineDraftEnvelope) (expected : Nat) (store : Store) :
    Except OfflineStorageError Store :=
  if envelope.submissionId.isNone || replacement.submissionId.isNone || !isSameOwner envelope replacement
      || envelope.draftRevision ≠ replacement.draftRevision || envelope.submissionId ≠ replacement.submissionId
      || replacement.sessionGeneration ≤ envelope.sessionGeneration then
    .error (invalidRecord "Only an immutable submission can be rewrapped.")
  else if replacement.sessionGeneration ≠ expected then .error fenced
  else replaceExactEnvelope envelope replacement expected store

def recoverOrdinaryDraft (envelope replacement : OfflineDraftEnvelope) (expected : Nat) (store : Store) :
    Except OfflineStorageError Store :=
  if envelope.submissionId.isSome || replacement.submissionId.isSome || !isSameOwner envelope replacement
      || envelope.draftRevision ≠ replacement.draftRevision
      || replacement.sessionGeneration ≤ envelope.sessionGeneration then
    .error (invalidRecord "Only an ordinary older-generation draft can be recovered.")
  else if replacement.sessionGeneration ≠ expected then .error fenced
  else replaceExactEnvelope envelope replacement expected store

/-! ## Deletions -/

def deleteDraft (recordId : JsString) (draftRevision : Option Nat) (submissionId : Option (Option JsString))
    (expected : Nat) (store : Store) : Except OfflineStorageError Store := do
  assertGeneration expected store
  match store.get recordId with
  | none => .ok store
  | some (.opaqueValue _) => .error (draftConflict "Conditional deletion requires a valid stored envelope.")
  | some (.envelope existing) =>
    if draftRevision.any (existing.draftRevision ≠ ·) || submissionId.any (existing.submissionId ≠ ·) then
      .error conflict
    else if existing.submissionId.isSome && (draftRevision.isNone || submissionId.isNone) then
      .error (immutableSubmission "Immutable publishing records require their complete stored selector for deletion.")
    else putAccountingDelta (-(logicalEnvelopeBytes existing : Int)) store.info.accountingComplete (store.delete recordId)

def deleteDraftRaw (recordId : JsString) (expected : Nat) (store : Store) : Except OfflineStorageError Store := do
  assertGeneration expected store
  match store.get recordId with
  | none => .ok store
  | some (.opaqueValue _) => putAccountingDelta 0 false (store.delete recordId)
  | some (.envelope existing) =>
    putAccountingDelta (-(logicalEnvelopeBytes existing : Int)) store.info.accountingComplete (store.delete recordId)

/-- A draft of the account that has not been submitted. -/
def isOrdinary (accountId : Nat) : DraftRow → Bool
  | .opaqueValue _ => false
  | .envelope draft => draft.accountId = accountId && draft.submissionId.isNone

def isOpaque : DraftRow → Bool
  | .opaqueValue _ => true
  | .envelope _ => false

def Store.deleteOrdinary (accountId : Nat) (store : Store) : Store := store.keep fun row => !isOrdinary accountId row

def rowBytes : DraftRow → Nat
  | .opaqueValue _ => 0
  | .envelope draft => logicalEnvelopeBytes draft

def purgeAccount (accountId expected : Nat) (store : Store) : Except OfflineStorageError Store := do
  assertGeneration expected store
  let removedBytes ← (store.drafts.filter (isOrdinary accountId)).foldlM
    (fun (removed : Nat) row => checkedAccountingValue removed (rowBytes row) "Offline draft purge bytes") 0
  putAccountingDelta (-(removedBytes : Int)) (store.info.accountingComplete && !store.drafts.any isOpaque)
    (store.deleteOrdinary accountId)

def invalidateAccountSession (accountId expected : Nat) (others : Accounting) (store : Store) :
    Except OfflineStorageError Store := do
  assertGeneration expected store
  let nextGeneration ← checkedAccountingValue store.info.sessionGeneration 1 "Session generation"
  let remaining := store.deleteOrdinary accountId
  let accounting := recountAccounting others remaining.drafts
  let corpusRevision ← checkedAccountingValue store.info.corpusRevision 1 "Offline corpus revision"
  return { remaining with info := ⟨nextGeneration, accounting.managedBytes, accounting.snapshotCount, corpusRevision,
    accounting.complete⟩ }

/-- `policyBytes` are those of the policy that is written anew, or `none` where its revision overflows. -/
def clearDeviceData (expected : Nat) (policyBytes : Option Nat) (store : Store) : Except OfflineStorageError Store := do
  assertGeneration expected store
  match policyBytes with
  | none => .error ⟨"generation-fenced", "Offline generation or corpus revision overflowed."⟩
  | some policyBytes =>
    if MAX_SAFE_INTEGER < store.info.sessionGeneration + 1 ∨ MAX_SAFE_INTEGER < store.info.corpusRevision + 1 then
      .error ⟨"generation-fenced", "Offline generation or corpus revision overflowed."⟩
    else return ⟨⟨store.info.sessionGeneration + 1, policyBytes, 0, store.info.corpusRevision + 1, true⟩, [], nodup_nil⟩

/-! ## Finalization -/

structure Finalization where
  receipt : OfflineDraftEnvelope
  (source expectedSurvivingFork survivingFork : Option OfflineDraftEnvelope)
  deriving DecidableEq, Repr

def Finalization.others (input : Finalization) : List OfflineDraftEnvelope :=
  input.source.toList ++ input.expectedSurvivingFork.toList ++ input.survivingFork.toList

/-- The checks of a finalization before its transaction. -/
def Finalization.check (input : Finalization) (expected : Nat) : Except OfflineStorageError Unit :=
  if input.others.any fun other => !isSameKeyOwner input.receipt other then
    .error (invalidRecord "Finalization records must retain one account and key identity.")
  else if input.receipt.submissionId.isNone then .error (invalidRecord "Finalization receipt must be immutable.")
  else if input.source.any fun source => source.submissionId.isSome then
    .error (invalidRecord "Finalization source must be a mutable ordinary draft.")
  else if input.expectedSurvivingFork.any fun fork => fork.submissionId.isSome then
    .error (invalidRecord "The expected surviving fork must be a mutable ordinary draft.")
  else if input.survivingFork.any fun fork => fork.submissionId.isSome then
    .error (invalidRecord "The surviving fork must be a mutable ordinary draft.")
  else if input.source.any fun source => source.recordId = input.receipt.recordId then
    .error (invalidRecord "Receipt and source records must be distinct.")
  else if input.expectedSurvivingFork.any fun fork => fork.recordId = input.receipt.recordId
      || input.source.any fun source => fork.recordId = source.recordId then
    .error (invalidRecord "The surviving fork must be distinct from the receipt and source records.")
  else if (input.receipt :: input.others).any fun record => record.sessionGeneration ≠ expected then .error fenced
  else if input.source.any fun source => input.expectedSurvivingFork.any fun fork =>
      fork.draftRevision ≤ source.draftRevision then
    .error (draftConflict "The expected surviving fork is not newer than the frozen source.")
  else if input.expectedSurvivingFork.isSome && input.survivingFork.isNone then
    .error (draftConflict "The surviving fork changed before finalization.")
  else if input.survivingFork.isSome && input.source.isNone then
    .error (invalidRecord "A surviving fork requires a mutable source record.")
  else if input.survivingFork.any fun fork => input.source.any fun source =>
      fork.draftRevision ≤ source.draftRevision then
    .error (draftConflict "The surviving fork is not a newer exact source replacement.")
  else if input.expectedSurvivingFork.any fun old => input.survivingFork.any fun fork =>
      fork.recordId ≠ old.recordId then
    .error (draftConflict "The surviving fork replacement changed its record identity.")
  else .ok ()

/-- The record is still the one that is expected. -/
def assertStored (message : String) (envelope : OfflineDraftEnvelope) (store : Store) : Except OfflineStorageError Unit :=
  match store.get envelope.recordId with
  | some (.envelope current) => if isSameEnvelope current envelope then .ok () else .error (draftConflict message)
  | _ => .error (draftConflict message)

def assertStoredOptional (message : String) : Option OfflineDraftEnvelope → Store → Except OfflineStorageError Unit
  | none, _ => .ok ()
  | some envelope, store => assertStored message envelope store

/-- A fork is put in the place of the old one, or where nothing is. -/
def assertForkFree (old fork : Option OfflineDraftEnvelope) (store : Store) : Except OfflineStorageError Unit :=
  match fork with
  | none => .ok ()
  | some fork =>
    if old.any (fun old => fork.recordId = old.recordId) || (store.get fork.recordId).isNone then .ok ()
    else .error conflict

def optionalBytes (envelope : Option OfflineDraftEnvelope) : Nat := (envelope.map logicalEnvelopeBytes).getD 0

def Store.deleteOptional (envelope : Option OfflineDraftEnvelope) (store : Store) : Store :=
  match envelope with
  | none => store
  | some envelope => store.delete envelope.recordId

def Store.putOptional (envelope : Option OfflineDraftEnvelope) (store : Store) : Store :=
  match envelope with
  | none => store
  | some envelope => store.put envelope

def Finalization.apply (input : Finalization) (store : Store) : Store :=
  (((store.delete input.receipt.recordId).deleteOptional input.source).deleteOptional input.expectedSurvivingFork).putOptional
    input.survivingFork

def finalizeSubmission (input : Finalization) (expected : Nat) (store : Store) : Except OfflineStorageError Store := do
  input.check expected
  assertGeneration expected store
  assertStored "The immutable receipt changed before finalization." input.receipt store
  assertStoredOptional "The source draft changed before finalization." input.source store
  assertStoredOptional "The surviving fork changed before finalization." input.expectedSurvivingFork store
  assertForkFree input.expectedSurvivingFork input.survivingFork store
  let delta : Int := optionalBytes input.survivingFork
    - (logicalEnvelopeBytes input.receipt + optionalBytes input.source + optionalBytes input.expectedSurvivingFork)
  assertCapacity delta "Offline accounting is incomplete; finalization cannot add a fork."
    "Offline managed storage limit would be exceeded." store
  putAccountingDelta delta store.info.accountingComplete (input.apply store)

/-! ## Runs -/

inductive Operation
  | putDraft (envelope : OfflineDraftEnvelope) (selector : Selector) (expected : Nat)
  | rewrapSubmission (envelope replacement : OfflineDraftEnvelope) (expected : Nat)
  | recoverOrdinaryDraft (envelope replacement : OfflineDraftEnvelope) (expected : Nat)
  | deleteDraft (recordId : JsString) (draftRevision : Option Nat) (submissionId : Option (Option JsString))
      (expected : Nat)
  | deleteDraftRaw (recordId : JsString) (expected : Nat)
  | purgeAccount (accountId expected : Nat)
  | invalidateAccountSession (accountId expected : Nat) (others : Accounting)
  | clearDeviceData (expected : Nat) (policyBytes : Option Nat)
  | finalizeSubmission (input : Finalization) (expected : Nat)
  deriving DecidableEq, Repr

/-- The generation that an operation asks for. -/
def Operation.expected : Operation → Nat
  | .putDraft _ _ expected | .rewrapSubmission _ _ expected | .recoverOrdinaryDraft _ _ expected
  | .deleteDraft _ _ _ expected | .deleteDraftRaw _ expected | .purgeAccount _ expected
  | .invalidateAccountSession _ expected _ | .clearDeviceData expected _ | .finalizeSubmission _ expected => expected

def Operation.run : Operation → Store → Except OfflineStorageError Store
  | .putDraft envelope selector expected => Drafts.putDraft envelope selector expected
  | .rewrapSubmission envelope replacement expected => Drafts.rewrapSubmission envelope replacement expected
  | .recoverOrdinaryDraft envelope replacement expected => Drafts.recoverOrdinaryDraft envelope replacement expected
  | .deleteDraft recordId draftRevision submissionId expected =>
    Drafts.deleteDraft recordId draftRevision submissionId expected
  | .deleteDraftRaw recordId expected => Drafts.deleteDraftRaw recordId expected
  | .purgeAccount accountId expected => Drafts.purgeAccount accountId expected
  | .invalidateAccountSession accountId expected others => Drafts.invalidateAccountSession accountId expected others
  | .clearDeviceData expected policyBytes => Drafts.clearDeviceData expected policyBytes
  | .finalizeSubmission input expected => Drafts.finalizeSubmission input expected

/-- All tabs together, a transaction at a time. -/
def drafts : Machine Store Operation where
  enabled _ _ := True
  exec operation store := (operation.run store).toOption.getD store

end TsEpistle.Offline.Drafts
