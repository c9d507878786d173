import TsEpistle.Library.Machine
import TsEpistle.Library.Table
import TsEpistle.Library.Checked
import TsEpistle.LiveNotes.Title

/-! The store of live notes (`server/operations/live-notes.ts`). Every operation is one
transaction that locks the note. Times are in milliseconds. States of the shared document
form a semilattice with `Y.mergeUpdates` as its join. -/

namespace TsEpistle.LiveNotes
open Library

inductive Access where
  | «private»
  | read
  | edit
  deriving DecidableEq, Repr

/-- What the store uses of Yjs and of `node:crypto`. `decode` is `plainTextUpdate` of
`decodeCollaborationUpdate`, and `replaced` is the update that `restore` makes when it
replaces the text. -/
structure Document (σ β η : Type) where
  empty : σ
  text : σ → JsString
  text_empty : text empty = []
  decode : β → Option σ
  replaced : σ → JsString → σ
  encodes : σ → Bool
  sha256 : β → η

structure Note (σ : Type) where
  id : Nat
  key : JsString
  ownerId : Option Int
  access : Access
  state : σ
  title : JsString
  revision : Nat
  everEdited : Bool
  (createdAt updatedAt touchedAt : Nat)
  deletedAt : Option Nat
  deriving DecidableEq, Repr

structure Revision (σ : Type) where
  (noteId revision : Nat)
  state : σ
  title : JsString
  access : Access
  actorId : Int
  createdAt : Nat
  deriving DecidableEq, Repr

structure Request (η : Type) where
  noteId : Nat
  actorId : Int
  requestId : JsString
  updateHash : η
  deriving DecidableEq, Repr

structure Connection where
  id : JsString
  (noteId expiresAt : Nat)
  deriving DecidableEq, Repr

/-- The account of the requester and what its groups allow. -/
structure Authority where
  principalId : Int
  (read write system : Bool)
  deriving DecidableEq, Repr

inductive Failure where
  | invalidInput
  | noteNotFound
  | noteForbidden
  | noteConflict
  | noteKeyConflict
  | noteTooLarge
  | changedWhileLocked
  deriving DecidableEq, Repr

structure Tables (σ η : Type) where
  notes : List (Note σ)
  revisions : List (Revision σ)
  requests : List (Request η)
  connections : List Connection
  deriving DecidableEq, Repr

variable {σ β η : Type}

def check (condition : Bool) (failure : Failure) : Except Failure Unit :=
  if condition then .ok () else .error failure

def textAndTitle (doc : Document σ β η) (state : σ) : Except Failure (JsString × JsString) := do
  check (byteLength (doc.text state) ≤ LIVE_NOTE_MAX_TEXT_BYTES) .noteTooLarge
  return (doc.text state, noteTitle (doc.text state))

def stateContent (doc : Document σ β η) (state : σ) : Except Failure JsString := do
  let (text, _) ← textAndTitle doc state
  return text

/-- `encodeState`, which bounds the bytes of a state. -/
def encodeState (doc : Document σ β η) (state : σ) : Except Failure σ := do
  check (doc.encodes state) .invalidInput
  return state

def canEdit (access : Authority) (row : Note σ) : Bool :=
  access.write && (access.system || row.ownerId == some access.principalId || row.access == .edit)

def canManage (access : Authority) (row : Note σ) : Bool :=
  access.write && (access.system || row.ownerId == some access.principalId)

inductive Mode where
  | read
  | write
  | manage
  deriving DecidableEq, Repr

def Mode.allows (mode : Mode) (access : Authority) (row : Note σ) : Bool :=
  match mode with
  | .read => true
  | .write => canEdit access row
  | .manage => canManage access row

namespace Tables
variable (t : Tables σ η)

/-- The note under a key that is not deleted. -/
def live (key : JsString) : Option (Note σ) :=
  t.notes.find? fun row => row.key = key && row.deletedAt.isNone

def note (access : Authority) (key : JsString) (mode : Mode) : Except Failure (Note σ) := do
  check (isLiveNoteKey key) .noteNotFound
  match t.live key with
  | none => .error .noteNotFound
  | some row =>
    check (access.read && (access.system || row.ownerId == some access.principalId
      || row.access != .private)) .noteNotFound
    check (mode.allows access row) .noteNotFound
    return row

/-- The tables with `row` in the place of the note with its id. -/
def put (row : Note σ) : Tables σ η :=
  { t with notes := Table.replace Note.id row t.notes }

def touch (row : Note σ) (now : Nat) : Tables σ η := t.put { row with touchedAt := now }

/-- The delete of a note, which cascades. -/
def delete (id : Nat) : Tables σ η where
  notes := t.notes.filter (·.id ≠ id)
  revisions := t.revisions.filter (·.noteId ≠ id)
  requests := t.requests.filter (·.noteId ≠ id)
  connections := t.connections.filter (·.noteId ≠ id)

end Tables

def snapshot (row : Note σ) (actorId : Int) : Revision σ :=
  ⟨row.id, row.revision, row.state, row.title, row.access, actorId, row.updatedAt⟩

/-- `changes` sets the columns that the operation writes. -/
def save (t : Tables σ η) (access : Authority) (row : Note σ) (changes : Note σ → Note σ)
    (now : Nat) : Except Failure (Tables σ η × Note σ) := do
  let nextRevision := row.revision + 1
  check (nextRevision ≤ MAX_SAFE_INTEGER) .noteConflict
  let next := { changes row with revision := nextRevision, updatedAt := now, touchedAt := now }
  check (t.notes.any fun other => other.id = row.id && other.revision = row.revision)
    .changedWhileLocked
  let t := t.put next
  return ({ t with revisions := t.revisions ++ [snapshot next access.principalId] }, next)

def expected (row : Note σ) (expectedRevision : Nat) : Except Failure Unit := do
  check (expectedRevision ≤ MAX_SAFE_INTEGER) .invalidInput
  check (row.revision = expectedRevision) .noteConflict

/-- The note that `create` inserts; `id` is the random UUID. -/
def newNote (doc : Document σ β η) (id : Nat) (key : JsString) (ownerId : Int) (now : Nat) :
    Note σ :=
  ⟨id, key, some ownerId, .private, doc.empty, [], 0, false, now, now, now, none⟩

/-- `randomKey` is used where the input has no key. -/
def create (doc : Document σ β η) (t : Tables σ η) (access : Authority) (key : Option JsString)
    (id : Nat) (randomKey : JsString) (now : Nat) : Except Failure (Tables σ η × Note σ) := do
  check (key.all isLiveNoteKey) .invalidInput
  check access.write .noteForbidden
  let state ← encodeState doc doc.empty
  let row := { newNote doc id (key.getD randomKey) access.principalId now with state }
  check (t.notes.all fun other => other.key ≠ row.key) .noteKeyConflict
  return ({ t with
    notes := t.notes ++ [row]
    revisions := t.revisions ++ [snapshot row access.principalId] }, row)

/-- `read`, and like it `history`, `revision` and `session`. -/
def read (t : Tables σ η) (access : Authority) (key : JsString) (now : Nat) :
    Except Failure (Tables σ η) := do
  let row ← t.note access key .read
  return t.touch row now

def updateAccess (t : Tables σ η) (access : Authority) (key : JsString) (expectedRevision : Nat)
    (value : Access) (now : Nat) : Except Failure (Tables σ η) := do
  let row ← t.note access key .manage
  expected row expectedRevision
  let (t, _) ← save t access row (fun row => { row with access := value }) now
  return t

def remove (t : Tables σ η) (access : Authority) (key : JsString) (expectedRevision : Nat)
    (now : Nat) : Except Failure (Tables σ η) := do
  let row ← t.note access key .manage
  expected row expectedRevision
  let t := t.put { row with deletedAt := some now, touchedAt := now }
  return { t with connections := t.connections.filter (·.noteId ≠ row.id) }

/-- The columns that an edit writes. -/
def edited (state : σ) (title : JsString) (row : Note σ) : Note σ :=
  { row with state, title, everEdited := true }

variable [Max σ] [DecidableEq σ] [DecidableEq η]

/-- An update that brings nothing new leaves the revision as it is. -/
def saveEdit (t : Tables σ η) (access : Authority) (row : Note σ) (state : σ) (title : JsString)
    (now : Nat) : Except Failure (Tables σ η × Note σ) :=
  if state = row.state then .ok (t.touch row now, row)
  else save t access row (edited state title) now

/-- Answers the note and the update that it has joined to its state. -/
def restore (doc : Document σ β η) (t : Tables σ η) (access : Authority) (key : JsString)
    (target expectedRevision : Nat) (now : Nat) :
    Except Failure (Tables σ η × Note σ × σ) := do
  check (target ≤ MAX_SAFE_INTEGER) .invalidInput
  let row ← t.note access key .write
  expected row expectedRevision
  match t.revisions.find? fun r => r.noteId = row.id && r.revision = target with
  | none => .error .noteNotFound
  | some historical =>
    let content ← stateContent doc historical.state
    let update := doc.replaced row.state content
    let state ← encodeState doc (row.state ⊔ update)
    let (_, title) ← textAndTitle doc state
    let (t, next) ← save t access row (edited state title) now
    return (t, next, update)

def applyUpdate (doc : Document σ β η) (t : Tables σ η) (access : Authority) (key : JsString)
    (requestId : JsString) (update : β) (now : Nat) :
    Except Failure (Tables σ η × Note σ × σ) := do
  check (isLiveNoteRequestId requestId) .invalidInput
  match doc.decode update with
  | none => .error .invalidInput
  | some value =>
    let row ← t.note access key .write
    match t.requests.find? fun r => r.noteId = row.id && r.actorId = access.principalId && r.requestId = requestId with
    | some duplicate =>
      check (duplicate.updateHash = doc.sha256 update) .noteConflict
      return (t.touch row now, row, value)
    | none =>
      let state ← encodeState doc (row.state ⊔ value)
      let (_, title) ← textAndTitle doc state
      let (t, next) ← saveEdit t access row state title now
      return ({ t with requests := t.requests
        ++ [⟨row.id, access.principalId, requestId, doc.sha256 update⟩] }, next, value)

def LEASE_MS : Nat := 300000

/-- `instant` is read before the transaction. -/
def lease (t : Tables σ η) (key connectionId : JsString) (expiresAt instant now : Nat) :
    Except Failure (Tables σ η) := do
  check (isLiveNoteRequestId connectionId) .invalidInput
  check (instant < expiresAt ∧ expiresAt - instant ≤ LEASE_MS) .invalidInput
  match t.live key with
  | none => .error .noteNotFound
  | some row =>
    let connections ← match Table.get Connection.id t.connections connectionId with
      | none => pure (t.connections ++ [⟨connectionId, row.id, expiresAt⟩])
      | some existing =>
        if existing.noteId ≠ row.id then .error .invalidInput
        else pure (Table.replace Connection.id { existing with expiresAt } t.connections)
    return { t with connections }.touch row now

def release (t : Tables σ η) (connectionId : JsString) : Tables σ η :=
  { t with connections := t.connections.filter (·.id ≠ connectionId) }

/-! ## The sweep -/

def DAY_MS : Nat := 24 * 60 * 60 * 1000
def SWEEP_LIMIT : Nat := 100

/-- `ORDER BY touchedAt, id`. -/
def Before (a b : Note σ) : Prop :=
  a.touchedAt < b.touchedAt ∨ (a.touchedAt = b.touchedAt ∧ a.id ≤ b.id)

instance : DecidableRel (Before (σ := σ)) := fun a b =>
  inferInstanceAs (Decidable (a.touchedAt < b.touchedAt ∨ (a.touchedAt = b.touchedAt ∧ a.id ≤ b.id)))

/-- The condition of the scan. -/
def untouched (instant : Nat) (row : Note σ) : Bool :=
  !row.everEdited && row.deletedAt.isNone && decide (row.touchedAt + DAY_MS < instant)

/-- The rows that are locked by others are skipped. -/
def candidates (t : Tables σ η) (instant : Nat) (locked : List Nat) : List (Note σ) :=
  ((t.notes.filter fun row => untouched instant row && !locked.contains row.id).insertionSort Before).take SWEEP_LIMIT

/-- One round of the loop over the candidates. -/
def sweepRow (doc : Document σ β η) (instant : Nat) (t : Tables σ η) (row : Note σ) :
    Except Failure (Tables σ η) :=
  if t.connections.any fun c => c.noteId = row.id && decide (instant < c.expiresAt) then .ok t
  else do
    let content ← stateContent doc row.state
    if content ≠ [] then return t
    else if t.revisions.any fun r => r.noteId = row.id && decide (0 < r.revision) then return t
    else return t.delete row.id

def expiredConnections (t : Tables σ η) (instant : Nat) : List Connection :=
  ((t.connections.filter (·.expiresAt ≤ instant)).insertionSort fun a b => a.expiresAt ≤ b.expiresAt).take SWEEP_LIMIT

/-- `instant` is read before the transaction. -/
def sweepUntouched (doc : Document σ β η) (t : Tables σ η) (instant : Nat) (locked : List Nat) :
    Except Failure (Tables σ η) := do
  let t ← (candidates t instant locked).foldlM (sweepRow doc instant) t
  let expired := expiredConnections t instant
  return { t with connections := t.connections.filter fun c => !(expired.map (·.id)).contains c.id }

end TsEpistle.LiveNotes
