import TsEpistle.LiveNotes.Store

/-! Runs of the store: the revisions of a note, the updates joined to its state, its
requests and its leases. -/

namespace TsEpistle.LiveNotes
open Library

variable {σ β η : Type}

/-- An update that has succeeded, of `applyUpdate` with its request or of `restore`. -/
inductive Accepted (σ β : Type) where
  | update (noteId : Nat) (actorId : Int) (requestId : JsString) (bytes : β) (value : σ)
  | restored (noteId : Nat) (value : σ)
  deriving DecidableEq, Repr

def Accepted.noteId : Accepted σ β → Nat
  | .update noteId .. | .restored noteId _ => noteId

def Accepted.value : Accepted σ β → σ
  | .update _ _ _ _ value | .restored _ value => value

/-- `issued` are the ids that notes have been given so far. -/
structure State (σ β η : Type) where
  clock : Nat
  tables : Tables σ η
  issued : List Nat
  accepted : List (Accepted σ β)
  deriving DecidableEq, Repr

def State.initial (clock : Nat) : State σ β η := ⟨clock, ⟨[], [], [], []⟩, [], []⟩

inductive Op (β : Type) where
  | create (access : Authority) (key : Option JsString) (id : Nat) (randomKey : JsString)
  | read (access : Authority) (key : JsString)
  | updateAccess (access : Authority) (key : JsString) (expectedRevision : Nat) (value : Access)
  | remove (access : Authority) (key : JsString) (expectedRevision : Nat)
  | restore (access : Authority) (key : JsString) (target expectedRevision : Nat)
  | applyUpdate (access : Authority) (key requestId : JsString) (update : β)
  | lease (key connectionId : JsString) (expiresAt instant : Nat)
  | release (connectionId : JsString)
  | sweepUntouched (instant : Nat) (locked : List Nat)
  | tick (ms : Nat)
  deriving DecidableEq, Repr

/-- Random ids never come twice. -/
def enabled (op : Op β) (s : State σ β η) : Prop :=
  match op with
  | .create _ _ id _ => id ∉ s.issued
  | .lease _ _ _ instant | .sweepUntouched instant _ => instant ≤ s.clock
  | .read .. | .updateAccess .. | .remove .. | .restore .. | .applyUpdate .. | .release _
  | .tick _ => True

def State.commit (s : State σ β η) (result : Except Failure (Tables σ η)) : State σ β η :=
  match result with
  | .error _ => s
  | .ok tables => { s with tables }

variable [SemilatticeSup σ] [DecidableEq σ] [DecidableEq η]

def exec (doc : Document σ β η) (op : Op β) (s : State σ β η) : State σ β η :=
  match op with
  | .create access key id randomKey =>
    match create doc s.tables access key id randomKey s.clock with
    | .error _ => s
    | .ok (tables, row) => { s with tables, issued := row.id :: s.issued }
  | .read access key => s.commit (read s.tables access key s.clock)
  | .updateAccess access key expectedRevision value =>
    s.commit (updateAccess s.tables access key expectedRevision value s.clock)
  | .remove access key expectedRevision =>
    s.commit (remove s.tables access key expectedRevision s.clock)
  | .restore access key target expectedRevision =>
    match restore doc s.tables access key target expectedRevision s.clock with
    | .error _ => s
    | .ok (tables, row, value) =>
      { s with tables, accepted := .restored row.id value :: s.accepted }
  | .applyUpdate access key requestId update =>
    match applyUpdate doc s.tables access key requestId update s.clock with
    | .error _ => s
    | .ok (tables, row, value) =>
      { s with
        tables
        accepted := .update row.id access.principalId requestId update value :: s.accepted }
  | .lease key connectionId expiresAt instant =>
    s.commit (lease s.tables key connectionId expiresAt instant s.clock)
  | .release connectionId => { s with tables := release s.tables connectionId }
  | .sweepUntouched instant locked => s.commit (sweepUntouched doc s.tables instant locked)
  | .tick ms => { s with clock := s.clock + ms }

def store (doc : Document σ β η) : Machine (State σ β η) (Op β) := ⟨enabled, exec doc⟩

instance (op : Op β) (s : State σ β η) : Decidable (enabled op s) :=
  match op with
  | .create _ _ id _ => inferInstanceAs (Decidable (id ∉ s.issued))
  | .lease _ _ _ instant | .sweepUntouched instant _ =>
    inferInstanceAs (Decidable (instant ≤ s.clock))
  | .read .. | .updateAccess .. | .remove .. | .restore .. | .applyUpdate .. | .release _
  | .tick _ => .isTrue trivial

/-! ## The invariant -/

/-- The stored revisions of a note are those up to its own, and the newest is the note. -/
structure Note.Recorded (t : Tables σ η) (row : Note σ) : Prop where
  upTo : ∀ revision ∈ t.revisions, revision.noteId = row.id → revision.revision ≤ row.revision
  all : ∀ k ≤ row.revision, ∃ revision ∈ t.revisions, revision.noteId = row.id ∧ revision.revision = k
  newest : ∀ revision ∈ t.revisions, revision.noteId = row.id → revision.revision = row.revision →
    revision.state = row.state ∧ revision.title = row.title ∧ revision.access = row.access

structure Note.Sound (doc : Document σ β η) (s : State σ β η) (row : Note σ) : Prop where
  recorded : row.Recorded s.tables
  joined : ∀ accepted ∈ s.accepted, accepted.noteId = row.id → accepted.value ≤ row.state
  requested : ∀ actorId requestId bytes value,
    .update row.id actorId requestId bytes value ∈ s.accepted →
      ⟨row.id, actorId, requestId, doc.sha256 bytes⟩ ∈ s.tables.requests
  unedited : row.everEdited = false → row.state = doc.empty
  touched : row.touchedAt ≤ s.clock
  leased : ∀ connection ∈ s.tables.connections, connection.noteId = row.id →
    connection.expiresAt ≤ row.touchedAt + LEASE_MS

def Request.key (request : Request η) : Nat × Int × JsString :=
  (request.noteId, request.actorId, request.requestId)

structure Sound (doc : Document σ β η) (s : State σ β η) : Prop where
  ids : (s.tables.notes.map Note.id).Nodup
  keys : (s.tables.notes.map Note.key).Nodup
  numbers : (s.tables.revisions.map fun r => (r.noteId, r.revision)).Nodup
  requests : (s.tables.requests.map Request.key).Nodup
  issued : ∀ row ∈ s.tables.notes, row.id ∈ s.issued
  revisionNotes : ∀ revision ∈ s.tables.revisions, revision.noteId ∈ s.issued
  connectionNotes : ∀ connection ∈ s.tables.connections, connection.noteId ∈ s.issued
  acceptedNotes : ∀ accepted ∈ s.accepted, accepted.noteId ∈ s.issued
  notes : ∀ row ∈ s.tables.notes, row.Sound doc s
  /-- Each request is that of an update. -/
  asked : ∀ request ∈ s.tables.requests, ∃ bytes value,
    .update request.noteId request.actorId request.requestId bytes value ∈ s.accepted
      ∧ doc.sha256 bytes = request.updateHash
  decoded : ∀ noteId actorId requestId bytes value,
    .update noteId actorId requestId bytes value ∈ s.accepted → doc.decode bytes = some value

omit [DecidableEq σ] [DecidableEq η] in
theorem Sound.initial (doc : Document σ β η) (clock : Nat) : Sound doc (.initial clock) := by
  constructor <;> simp [State.initial]

end TsEpistle.LiveNotes
