import TsEpistle.Library.JsString
import TsEpistle.Library.Machine
import TsEpistle.Library.Table

/-! The collaboration room of one page (`server/core/collaboration-store.ts`). Every
method is one transaction that locks the room, and the page where it reads it. States of
the shared document form a semilattice: `Y.mergeUpdates` is the join, and a compaction
encodes the same element again. -/

namespace TsEpistle.Collaboration
open Library

abbrev Time := Int

def maxSafeInteger : Nat := 9007199254740991

/-- `COLLABORATION_MAX_DOCUMENT_BYTES` is a parameter, and `documentState` draws a client
id for the document it makes. -/
structure Document (σ : Type) where
  text : σ → JsString
  documentState : (clientId : Nat) → JsString → σ
  bytes : σ → Nat
  maxBytes : Nat

structure CollaborationPageRecord where
  content : JsString
  isMarkdown : Bool
  updatedAt : Time
  sourceRevision : Nat
  deriving DecidableEq, Repr

structure CollaborationRoomRecord (σ : Type) where
  (generation revision : Nat)
  state : σ
  baseSourceRevision : Nat
  baseUpdatedAt : Time
  updatedBy : Option Int

structure Contributor where
  generation : Nat
  userId : Int
  deriving DecidableEq, Repr

structure Connection where
  id : JsString
  generation : Nat
  userId : Int
  expiresAt : Time
  deriving DecidableEq, Repr

/-- What `log` keeps: an accepted update, and that the text of the room is the content of
the page. -/
inductive Event
  | applied (generation : Nat) (userId : Int)
  | agreed
  deriving DecidableEq, Repr

structure Rooms (σ : Type) where
  room : Option (CollaborationRoomRecord σ)
  contributors : List Contributor
  connections : List Connection

structure System (σ : Type) where
  page : Option CollaborationPageRecord
  rooms : Rooms σ
  log : List Event

inductive Op (σ : Type)
  | savePage (page : CollaborationPageRecord)
  | openRoom (now : Time) (clientId : Nat)
  | admitConnection (generation : Nat) (userId : Int) (connectionId : JsString) (expiresAt : Time)
      (expectedBaseUpdatedAt : Time) (expectedBaseSourceRevision : Nat) (now : Time)
  | leave (connectionId : JsString)
  | apply (generation : Nat) (connectionId : JsString) (update : σ) (userId : Int) (now : Time)
  | synchronizePage (userId : Int) (now : Time) (clientId : Nat)
  | resetDraft (page : CollaborationPageRecord) (userId : Int)
      (expectedRevision expectedGeneration expectedSourceRevision : Nat) (now : Time)
      (clientId : Nat)

inductive CollaborationDiscardResult (σ : Type)
  | reset (room : CollaborationRoomRecord σ)
  | stalePage
  | staleRoom
  | otherContributors
  | activePeer

inductive CollaborationPageSyncResult (σ : Type)
  | missing
  | saved (room : CollaborationRoomRecord σ)
  | reset (room : CollaborationRoomRecord σ)
  | conflict (room : CollaborationRoomRecord σ)

section
variable {σ : Type}

namespace CollaborationRoomRecord

/-- `assertRoom` accepts the row. -/
def compatible (room : CollaborationRoomRecord σ) : Bool :=
  1 ≤ room.generation && room.generation ≤ maxSafeInteger && room.revision ≤ maxSafeInteger
    && 1 ≤ room.baseSourceRevision

/-- The room stands on this version of the page. -/
def basedOn (room : CollaborationRoomRecord σ) (page : CollaborationPageRecord) : Bool :=
  room.baseUpdatedAt = page.updatedAt && room.baseSourceRevision = page.sourceRevision

end CollaborationRoomRecord

def assertRoom (room : CollaborationRoomRecord σ) :
    Except String (CollaborationRoomRecord σ) :=
  if room.compatible then .ok room else .error "Collaboration room schema is incompatible"

namespace Rooms

/-- `lockedRoom`. -/
def locked (rooms : Rooms σ) : Except String (Option (CollaborationRoomRecord σ)) :=
  match rooms.room with
  | none => .ok none
  | some room => (assertRoom room).map some

/-- A connection of the generation that has not expired, of a user who meets `who`. -/
def active (rooms : Rooms σ) (generation : Nat) (now : Time) (who : Int → Bool) : Bool :=
  rooms.connections.any fun connection =>
    connection.generation = generation && now < connection.expiresAt && who connection.userId

def deleteExpired (rooms : Rooms σ) (now : Time) : Rooms σ :=
  { rooms with connections := rooms.connections.filter fun c => now < c.expiresAt }

/-- The room becomes `room`, and the rows of its contributors go, with its connections
where `replaced` holds. -/
def settle (rooms : Rooms σ) (room : CollaborationRoomRecord σ) (replaced : Bool) : Rooms σ where
  room := some room
  contributors := []
  connections := if replaced then [] else rooms.connections

end Rooms

variable (document : Document σ)

/-- `encodeCollaborationUpdate(documentState(content))`. -/
def freshState (clientId : Nat) (content : JsString) : Except String σ :=
  let state := document.documentState clientId content
  if document.bytes state > document.maxBytes then
    .error "Collaborative document is too large"
  else .ok state

/-! ## The methods of the store -/

/-- The content of the page is the text of the room. -/
def sameContent (room : CollaborationRoomRecord σ) (page : CollaborationPageRecord) : Bool :=
  document.text room.state = page.content

/-- The room on the present page: with its text it keeps its state, else the next
generation starts from the content of the page. -/
def rebased (room : CollaborationRoomRecord σ) (page : CollaborationPageRecord)
    (updatedBy : Option Int) (clientId : Nat) : Except String (CollaborationRoomRecord σ) :=
  if sameContent document room page then .ok { room with
    baseUpdatedAt := page.updatedAt, baseSourceRevision := page.sourceRevision
    revision := room.revision + 1, updatedBy }
  else do
    let state ← freshState document clientId page.content
    return { room with
      state, generation := room.generation + 1
      baseUpdatedAt := page.updatedAt, baseSourceRevision := page.sourceRevision
      revision := room.revision + 1, updatedBy }

def openRoom (page : Option CollaborationPageRecord) (rooms : Rooms σ) (now : Time)
    (clientId : Nat) : Except String (CollaborationRoomRecord σ × Rooms σ) :=
  match page with
  | none => .error "Page no longer exists"
  | some page =>
    if !page.isMarkdown then .error "Only Markdown source pages support collaboration"
    else if page.sourceRevision < 1 then .error "Page source revision is invalid"
    else do
      match ← rooms.locked with
      | none =>
        let state ← freshState document clientId page.content
        let created : CollaborationRoomRecord σ := ⟨1, 0, state, page.sourceRevision, page.updatedAt, none⟩
        return (created, { rooms with room := some created })
      | some existing =>
        if existing.basedOn page then return (existing, rooms)
        else if !sameContent document existing page
            && rooms.active existing.generation now fun _ => true then
          return (existing, rooms)
        else
          let next ← rebased document existing page none clientId
          let next ← assertRoom next
          return (next, rooms.settle next (!sameContent document existing page))

/-- `admit`; `none` where the connection is refused. -/
def admitConnection (rooms : Rooms σ) (connection : Connection) (expectedBaseUpdatedAt : Time)
    (expectedBaseSourceRevision : Nat) (now : Time) :
    Except String (Option (CollaborationRoomRecord σ × Rooms σ)) := do
  match ← rooms.locked with
  | none => return none
  | some room =>
    if room.generation ≠ connection.generation || room.baseUpdatedAt ≠ expectedBaseUpdatedAt
        || room.baseSourceRevision ≠ expectedBaseSourceRevision then return none
    else
      let rooms := rooms.deleteExpired now
      return some (room, { rooms with connections := rooms.connections ++ [connection] })

def leave (rooms : Rooms σ) (connectionId : JsString) : Rooms σ :=
  { rooms with connections := rooms.connections.filter fun c => c.id ≠ connectionId }

/-- The insert that does nothing where the row is there. -/
def addContributor (contributors : List Contributor) (contributor : Contributor) :
    List Contributor :=
  if contributors.contains contributor then contributors else contributors ++ [contributor]

/-- `apply`; `none` where the update is not accepted, after which the expired connections may be gone. -/
def applyUpdate [Max σ] (rooms : Rooms σ) (generation : Nat) (connectionId : JsString)
    (update : σ) (userId : Int) (now : Time) :
    Except String (Option (CollaborationRoomRecord σ) × Rooms σ) := do
  match ← rooms.locked with
  | none => return (none, rooms)
  | some existing =>
    if existing.generation ≠ generation then return (none, rooms)
    else
      let rooms := rooms.deleteExpired now
      if !rooms.connections.any fun c =>
          c.id = connectionId && c.generation = generation && c.userId = userId then return (none, rooms)
      else if document.bytes update > document.maxBytes then
        .error "Collaboration update is invalid"
      else
        let merged := existing.state ⊔ update
        if document.bytes merged > document.maxBytes then
          .error "Collaborative document is too large"
        else
          let next := { existing with
            state := merged, revision := existing.revision + 1, updatedBy := some userId }
          return (some next, { rooms with
            room := some next
            contributors := addContributor rooms.contributors ⟨generation, userId⟩ })

def synchronizePage (page : Option CollaborationPageRecord) (rooms : Rooms σ) (userId : Int)
    (now : Time) (clientId : Nat) :
    Except String (CollaborationPageSyncResult σ × Rooms σ) :=
  match page with
  | none => .ok (.missing, rooms)
  | some page =>
    if page.sourceRevision < 1 then .error "Page source revision is invalid"
    else do
      match ← rooms.locked with
      | none => return (.missing, rooms)
      | some existing =>
        let same := sameContent document existing page
        if same && existing.basedOn page then return (.saved existing, rooms)
        else if !same && rooms.active existing.generation now fun _ => true then
          return (.conflict existing, rooms)
        else
          let next ← rebased document existing page (some userId) clientId
          let next ← assertRoom next
          return (if same then .saved next else .reset next, rooms.settle next (!same))

/-- `resetDraft` with the page record of its caller. -/
def resetDraft (stored : Option CollaborationPageRecord) (rooms : Rooms σ)
    (page : CollaborationPageRecord) (userId : Int)
    (expectedRevision expectedGeneration expectedSourceRevision : Nat) (now : Time)
    (clientId : Nat) : Except String (CollaborationDiscardResult σ × Rooms σ) :=
  if !page.isMarkdown then .error "Only Markdown source pages support collaboration"
  else if maxSafeInteger < expectedRevision || expectedGeneration < 1
      || maxSafeInteger < expectedGeneration then .error "Collaboration revision is invalid"
  else if !stored.any fun stored => stored.sourceRevision = expectedSourceRevision then
    .ok (.stalePage, rooms)
  else do
    match ← rooms.locked with
    | none => return (.staleRoom, rooms)
    | some existing =>
      if existing.revision ≠ expectedRevision || existing.generation ≠ expectedGeneration then
        return (.staleRoom, rooms)
      else if rooms.contributors.any fun contributor =>
          contributor.generation = existing.generation && contributor.userId ≠ userId then
        return (.otherContributors, rooms)
      else
        let rooms := rooms.deleteExpired now
        if rooms.active existing.generation now fun user => user ≠ userId then
          return (.activePeer, rooms)
        else
          let state ← freshState document clientId page.content
          let next ← assertRoom { existing with
            state, baseUpdatedAt := page.updatedAt, baseSourceRevision := expectedSourceRevision
            generation := existing.generation + 1, revision := existing.revision + 1
            updatedBy := none }
          return (.reset next, rooms.settle next true)

/-! ## Runs -/

/-- The rooms after an operation; a transaction that throws leaves them as they are. -/
def roomsAfter [Max σ] (s : System σ) : Op σ → Rooms σ
  | .savePage _ => s.rooms
  | .openRoom now clientId =>
    match openRoom document s.page s.rooms now clientId with
    | .ok (_, rooms) => rooms
    | .error _ => s.rooms
  | .admitConnection generation userId connectionId expiresAt baseUpdatedAt baseRevision now =>
    match admitConnection s.rooms ⟨connectionId, generation, userId, expiresAt⟩ baseUpdatedAt
        baseRevision now with
    | .ok (some (_, rooms)) => rooms
    | _ => s.rooms
  | .leave connectionId => leave s.rooms connectionId
  | .apply generation connectionId update userId now =>
    match applyUpdate document s.rooms generation connectionId update userId now with
    | .ok (_, rooms) => rooms
    | .error _ => s.rooms
  | .synchronizePage userId now clientId =>
    match synchronizePage document s.page s.rooms userId now clientId with
    | .ok (_, rooms) => rooms
    | .error _ => s.rooms
  | .resetDraft page userId revision generation source now clientId =>
    match resetDraft document s.page s.rooms page userId revision generation source now
        clientId with
    | .ok (_, rooms) => rooms
    | .error _ => s.rooms

/-- The update that an operation got accepted. -/
def accepted [Max σ] (s : System σ) : Op σ → List Event
  | .apply generation connectionId update userId now =>
    match applyUpdate document s.rooms generation connectionId update userId now with
    | .ok (some _, _) => [.applied generation userId]
    | _ => []
  | _ => []

/-- The text of the room is the content of the page. -/
def agrees (page : Option CollaborationPageRecord) (rooms : Rooms σ) : Bool :=
  match rooms.room, page with
  | some room, some page => sameContent document room page
  | _, _ => false

def exec [Max σ] (op : Op σ) (s : System σ) : System σ :=
  let page := match op with
    | .savePage page => some page
    | _ => s.page
  let rooms := roomsAfter document s op
  { page, rooms
    log := (if agrees document page rooms then [.agreed] else []) ++ accepted document s op ++ s.log }

def store [Max σ] : Machine (System σ) (Op σ) where
  enabled _ _ := True
  exec := exec document

end

def System.empty (σ : Type) : System σ := ⟨none, ⟨none, [], []⟩, []⟩

end TsEpistle.Collaboration
