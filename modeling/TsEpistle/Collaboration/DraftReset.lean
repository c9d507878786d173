import TsEpistle.Collaboration.RoomStore
import TsEpistle.Library.Checked

/-! A draft reset discards only work of its own user. The rows of the contributors go only
with the generation, or where the text of the room is the content of the page. -/

namespace TsEpistle.Collaboration
open Library Checked

/-- The events since the text of the room was last the content of the page. -/
def sinceAgreement (log : List Event) : List Event := log.takeWhile fun event => event ≠ .agreed

@[simp] theorem sinceAgreement_agreed (log : List Event) :
    sinceAgreement (.agreed :: log) = [] := by simp [sinceAgreement]

@[simp] theorem sinceAgreement_applied (generation : Nat) (userId : Int) (log : List Event) :
    sinceAgreement (.applied generation userId :: log) = .applied generation userId :: sinceAgreement log := by
  simp [sinceAgreement]

theorem mem_of_sinceAgreement {log : List Event} {event : Event} (h : event ∈ sinceAgreement log) : event ∈ log :=
  (List.takeWhile_sublist _).mem h

variable {σ : Type}

/-! ## What one operation does -/

/-- The update that an operation brings. -/
def Op.update? : Op σ → Option σ
  | .apply _ _ update _ _ => some update
  | _ => none

/-- `Moves document page update rooms rooms' events`: what a transaction that brings `update`
may do to the room and its contributors while `page` is the canonical page. -/
inductive Moves [Max σ] (document : Document σ) (page : Option CollaborationPageRecord)
    (update : Option σ) :
    Rooms σ → Rooms σ → List Event → Prop
  | kept (rooms : Rooms σ) (connections : List Connection) :
      Moves document page update rooms { rooms with connections } []
  | created (rooms : Rooms σ) (room : CollaborationRoomRecord σ) (absent : rooms.room = none) :
      Moves document page update rooms { rooms with room := some room } []
  | settled (rooms : Rooms σ) (room next : CollaborationRoomRecord σ)
      (present : rooms.room = some room) (agrees : agrees document page rooms = true)
      (state : next.state = room.state) (generation : next.generation = room.generation)
      (revision : next.revision = room.revision + 1) :
      Moves document page update rooms (rooms.settle next false) []
  | replaced (rooms : Rooms σ) (room next : CollaborationRoomRecord σ)
      (connections : List Connection) (present : rooms.room = some room)
      (generation : next.generation = room.generation + 1)
      (revision : next.revision = room.revision + 1) :
      Moves document page update rooms ({ rooms with connections }.settle next true) []
  | merged (rooms : Rooms σ) (room next : CollaborationRoomRecord σ)
      (connections : List Connection) (incoming : σ) (userId : Int)
      (present : rooms.room = some room) (brought : update = some incoming)
      (state : next.state = room.state ⊔ incoming)
      (generation : next.generation = room.generation)
      (revision : next.revision = room.revision + 1) :
      Moves document page update rooms
        { rooms with
          room := some next, connections
          contributors := addContributor rooms.contributors ⟨room.generation, userId⟩ }
        [.applied room.generation userId]

variable {rooms rooms' : Rooms σ} {page : Option CollaborationPageRecord} {update : Option σ}
  {room : CollaborationRoomRecord σ}

section
variable (document : Document σ)

theorem locked_ok {rooms : Rooms σ} {room : Option (CollaborationRoomRecord σ)}
    (h : rooms.locked = .ok room) : rooms.room = room := by
  unfold Rooms.locked assertRoom at h
  split at h
  next absent => simpa [absent] using h
  next stored present =>
    split at h
    · simpa [present, Except.map] using h
    · cases h

theorem assertRoom_ok {room accepted : CollaborationRoomRecord σ}
    (h : assertRoom room = .ok accepted) : accepted = room := by
  unfold assertRoom at h
  split at h <;> cases h
  rfl

variable {clientId : Nat}

/-- `rebased` keeps the state, or moves to the next generation. -/
theorem rebased_ok {room next : CollaborationRoomRecord σ} {page : CollaborationPageRecord} {updatedBy : Option Int}
    (h : rebased document room page updatedBy clientId = .ok next) : next.revision = room.revision + 1 ∧
    (sameContent document room page = true → next.state = room.state ∧ next.generation = room.generation) ∧
    (sameContent document room page = false → next.generation = room.generation + 1) := by
  unfold rebased at h
  split at h
  next same =>
    cases h
    simp [same]
  next same =>
    obtain ⟨state, -, h⟩ := bind_ok h
    cases h
    simpa using same

/-- Taking the present page for its base, the room is settled or replaced. -/
theorem rebased_moves [Max σ] {rooms : Rooms σ} {room next : CollaborationRoomRecord σ} {page : CollaborationPageRecord}
    {updatedBy : Option Int} (present : rooms.room = some room)
    (h : rebased document room page updatedBy clientId = .ok next) :
    Moves document (some page) update rooms (rooms.settle next (!sameContent document room page)) [] := by
  obtain ⟨revision, same, other⟩ := rebased_ok document h
  cases hs : sameContent document room page with
  | true =>
    obtain ⟨state, generation⟩ := same hs
    exact .settled rooms room next present (by simp [agrees, present, hs]) state generation
      revision
  | false => exact .replaced rooms room next rooms.connections present (other hs) revision

variable [Max σ]

theorem openRoom_moves {now : Time} (h : openRoom document page rooms now clientId = .ok (room, rooms')) :
    Moves document page update rooms rooms' [] := by
  unfold openRoom at h
  cases page with
  | none => cases h
  | some page =>
    dsimp only at h
    split at h
    · cases h
    split at h
    · cases h
    obtain ⟨stored, hl, h⟩ := bind_ok h
    have present := locked_ok hl
    cases stored with
    | none =>
      obtain ⟨state, -, h⟩ := bind_ok h
      cases h
      exact .created rooms _ present
    | some existing =>
      dsimp only at h
      split at h
      · cases h
        exact .kept rooms rooms.connections
      split at h
      · cases h
        exact .kept rooms rooms.connections
      obtain ⟨next, hr, h⟩ := bind_ok h
      obtain ⟨next', ha, h⟩ := bind_ok h
      cases h
      obtain rfl := assertRoom_ok ha
      exact rebased_moves document present hr

theorem admitConnection_moves {connection : Connection} {baseUpdatedAt now : Time} {baseRevision : Nat}
    (h : admitConnection rooms connection baseUpdatedAt baseRevision now = .ok (some (room, rooms'))) :
    Moves document page update rooms rooms' [] := by
  unfold admitConnection at h
  obtain ⟨stored, -, h⟩ := bind_ok h
  cases stored with
  | none => cases h
  | some existing =>
    dsimp only at h
    split at h
    · cases h
    · cases h
      exact .kept rooms _

theorem applyUpdate_moves {generation : Nat} {connectionId : JsString} {update : σ} {userId : Int}
    {now : Time} {answer : Option (CollaborationRoomRecord σ)}
    (h : applyUpdate document rooms generation connectionId update userId now = .ok (answer, rooms')) :
    Moves document page (some update) rooms rooms'
      (if answer.isSome then [.applied generation userId] else []) := by
  unfold applyUpdate at h
  obtain ⟨stored, hl, h⟩ := bind_ok h
  have present := locked_ok hl
  cases stored with
  | none =>
    cases h
    exact .kept rooms rooms.connections
  | some existing =>
    dsimp only at h
    split at h
    · cases h
      exact .kept rooms rooms.connections
    next same =>
      obtain rfl : existing.generation = generation := by simpa using same
      split at h
      · cases h
        exact .kept rooms _
      split at h
      · cases h
      split at h
      · cases h
      cases h
      exact .merged rooms existing _ _ update userId present rfl rfl rfl rfl

theorem synchronizePage_moves {userId : Int} {now : Time} {result : CollaborationPageSyncResult σ}
    (h : synchronizePage document page rooms userId now clientId = .ok (result, rooms')) :
    Moves document page update rooms rooms' [] := by
  unfold synchronizePage at h
  cases page with
  | none =>
    cases h
    exact .kept rooms rooms.connections
  | some page =>
    dsimp only at h
    split at h
    · cases h
    obtain ⟨stored, hl, h⟩ := bind_ok h
    have present := locked_ok hl
    cases stored with
    | none =>
      cases h
      exact .kept rooms rooms.connections
    | some existing =>
      dsimp only at h
      split at h
      · cases h
        exact .kept rooms rooms.connections
      split at h
      · cases h
        exact .kept rooms rooms.connections
      obtain ⟨next, hr, h⟩ := bind_ok h
      obtain ⟨next', ha, h⟩ := bind_ok h
      cases h
      obtain rfl := assertRoom_ok ha
      exact rebased_moves document present hr

omit [Max σ] in
/-- A reset found no row of another contributor of the generation it discards. -/
theorem resetDraft_reset {stored : Option CollaborationPageRecord} {page : CollaborationPageRecord}
    {userId : Int} {revision generation source : Nat} {now : Time}
    {next : CollaborationRoomRecord σ}
    (h : resetDraft document stored rooms page userId revision generation source now clientId
      = .ok (.reset next, rooms')) :
    ∃ room, rooms.room = some room ∧ room.generation = generation ∧
      ∀ contributor ∈ rooms.contributors, contributor.generation = room.generation → contributor.userId = userId := by
  unfold resetDraft at h
  split at h
  · cases h
  split at h
  · cases h
  split at h
  · cases h
  obtain ⟨found, hl, h⟩ := bind_ok h
  have present := locked_ok hl
  cases found with
  | none => cases h
  | some existing =>
    dsimp only at h
    split at h
    · cases h
    next fresh =>
      split at h
      · cases h
      next others =>
        have same : existing.revision = revision ∧ existing.generation = generation := by
          simpa using fresh
        refine ⟨existing, present, same.2, ?_⟩
        intro contributor hc hg
        simp only [List.any_eq_true, not_exists, not_and] at others
        simpa [hg] using others contributor hc

theorem resetDraft_moves {stored : Option CollaborationPageRecord} {page : CollaborationPageRecord} {userId : Int}
    {revision generation source : Nat} {now : Time} {result : CollaborationDiscardResult σ}
    (h : resetDraft document stored rooms page userId revision generation source now clientId = .ok (result, rooms')) :
    Moves document stored update rooms rooms' [] := by
  unfold resetDraft at h
  split at h
  · cases h
  split at h
  · cases h
  split at h
  · cases h
    exact .kept rooms rooms.connections
  obtain ⟨found, hl, h⟩ := bind_ok h
  have present := locked_ok hl
  cases found with
  | none =>
    cases h
    exact .kept rooms rooms.connections
  | some existing =>
    dsimp only at h
    split at h
    · cases h
      exact .kept rooms rooms.connections
    split at h
    · cases h
      exact .kept rooms rooms.connections
    split at h
    · cases h
      exact .kept rooms _
    obtain ⟨state, -, h⟩ := bind_ok h
    obtain ⟨next, ha, h⟩ := bind_ok h
    cases h
    obtain rfl := assertRoom_ok ha
    exact .replaced rooms existing _ _ present rfl rfl

/-- The page that an operation runs over. -/
theorem exec_moves (op : Op σ) (s : System σ) :
    Moves document (exec document op s).page op.update? s.rooms (exec document op s).rooms
      (accepted document s op) := by
  have idle : ∀ page, Moves document page op.update? s.rooms s.rooms [] := fun page =>
    .kept s.rooms s.rooms.connections
  cases op with
  | savePage page => exact idle _
  | openRoom now clientId =>
    dsimp only [exec, roomsAfter, accepted]
    split
    next h => exact openRoom_moves document h
    · exact idle _
  | admitConnection generation userId connectionId expiresAt baseUpdatedAt baseRevision now =>
    dsimp only [exec, roomsAfter, accepted]
    split
    next h => exact admitConnection_moves document h
    · exact idle _
  | leave connectionId => exact .kept s.rooms _
  | apply generation connectionId update userId now =>
    dsimp only [exec, roomsAfter, accepted]
    rcases h : applyUpdate document s.rooms generation connectionId update userId now with
      _ | ⟨_ | room, rooms⟩
    · exact idle _
    · exact applyUpdate_moves document h
    · exact applyUpdate_moves document h
  | synchronizePage userId now clientId =>
    dsimp only [exec, roomsAfter, accepted]
    split
    next h => exact synchronizePage_moves document h
    · exact idle _
  | resetDraft page userId revision generation source now clientId =>
    dsimp only [exec, roomsAfter, accepted]
    split
    next h => exact resetDraft_moves document h
    · exact idle _

end

/-! ## The contributors that are owed -/

theorem mem_addContributor {contributors : List Contributor} {contributor added : Contributor} :
    contributor ∈ addContributor contributors added ↔ contributor ∈ contributors ∨ contributor = added := by
  unfold addContributor
  split
  next h =>
    have : added ∈ contributors := by simpa using h
    constructor
    · exact Or.inl
    · rintro (h | rfl) <;> assumption
  next => simp

/-- Each update still unsaved in the generation of the room has its row. -/
structure Tracked (s : System σ) : Prop where
  known : ∀ generation userId, .applied generation userId ∈ s.log →
    ∃ room, s.rooms.room = some room ∧ generation ≤ room.generation
  owed : ∀ room, s.rooms.room = some room → ∀ userId,
    .applied room.generation userId ∈ sinceAgreement s.log → ⟨room.generation, userId⟩ ∈ s.rooms.contributors

theorem tracked_empty : Tracked (System.empty σ) where
  known := by simp [System.empty]
  owed := by simp [System.empty]

/-- What `Moves` leaves to the log when the text of the room differs from the page. -/
theorem Moves.tracked [Max σ] {document : Document σ} {page page' : Option CollaborationPageRecord}
    {events log : List Event} (h : Moves document page' update rooms rooms' events)
    (ht : Tracked ⟨page, rooms, log⟩) :
    Tracked ⟨page', rooms', (if agrees document page' rooms' then [.agreed] else []) ++ events ++ log⟩ := by
  obtain ⟨known, owed⟩ := ht
  dsimp only at known owed
  -- with the marker nothing is owed
  have owes : ∀ contributors : List Contributor, ∀ b : Bool,
      (∀ room, rooms'.room = some room → ∀ userId,
        .applied room.generation userId ∈ sinceAgreement (events ++ log) → b = false →
          ⟨room.generation, userId⟩ ∈ contributors) →
      ∀ room, rooms'.room = some room → ∀ userId,
        .applied room.generation userId ∈
            sinceAgreement ((if b then [.agreed] else []) ++ events ++ log) →
          ⟨room.generation, userId⟩ ∈ contributors := by
    intro contributors b hb room hr userId
    cases b with
    | true => simp
    | false =>
      intro hm
      exact hb room hr userId (by simpa using hm) rfl
  cases h with
  | kept connections =>
    refine ⟨?_, owes _ _ ?_⟩
    · intro generation userId hm
      exact known generation userId (by simpa using hm)
    · intro room hr userId hm _
      exact owed room hr userId (by simpa using hm)
  | created room absent =>
    have none_known : ∀ generation userId, .applied generation userId ∉ log := by
      intro generation userId hm
      obtain ⟨room, hr, -⟩ := known generation userId hm
      simp [absent] at hr
    refine ⟨?_, owes _ _ ?_⟩
    · intro generation userId hm
      exact absurd (by simpa using hm) (none_known generation userId)
    · intro room hr userId hm _
      exact absurd (mem_of_sinceAgreement (by simpa using hm)) (none_known _ userId)
  | settled room next present agreed state generation revision =>
    have still : agrees document page' (rooms.settle next false) = true := by
      cases page' with
      | none => simp [agrees, present] at agreed
      | some page => simpa [agrees, Rooms.settle, present, sameContent, state] using agreed
    refine ⟨?_, owes _ _ ?_⟩
    · intro g userId hm
      obtain ⟨old, hr, hg⟩ := known g userId (by simpa using hm)
      obtain rfl : room = old := by simpa [present] using hr
      exact ⟨next, rfl, by omega⟩
    · intro new hr userId hm hb
      simp [still] at hb
  | replaced room next connections present generation revision =>
    have older : ∀ g userId, .applied g userId ∈ log → g < next.generation := by
      intro g userId hm
      obtain ⟨old, hr, hg⟩ := known g userId hm
      obtain rfl : room = old := by simpa [present] using hr
      omega
    refine ⟨?_, owes _ _ ?_⟩
    · intro g userId hm
      exact ⟨next, rfl, (older g userId (by simpa using hm)).le⟩
    · intro new hr userId hm _
      obtain rfl : next = new := by simpa [Rooms.settle] using hr
      exact absurd (older _ userId (mem_of_sinceAgreement (by simpa using hm)))
        (Nat.lt_irrefl _)
  | merged room next connections incoming user present brought state generation revision =>
    refine ⟨?_, owes _ _ ?_⟩
    · intro g userId hm
      refine ⟨next, rfl, ?_⟩
      have hm : (g = room.generation ∧ userId = user) ∨ .applied g userId ∈ log := by
        simpa using hm
      rcases hm with ⟨rfl, -⟩ | hm
      · omega
      · obtain ⟨old, hr, hg⟩ := known g userId hm
        obtain rfl : room = old := by simpa [present] using hr
        omega
    · intro new hr userId hm _
      obtain rfl : next = new := by simpa using hr
      rw [generation] at hm ⊢
      refine mem_addContributor.mpr ?_
      have hm : userId = user ∨ .applied room.generation userId ∈ sinceAgreement log := by
        simpa using hm
      rcases hm with rfl | hm
      · exact .inr rfl
      · exact .inl (owed room present userId hm)

variable [SemilatticeSup σ] {document : Document σ}

theorem Reachable.tracked {s : System σ} (h : (store document).Reachable (System.empty σ) s) : Tracked s := by
  refine h.invariant tracked_empty ?_
  intro op s _ hs
  exact (exec_moves document op s).tracked hs

/-! ## The reset -/

/-- `room'` comes of `room` by one transaction that writes: the revision goes up, the
generation never down, and within the generation the state is kept or `update` is merged
into it. -/
structure Advances (update : Option σ) (room room' : CollaborationRoomRecord σ) : Prop where
  revision : room.revision < room'.revision
  generation : room.generation ≤ room'.generation
  merges : room'.generation = room.generation →
    room'.state = room.state ∨ ∃ u, update = some u ∧ room'.state = room.state ⊔ u
  keeps : room'.generation = room.generation → room.state ≤ room'.state

/-- A transaction that writes the room advances it. -/
theorem Moves.advances {events : List Event} (h : Moves document page update rooms rooms' events)
    (present : rooms.room = some room) :
    ∃ room', rooms'.room = some room' ∧ ((room' = room ∧ events = []) ∨ Advances update room room') := by
  cases h with
  | kept connections => exact ⟨room, present, .inl ⟨rfl, rfl⟩⟩
  | created created absent => simp [absent] at present
  | settled old next found agreed state generation revision =>
    obtain rfl : room = old := by simpa [present] using found
    refine ⟨next, rfl, .inr ⟨by omega, generation.ge, ?_, ?_⟩⟩
    · exact fun _ => .inl state
    · exact fun _ => state.ge
  | replaced old next connections found generation revision =>
    obtain rfl : room = old := by simpa [present] using found
    refine ⟨next, rfl, .inr ⟨by omega, by omega, ?_, ?_⟩⟩ <;>
    · intro same
      omega
  | merged old next connections incoming user found brought state generation revision =>
    obtain rfl : room = old := by simpa [present] using found
    refine ⟨next, rfl, .inr ⟨by omega, generation.ge, ?_, ?_⟩⟩
    · exact fun _ => .inr ⟨incoming, brought, state⟩
    · intro _
      rw [state]
      exact le_sup_left

/-- **A reset discards no unsaved work of others, and the room only advances.** -/
theorem draft_reset_safety {s : System σ}
    (h : (store document).Reachable (System.empty σ) s) :
    (∀ page userId revision generation source now clientId next rooms',
      resetDraft document s.page s.rooms page userId revision generation source now clientId
          = .ok (.reset next, rooms') →
        (∃ room, s.rooms.room = some room ∧ room.generation = generation) ∧
          ∀ user, .applied generation user ∈ sinceAgreement s.log → user = userId) ∧
    (∀ op room, s.rooms.room = some room →
      ∃ room', (exec document op s).rooms.room = some room' ∧
        ((room' = room ∧ accepted document s op = []) ∨ Advances op.update? room room')) := by
  constructor
  · intro page userId revision generation source now clientId next rooms' hreset
    obtain ⟨room, present, rfl, own⟩ := resetDraft_reset document hreset
    refine ⟨⟨room, present, rfl⟩, ?_⟩
    intro user happlied
    exact own _ ((Reachable.tracked h).owed room present user happlied) rfl
  · intro op room present
    exact (exec_moves document op s).advances present

/-! ## An example -/

/-- The state is the length of the text; the maximum is the join. -/
def exampleDocument : Document Nat where
  text n := List.replicate n 97
  documentState _ content := content.length
  bytes n := n
  maxBytes := 100

def exampleOps : List (Op Nat) :=
  [.savePage ⟨js "a", true, 1, 1⟩, .openRoom 1 0, .admitConnection 1 7 (js "c") 100 1 1 2, .apply 1 (js "c") 3 7 3]

def exampleState : System Nat := (store exampleDocument).after exampleOps (System.empty Nat)

/-- User 7 edits and resets the draft of its own. -/
theorem draft_reset_safety_example : exampleState.log = [.applied 1 7, .agreed, .agreed] ∧
    (∀ user, .applied 1 user ∈ sinceAgreement exampleState.log → user = 7) := by
  refine ⟨by decide, ?_⟩
  have hreach : (store exampleDocument).Reachable (System.empty Nat) exampleState :=
    ⟨exampleOps, ⟨trivial, trivial, trivial, trivial, trivial⟩, rfl⟩
  exact ((draft_reset_safety hreach).1 ⟨js "a", true, 1, 1⟩ 7 1 1 1 4 0 _ _ rfl).2

end TsEpistle.Collaboration
