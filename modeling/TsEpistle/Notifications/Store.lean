import TsEpistle.Library.Table
import TsEpistle.Library.Checked

/-! The outbox and the tables that notifications are kept in: whom an event is told to, and how
the job of one recipient is enqueued, or joined to the job that collects a page's updates. -/

namespace TsEpistle.Notifications
open Library

/-- Types that differ in their audience. `changed` is any other page event, `other` has none. -/
inductive EventType where
  | created
  | updated
  | deleted
  | changed
  | discussion
  | other
  deriving DecidableEq, Repr

/-- Random ids are numbers here, as they are compared. -/
structure NotificationOutboxEvent where
  id : Nat
  type : EventType
  (pageId actorId createdAt : Nat)
  deriving DecidableEq, Repr

structure OutboxEventRow where
  event : NotificationOutboxEvent
  published : Bool
  deriving DecidableEq, Repr

inductive Category where
  | pageWatch
  | pageCreated
  | pageDeleted
  | mention
  | commentReply
  | watchedPageComment
  deriving DecidableEq, Repr

structure Channels where
  (inAppEnabled emailEnabled : Bool)
  deriving DecidableEq, Repr

def Channels.any (channels : Channels) : Bool := channels.inAppEnabled || channels.emailEnabled

structure WatcherRow where
  (pageId userId : Nat)
  channels : Channels
  deriving DecidableEq, Repr

structure PreferenceRow where
  userId : Nat
  category : Category
  channels : Channels
  deriving DecidableEq, Repr

structure NotificationRecipient where
  (userId pageId actorId : Nat)
  category : Category
  channels : Channels
  deriving DecidableEq, Repr

structure DeliveryPayload where
  (deliveryId eventId userId : Nat)
  category : Category
  channels : Channels
  deriving DecidableEq, Repr

inductive Payload where
  | delivery (payload : DeliveryPayload)
  | audience (eventId afterUserId audienceAt : Nat)
  deriving DecidableEq, Repr

def Payload.delivery? : Payload → Option DeliveryPayload
  | .delivery payload => some payload
  | .audience .. => none

inductive DeduplicationKey where
  | pageWatchUpdate (userId pageId bucketStart : Nat)
  | pageWatch (userId eventId : Nat)
  | notificationAudience (eventId afterUserId : Nat)
  deriving DecidableEq, Repr

inductive JobState where
  | pending
  | running (leaseToken : Nat)
  | succeeded
  deriving DecidableEq, Repr

structure Job where
  id : Nat
  key : DeduplicationKey
  payload : Payload
  state : JobState
  nextRunAt : Nat
  deriving DecidableEq, Repr

structure DeliveryRow where
  (id eventId userId jobId : Nat)
  delivered : Bool
  deriving DecidableEq, Repr

structure NotificationRow where
  (eventId userId pageId : Nat)
  deriving DecidableEq, Repr

/-- `readers` are the pairs of a page and a user whose account can be told and who can read the
page. New ids are drawn from `fresh`. -/
structure Database where
  events : List OutboxEventRow
  watchers : List WatcherRow
  preferences : List PreferenceRow
  readers : List (Nat × Nat)
  jobs : List Job
  deliveries : List DeliveryRow
  inbox : List NotificationRow
  (clock fresh : Nat)
  deriving DecidableEq, Repr

/-- What the comments of a page say about a discussion event. -/
structure Discussion where
  candidates : List Nat
  recipients : List (Nat × Category × Channels)
  deriving DecidableEq, Repr

namespace Database

/-- All events, without what becomes of them. -/
def told (db : Database) : List NotificationOutboxEvent := db.events.map OutboxEventRow.event

def event (db : Database) (id : Nat) : Option NotificationOutboxEvent :=
  Table.get NotificationOutboxEvent.id db.told id

def job (db : Database) (key : DeduplicationKey) : Option Job := Table.get Job.key db.jobs key

def watcher (db : Database) (pageId userId : Nat) : Option WatcherRow :=
  db.watchers.find? fun row => row.pageId = pageId ∧ row.userId = userId

def channels (db : Database) (userId : Nat) (category : Category) : Channels :=
  ((db.preferences.find? fun row => row.userId = userId ∧ row.category = category).map
    PreferenceRow.channels).getD ⟨false, false⟩

end Database

/-! ## The audience -/

def pageCategory : EventType → Option Category
  | .created => some .pageCreated
  | .deleted => some .pageDeleted
  | _ => none

def selectPageRecipient (db : Database) (event : NotificationOutboxEvent) (userId : Nat) :
    Option NotificationRecipient :=
  if userId = event.actorId ∨ userId = 2 then none
  else
    let watched := ((db.watcher event.pageId userId).map WatcherRow.channels).getD ⟨false, false⟩
    let deletion := if event.type = .deleted then db.channels userId .pageDeleted else ⟨false, false⟩
    let category := pageCategory event.type
    let selected :=
      if deletion.any then some (.pageDeleted, deletion)
      else if watched.any then some (.pageWatch, watched)
      else category.map fun category => (category, db.channels userId category)
    (selected.filter fun selected => selected.2.any).map fun selected =>
      { userId
        pageId := event.pageId
        actorId := event.actorId
        category := selected.1
        channels := selected.2 }

def selectDiscussionRecipient (event : NotificationOutboxEvent) (discussion : Discussion)
    (userId : Nat) : Option NotificationRecipient :=
  if userId = event.actorId ∨ userId = 2 then none
  else
    (discussion.recipients.find? fun recipient => recipient.1 = userId).map fun recipient =>
      { userId
        pageId := event.pageId
        actorId := event.actorId
        category := recipient.2.1
        channels := recipient.2.2 }

def selectRecipients (db : Database) (event : NotificationOutboxEvent) (discussion : Discussion)
    (userIds : List Nat) : List NotificationRecipient :=
  if event.type = .discussion then userIds.filterMap (selectDiscussionRecipient event discussion)
  else userIds.filterMap (selectPageRecipient db event)

/-- The candidates in the order of their ids. -/
def candidates (db : Database) (event : NotificationOutboxEvent) (discussion : Discussion) :
    List Nat :=
  let watchers :=
    (db.watchers.filter fun row => row.pageId = event.pageId ∧ row.channels.any).map
      WatcherRow.userId
  let users :=
    if event.type = .discussion then discussion.candidates
    else
      match pageCategory event.type with
      | none => watchers
      | some category =>
        watchers ++
          (db.preferences.filter fun row => row.category = category ∧ row.channels.any).map
            PreferenceRow.userId
  users.dedup.insertionSort (· ≤ ·)

def AUDIENCE_BATCH_SIZE : Nat := 100

def audienceRows (users : List Nat) (afterUserId : Nat) : List Nat :=
  (users.filter fun userId => afterUserId < userId).take (AUDIENCE_BATCH_SIZE + 1)

/-- The users of one page. -/
def audiencePage (users : List Nat) (afterUserId : Nat) : List Nat :=
  (audienceRows users afterUserId).take AUDIENCE_BATCH_SIZE

/-- Where the page after this one starts. -/
def nextUserId (users : List Nat) (afterUserId : Nat) : Option Nat :=
  if AUDIENCE_BATCH_SIZE < (audienceRows users afterUserId).length then
    (audiencePage users afterUserId).getLast?
  else none

/-! ## Jobs -/

/-- A job with the same key is kept as it is. -/
def enqueue (db : Database) (key : DeduplicationKey) (payload : Payload) (nextRunAt : Nat) :
    Database :=
  match db.job key with
  | some _ => db
  | none =>
    { db with
      jobs := db.jobs ++ [{ id := db.fresh, key, payload, state := .pending, nextRunAt }]
      fresh := db.fresh + 1 }

def aggregationMs : Nat := 2 * 60 * 1000

def bucketStart (audienceAt : Nat) : Nat := audienceAt / aggregationMs * aggregationMs

/-- Updates of a watched page share a job. -/
def aggregated (event : NotificationOutboxEvent) (recipient : NotificationRecipient) : Bool :=
  event.type = .updated ∧ recipient.category = .pageWatch

def recipientKey (event : NotificationOutboxEvent) (recipient : NotificationRecipient)
    (audienceAt : Nat) : DeduplicationKey :=
  if aggregated event recipient then
    .pageWatchUpdate recipient.userId recipient.pageId (bucketStart audienceAt)
  else .pageWatch recipient.userId event.id

/-- The order of events: by the time they were made, and by id. -/
def NotificationOutboxEvent.After (event previous : NotificationOutboxEvent) : Prop :=
  previous.createdAt < event.createdAt ∨ (event.createdAt = previous.createdAt ∧ previous.id < event.id)

instance (event previous : NotificationOutboxEvent) : Decidable (event.After previous) :=
  inferInstanceAs (Decidable (_ ∨ _))

/-- Which event a shared job is about, after `event` has reached it. -/
def joinBucket (db : Database) (event : NotificationOutboxEvent) (payload : DeliveryPayload)
    (job : Job) (current : DeliveryPayload) : Except String (Database × Nat) :=
  if current.eventId ≠ event.id ∧ job.state = .pending then
    match db.event current.eventId with
    | none => .error "Aggregated notification event is unavailable"
    | some previous =>
      if event.After previous then
        .ok
          ({ db with
              jobs := Table.updateWhere (fun row => row.id = job.id ∧ row.state = .pending)
                (fun row =>
                  { row with
                    payload := .delivery { payload with deliveryId := current.deliveryId } })
                db.jobs },
            event.id)
      else .ok (db, current.eventId)
  else .ok (db, current.eventId)

/-- Deliveries are unique by id, where a second one is merged, and by event and user. -/
def insertDelivery (db : Database) (row : DeliveryRow) : Except String Database :=
  if ∃ other ∈ db.deliveries,
      other.id ≠ row.id ∧ other.eventId = row.eventId ∧ other.userId = row.userId then
    .error "page_watch_deliveries_idempotency_unique"
  else if ∃ other ∈ db.deliveries, other.id = row.id then
    .ok
      { db with
        deliveries := Table.updateWhere (fun other => other.id = row.id)
          (fun other => { other with eventId := row.eventId }) db.deliveries }
  else .ok { db with deliveries := db.deliveries ++ [row] }

def enqueueRecipient (event : NotificationOutboxEvent) (audienceAt : Nat) (db : Database)
    (recipient : NotificationRecipient) : Except String Database := do
  let payload : DeliveryPayload :=
    { deliveryId := db.fresh
      eventId := event.id
      userId := recipient.userId
      category := recipient.category
      channels := recipient.channels }
  let key := recipientKey event recipient audienceAt
  let db := enqueue db key (.delivery payload)
    (if aggregated event recipient then bucketStart audienceAt + aggregationMs + 5000
      else db.clock)
  match db.job key with
  | none => throw "Durable job was not inserted or deduplicated"
  | some job =>
    match job.payload with
    | .audience .. => throw "Aggregated notification job is invalid"
    | .delivery current =>
      let (db, selected) ←
        if aggregated event recipient then joinBucket db event payload job current
        else pure (db, event.id)
      insertDelivery db
        { id := current.deliveryId
          eventId := selected
          userId := recipient.userId
          jobId := job.id
          delivered := false }

/-- Those that the page of the audience after `afterUserId` reaches. -/
def recipients (db : Database) (event : NotificationOutboxEvent) (afterUserId : Nat)
    (discussion : Discussion) : List NotificationRecipient :=
  selectRecipients db event discussion
    (audiencePage (candidates db event discussion) afterUserId)

def enqueueNotificationAudience (db : Database) (event : NotificationOutboxEvent)
    (afterUserId audienceAt : Nat) (discussion : Discussion) : Except String Database := do
  let next := nextUserId (candidates db event discussion) afterUserId
  let reached ←
    (recipients db event afterUserId discussion).foldlM (enqueueRecipient event audienceAt) db
  match next with
  | some nextUserId =>
    pure (enqueue reached (.notificationAudience event.id nextUserId)
      (.audience event.id nextUserId audienceAt) reached.clock)
  | none =>
    if event.type = .deleted then
      pure { reached with
        watchers := reached.watchers.filter fun row => row.pageId ≠ event.pageId }
    else pure reached

/-- One round of `publishOutboxEvents`, for the event that the round has locked. -/
def publishOutboxEvent (db : Database) (event : NotificationOutboxEvent) (now : Nat)
    (discussion : Discussion) : Except String Database := do
  let reached ←
    if event.type = .other then pure db
    else enqueueNotificationAudience db event 0 now discussion
  pure { reached with
    events := Table.updateWhere (fun row => row.event.id = event.id ∧ row.published = false)
      (fun row => { row with published := true }) reached.events }

end TsEpistle.Notifications
