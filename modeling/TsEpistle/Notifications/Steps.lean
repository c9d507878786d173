import TsEpistle.Notifications.Store
import TsEpistle.Library.Machine

/-! The machine of notifications: writers and publishers of the outbox, and the workers of
`notify-page-watcher`, which are stopped between any two of their statements. -/

namespace TsEpistle.Notifications
open Library

/-- What the handler has done. After `refused`, `inserted` the delivery is to be marked. -/
inductive Phase where
  | started
  | found
  | refused
  | cleared (inAppEnabled : Bool)
  | inserted
  | finished
  | threw
  deriving DecidableEq, Repr

structure Worker where
  (leaseToken jobId : Nat)
  payload : Payload
  phase : Phase
  deriving DecidableEq, Repr

/-- A page of an audience that has been visited, and the candidates of that moment. -/
structure Visit where
  (eventId afterUserId : Nat)
  users : List Nat
  deriving DecidableEq, Repr

/-- A delivery that may go on, and who could read what when this was checked. -/
structure Clearance where
  (eventId userId : Nat)
  readers : List (Nat × Nat)
  deriving DecidableEq, Repr

/-- `visits` and `clearances` are logs of all that has happened. -/
structure State where
  db : Database
  workers : List Worker
  visits : List Visit
  clearances : List Clearance
  deriving DecidableEq, Repr

/-- `withheld` is a refusal that only categories other than `pageWatch` know: a protected title,
or a discussion the user may not read. -/
structure Circumstances where
  discussion : Discussion
  withheld : Bool
  deriving DecidableEq, Repr

inductive Action where
  | audience (discussion : Discussion)
  | find
  | check (circumstances : Circumstances)
  | insert
  | settle
  | throw
  | complete
  | fail (retryDelay : Nat)
  deriving DecidableEq, Repr

inductive Op where
  | write (event : NotificationOutboxEvent)
  | publish (eventId now : Nat) (discussion : Discussion)
  | watch (row : WatcherRow)
  | unwatch (pageId userId : Nat)
  | prefer (row : PreferenceRow)
  | allow (pageId userId : Nat)
  | withdraw (pageId userId : Nat)
  | claim (jobId : Nat)
  | work (leaseToken : Nat) (action : Action)
  | tick (time : Nat)
  deriving DecidableEq, Repr

def enabled : Op → State → Prop
  | .write event, s => event.id ∉ s.db.told.map NotificationOutboxEvent.id
  | .publish _ now _, s => now ≤ s.db.clock
  | .watch row, _ => 0 < row.userId ∧ row.userId ≠ 2
  | _, _ => True

instance : ∀ op s, Decidable (enabled op s)
  | .write _, _ => inferInstanceAs (Decidable (_ ∉ _))
  | .publish .., _ => inferInstanceAs (Decidable (_ ≤ _))
  | .watch _, _ => inferInstanceAs (Decidable (_ ∧ _))
  | .unwatch .., _ | .prefer _, _ | .allow .., _ | .withdraw .., _ | .claim _, _ | .work .., _
  | .tick _, _ => inferInstanceAs (Decidable True)

/-! ## The handler -/

/-- The category and the channels that count at delivery. -/
def resolveRecipient (db : Database) (event : NotificationOutboxEvent) (payload : DeliveryPayload)
    (discussion : Discussion) : Option (Category × Channels) :=
  if event.type = .discussion then
    (selectRecipients db event discussion [payload.userId]).head?.map fun recipient =>
      (recipient.category, recipient.channels)
  else if payload.category = .pageWatch then some (payload.category, payload.channels)
  else
    let preference := db.channels payload.userId payload.category
    some (payload.category,
      ⟨payload.channels.inAppEnabled && preference.inAppEnabled,
        payload.channels.emailEnabled && preference.emailEnabled⟩)

inductive Verdict where
  | refused
  | unreadable
  | cleared (inAppEnabled : Bool)
  deriving DecidableEq, Repr

def verdict (db : Database) (event : NotificationOutboxEvent) (payload : DeliveryPayload)
    (circumstances : Circumstances) : Verdict :=
  match resolveRecipient db event payload circumstances.discussion with
  | none => .refused
  | some (category, channels) =>
    if event.actorId = payload.userId ∨ channels.any = false then .refused
    else if (event.pageId, payload.userId) ∉ db.readers then .unreadable
    else if category ≠ .pageWatch ∧ circumstances.withheld then .refused
    else .cleared channels.inAppEnabled

def purgeRecipientPage (db : Database) (pageId userId : Nat) : Database :=
  { db with
    inbox := db.inbox.filter fun row => ¬ (row.pageId = pageId ∧ row.userId = userId)
    watchers := db.watchers.filter fun row => ¬ (row.pageId = pageId ∧ row.userId = userId) }

/-- The row of a payload, as the handler looks for it. -/
def DeliveryRow.Matches (row : DeliveryRow) (payload : DeliveryPayload) : Prop :=
  row.id = payload.deliveryId ∧ row.eventId = payload.eventId ∧ row.userId = payload.userId

instance (row : DeliveryRow) (payload : DeliveryPayload) : Decidable (row.Matches payload) :=
  inferInstanceAs (Decidable (_ ∧ _ ∧ _))

def insertNotification (db : Database) (row : NotificationRow) : Database :=
  if ∃ other ∈ db.inbox, other.eventId = row.eventId ∧ other.userId = row.userId then db
  else { db with inbox := db.inbox ++ [row] }

def markDelivered (db : Database) (payload : DeliveryPayload) : Database :=
  { db with
    deliveries := Table.updateWhere (fun row => row.Matches payload)
      (fun row => { row with delivered := true }) db.deliveries }

/-- An update of the job that this worker still holds. -/
def updateHeld (db : Database) (worker : Worker) (change : Job → Job) : Database :=
  { db with
    jobs := Table.updateWhere
      (fun job => job.id = worker.jobId ∧ job.state = .running worker.leaseToken) change db.jobs }

def State.goto (s : State) (leaseToken : Nat) (phase : Phase) : State :=
  { s with
    workers := Table.updateWhere (fun worker => worker.leaseToken = leaseToken)
      (fun worker => { worker with phase }) s.workers }

def workAudience (s : State) (worker : Worker) (eventId afterUserId audienceAt : Nat)
    (discussion : Discussion) : State :=
  match s.db.event eventId with
  | none => s.goto worker.leaseToken .finished
  | some event =>
    match enqueueNotificationAudience s.db event afterUserId audienceAt discussion with
    | .error _ => s.goto worker.leaseToken .threw
    | .ok db =>
      let visit : Visit := ⟨eventId, afterUserId, candidates s.db event discussion⟩
      State.goto { s with db, visits := s.visits ++ [visit] } worker.leaseToken .finished

def workCheck (s : State) (worker : Worker) (payload : DeliveryPayload)
    (circumstances : Circumstances) : State :=
  match s.db.event payload.eventId with
  | none => s.goto worker.leaseToken .threw
  | some event =>
    match verdict s.db event payload circumstances with
    | .refused => s.goto worker.leaseToken .refused
    | .unreadable =>
      State.goto { s with db := purgeRecipientPage s.db event.pageId payload.userId }
        worker.leaseToken .refused
    | .cleared inAppEnabled =>
      let clearance : Clearance := ⟨event.id, payload.userId, s.db.readers⟩
      State.goto { s with clearances := s.clearances ++ [clearance] } worker.leaseToken
        (.cleared inAppEnabled)

def workInsert (s : State) (worker : Worker) (payload : DeliveryPayload) (inAppEnabled : Bool) :
    State :=
  match s.db.event payload.eventId with
  | none => s.goto worker.leaseToken .threw
  | some event =>
    let db :=
      if inAppEnabled then insertNotification s.db ⟨event.id, payload.userId, event.pageId⟩
      else s.db
    State.goto { s with db } worker.leaseToken .inserted

/-- A worker whose phase does not allow the action stays where it is. -/
def work (s : State) (worker : Worker) : Action → State
  | .audience discussion =>
    match worker.phase, worker.payload with
    | .started, .audience eventId afterUserId audienceAt =>
      workAudience s worker eventId afterUserId audienceAt discussion
    | _, _ => s
  | .find =>
    match worker.phase, worker.payload with
    | .started, .delivery payload =>
      if ∃ row ∈ s.db.deliveries, row.Matches payload ∧ row.delivered = false then
        s.goto worker.leaseToken .found
      else s.goto worker.leaseToken .finished
    | _, _ => s
  | .check circumstances =>
    match worker.phase, worker.payload with
    | .found, .delivery payload => workCheck s worker payload circumstances
    | _, _ => s
  | .insert =>
    match worker.phase, worker.payload with
    | .cleared inAppEnabled, .delivery payload => workInsert s worker payload inAppEnabled
    | _, _ => s
  | .settle =>
    match worker.phase, worker.payload with
    | .refused, .delivery payload | .inserted, .delivery payload =>
      State.goto { s with db := markDelivered s.db payload } worker.leaseToken .finished
    | _, _ => s
  | .throw => if worker.phase = .finished then s else s.goto worker.leaseToken .threw
  | .complete =>
    if worker.phase = .finished then
      { s with db := updateHeld s.db worker fun job => { job with state := .succeeded } }
    else s
  | .fail retryDelay =>
    if worker.phase = .threw then
      { s with
        db := updateHeld s.db worker fun job =>
          { job with
            state := .pending
            nextRunAt := s.db.clock + retryDelay } }
    else s

/-! ## Steps -/

/-- A lease may be found expired at any time: renewals may come late. -/
def Job.claimable (job : Job) (clock : Nat) : Prop :=
  job.state ≠ .succeeded ∧ job.nextRunAt ≤ clock

instance (job : Job) (clock : Nat) : Decidable (job.claimable clock) :=
  inferInstanceAs (Decidable (_ ∧ _))

def claim (s : State) (job : Job) : State :=
  { s with
    db := { s.db with
      jobs := Table.replace Job.id { job with state := .running s.db.fresh } s.db.jobs
      fresh := s.db.fresh + 1 }
    workers := s.workers ++ [⟨s.db.fresh, job.id, job.payload, .started⟩] }

def publish (s : State) (event : NotificationOutboxEvent) (now : Nat) (discussion : Discussion) :
    State :=
  match publishOutboxEvent s.db event now discussion with
  | .error _ => s
  | .ok db =>
    { s with
      db
      visits :=
        if event.type = .other then s.visits
        else s.visits ++ [⟨event.id, 0, candidates s.db event discussion⟩] }

def exec : Op → State → State
  | .write event, s => { s with db := { s.db with events := s.db.events ++ [⟨event, false⟩] } }
  | .publish eventId now discussion, s =>
    match s.db.events.find? fun row => row.event.id = eventId ∧ row.published = false with
    | none => s
    | some row => publish s row.event now discussion
  | .watch row, s =>
    { s with
      db := { s.db with
        watchers := (s.db.watchers.filter fun other =>
          ¬ (other.pageId = row.pageId ∧ other.userId = row.userId)) ++ [row] } }
  | .unwatch pageId userId, s =>
    { s with
      db := { s.db with
        watchers := s.db.watchers.filter fun row =>
          ¬ (row.pageId = pageId ∧ row.userId = userId) } }
  | .prefer row, s =>
    { s with
      db := { s.db with
        preferences := (s.db.preferences.filter fun other =>
          ¬ (other.userId = row.userId ∧ other.category = row.category)) ++ [row] } }
  | .allow pageId userId, s =>
    { s with db := { s.db with readers := s.db.readers ++ [(pageId, userId)] } }
  | .withdraw pageId userId, s =>
    { s with
      db := { s.db with readers := s.db.readers.filter fun pair => pair ≠ (pageId, userId) } }
  | .claim jobId, s =>
    match Table.get Job.id s.db.jobs jobId with
    | none => s
    | some job => if job.claimable s.db.clock then claim s job else s
  | .work leaseToken action, s =>
    match Table.get Worker.leaseToken s.workers leaseToken with
    | none => s
    | some worker => work s worker action
  | .tick time, s => { s with db := { s.db with clock := s.db.clock + time } }

def notifications : Machine State Op where
  enabled := enabled
  exec := exec

instance (op : Op) (s : State) : Decidable (notifications.enabled op s) :=
  inferInstanceAs (Decidable (enabled op s))

instance (C : Op → State → Prop) [∀ op s, Decidable (C op s)] (op : Op) (s : State) :
    Decidable ((notifications.restrict C).enabled op s) :=
  inferInstanceAs (Decidable (enabled op s ∧ C op s))

/-- Nothing has been written yet, but users may watch pages. -/
structure Initial (s : State) : Prop where
  events : s.db.events = []
  jobs : s.db.jobs = []
  deliveries : s.db.deliveries = []
  inbox : s.db.inbox = []
  workers : s.workers = []
  visits : s.visits = []
  clearances : s.clearances = []
  watchers : ∀ row ∈ s.db.watchers, 0 < row.userId ∧ row.userId ≠ 2

/-- Nothing is left to do. -/
def Quiet (s : State) : Prop :=
  (∀ row ∈ s.db.events, row.published = true) ∧ ∀ job ∈ s.db.jobs, job.state = .succeeded

instance (s : State) : Decidable (Quiet s) := inferInstanceAs (Decidable (_ ∧ _))

end TsEpistle.Notifications
