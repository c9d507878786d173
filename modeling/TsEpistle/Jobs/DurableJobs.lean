import TsEpistle.Library.JsString
import TsEpistle.Library.Table

/-! The statements of `DurableJobStore` (`server/core/durable-jobs.ts`) on the
table `durableJobs`. A statement is an `Update`: its `WHERE` clause and its `SET`
clause. Times are milliseconds of a `Date`; `payload` is the stored JSON text,
which no statement looks into. -/

namespace TsEpistle.Jobs
open Library

abbrev Uuid := JsString
abbrev Time := Int

inductive DurableJobState
  | pending | running | succeeded | failed | cancelled
  deriving DecidableEq, Repr

structure DurableJobRow where
  id : Uuid
  type : JsString
  version : Int
  payload : JsString
  state : DurableJobState
  (attempts maxAttempts : Int)
  nextRunAt : Time
  leaseOwner : Option JsString
  leaseToken : Option Uuid
  leaseExpiresAt : Option Time
  (lastError deduplicationKey : Option JsString)
  (createdAt updatedAt : Time)
  completedAt : Option Time
  deriving DecidableEq, Repr

/-- A row as a claim hands it out. -/
structure DurableJob extends DurableJobRow where
  attemptsBeforeClaim : Option Int
  deriving DecidableEq, Repr

structure EnqueueDurableJob where
  type : JsString
  version : Int
  payload : JsString
  maxAttempts : Option Int
  nextRunAt : Option Time
  deduplicationKey : Option JsString

structure ClaimDurableJobs where
  workerId : JsString
  (limit leaseMs : Option Int)
  now : Time
  supportedIdentities : Option (List JsString)
  deriving DecidableEq, Repr

/-- What a handler threw. `deferral` holds the `contention` flag of a
`DurableJobDeferral` and is `none` for any other error. -/
structure JobError where
  message : JsString
  deferral : Option Bool

inductive StoreError
  | typeError (message : JsString)
  | error (message : JsString)
  | uniqueViolation (constraint : String)
  deriving DecidableEq, Repr

def isRetainedStorageMutation (type : JsString) (version : Int) : Bool :=
  type == js "storage-mutation" && (version == 1 || version == 2)

def DurableJobRow.retained (row : DurableJobRow) : Bool :=
  isRetainedStorageMutation row.type row.version

def isSafeInteger (value : Int) : Bool := -(2 ^ 53 - 1) ≤ value && value ≤ 2 ^ 53 - 1

def defaultLeaseMs : Int := 30000

def defaultRetryDelay (attempt : Int) : Int := min 300000 (1000 * 2 ^ (max 0 (attempt - 1)).toNat)

def exhaustedLeaseError : JsString := js "Durable job lease expired after its final allowed attempt"

/-! ## Job identities -/

def isDigit (c : UInt16) : Bool := 0x30 ≤ c && c ≤ 0x39

def isLower (c : UInt16) : Bool := 0x61 ≤ c && c ≤ 0x7A

/-- `/^[a-z0-9]+(?:-[a-z0-9]+)*$/` -/
def validJobType (type : JsString) : Bool :=
  (type.splitOn 0x2D).all fun part => part != [] && part.all fun c => isDigit c || isLower c

structure SupportedDurableJob where
  type : JsString
  version : Int
  deriving DecidableEq, Repr

def decimal (digits : JsString) : Nat :=
  digits.foldl (fun n c => 10 * n + (c.toNat - 0x30)) 0

/-- The two captures of `/^([a-z0-9]+(?:-[a-z0-9]+)*)@([1-9]\d*)$/`. -/
def validJobIdentity (identity : JsString) : Option (JsString × JsString) :=
  match identity.span (· != 0x40) with
  | (type, _ :: digits) =>
    if validJobType type && digits.all isDigit && digits.head?.any (· != 0x30) then
      some (type, digits)
    else none
  | (_, []) => none

def parseSupportedIdentities (identities : Option (List JsString)) :
    Option (List SupportedDurableJob) :=
  identities.map fun identities => identities.filterMap fun identity =>
    match validJobIdentity identity with
    | none => none
    | some (type, digits) =>
      if isSafeInteger (decimal digits) then some ⟨type, decimal digits⟩ else none

/-! ## Statements -/

structure Update where
  cond : DurableJobRow → Bool
  set : DurableJobRow → DurableJobRow

def leaseExpired (now : Time) (row : DurableJobRow) : Bool :=
  row.leaseExpiresAt.any fun expires => expires ≤ now

/-- `applyEligiblePredicate` -/
def eligible (now : Time) (row : DurableJobRow) : Bool :=
  row.nextRunAt ≤ now &&
    (row.attempts < row.maxAttempts || row.retained) &&
    (row.state == .pending || (row.state == .running && leaseExpired now row))

/-- `applySupportedIdentitiesPredicate` -/
def supportedBy (supported : Option (List SupportedDurableJob)) (row : DurableJobRow) : Bool :=
  match supported with
  | none => true
  | some supported => supported.any fun identity =>
    identity.type == row.type && identity.version == row.version

/-- `.insert(row)` with the primary key and the unique index of the table. -/
def insert (row : DurableJobRow) (rows : List DurableJobRow) :
    Except StoreError (List DurableJobRow) :=
  if rows.any (fun r => r.id == row.id) then .error (.uniqueViolation "durableJobs_pkey")
  else if row.deduplicationKey.any fun key => rows.any fun r => r.deduplicationKey == some key then
    .error (.uniqueViolation "durable_jobs_deduplication_unique")
  else .ok (rows ++ [row])

def enqueueRow (input : EnqueueDurableJob) (id : Uuid) (now : Time) : DurableJobRow where
  id := id
  type := input.type
  version := input.version
  payload := input.payload
  state := .pending
  attempts := 0
  maxAttempts := input.maxAttempts.getD 5
  nextRunAt := input.nextRunAt.getD now
  leaseOwner := none
  leaseToken := none
  leaseExpiresAt := none
  lastError := none
  deduplicationKey := input.deduplicationKey
  createdAt := now
  updatedAt := now
  completedAt := none

/-- The table after `enqueue` and the job it returns; `id` is the new UUID. -/
def enqueue (input : EnqueueDurableJob) (id : Uuid) (now : Time) (rows : List DurableJobRow) :
    Except StoreError (List DurableJobRow × DurableJob) :=
  let maxAttempts := input.maxAttempts.getD 5
  let row := enqueueRow input id now
  if !validJobType input.type then
    .error (.typeError (js "Invalid durable job type: " ++ input.type))
  else if !isSafeInteger input.version || input.version < 1 then
    .error (.typeError (js "Durable job version must be a positive integer"))
  else if !isSafeInteger maxAttempts || maxAttempts < 1 || maxAttempts > 100 then
    .error (.typeError (js "Durable job maxAttempts must be an integer from 1 through 100"))
  else match input.deduplicationKey.filter (· != []) with
    | none => (insert row rows).map fun rows => (rows, ⟨row, none⟩)
    | some key =>
      -- `onConflict('deduplicationKey').ignore()`, then the row under the key is read back
      let inserted := if rows.any (fun r => r.deduplicationKey == some key) then .ok rows
        else insert row rows
      inserted.bind fun rows =>
        match rows.find? (fun r => r.deduplicationKey == some key) with
        | some stored => .ok (rows, ⟨stored, none⟩)
        | none => .error (.error (js "Durable job " ++ id ++ js " was not inserted or deduplicated"))

def claimLimit (input : ClaimDurableJobs) : Int := input.limit.getD 10

def claimLeaseMs (input : ClaimDurableJobs) : Int := input.leaseMs.getD defaultLeaseMs

def claimSupported (input : ClaimDurableJobs) : Option (List SupportedDurableJob) :=
  parseSupportedIdentities input.supportedIdentities

def validateClaim (input : ClaimDurableJobs) : Except StoreError Unit :=
  if input.workerId == [] || input.workerId.length > 128 then
    .error (.typeError (js "workerId must contain 1 through 128 characters"))
  else if !isSafeInteger (claimLimit input) || claimLimit input < 1 || claimLimit input > 100 then
    .error (.typeError (js "claim limit must be an integer from 1 through 100"))
  else if !isSafeInteger (claimLeaseMs input) || claimLeaseMs input < 1000 ||
      claimLeaseMs input > 3600000 then
    .error (.typeError (js "leaseMs must be an integer from 1000 through 3600000"))
  else .ok ()

/-- First statement of `claim`: expired leases after the final attempt. -/
def exhaustUpdate (input : ClaimDurableJobs) : Update where
  cond row := row.state == .running && leaseExpired input.now row &&
    row.attempts ≥ row.maxAttempts && !row.retained && supportedBy (claimSupported input) row
  set row := { row with
    state := .failed
    leaseOwner := none
    leaseToken := none
    leaseExpiresAt := none
    lastError := some exhaustedLeaseError
    completedAt := some input.now
    updatedAt := input.now }

structure Candidate where
  id : Uuid
  type : JsString
  (version attempts : Int)
  deriving DecidableEq, Repr

def candidateOf (row : DurableJobRow) : Candidate := ⟨row.id, row.type, row.version, row.attempts⟩

/-- Second statement of `claim`: `ORDER BY nextRunAt, id LIMIT limit * 3`. -/
def selectCandidates (input : ClaimDurableJobs) (rows : List DurableJobRow) : List Candidate :=
  let found := rows.filter fun row => eligible input.now row && supportedBy (claimSupported input) row
  let ordered := found.insertionSort fun a b =>
    a.nextRunAt < b.nextRunAt ∨ a.nextRunAt = b.nextRunAt ∧ a.id ≤ b.id
  (ordered.take (claimLimit input * 3).toNat).map candidateOf

/-- The `CASE` expression for `attempts`. -/
def claimAttempts (row : DurableJobRow) : Int :=
  if row.retained && row.attempts ≥ row.maxAttempts then row.maxAttempts else row.attempts + 1

/-- The update of one candidate in the loop of `claim`. -/
def claimUpdate (input : ClaimDurableJobs) (candidate : Candidate) (leaseToken : Uuid) : Update where
  cond row := row.id == candidate.id && eligible input.now row &&
    (!isRetainedStorageMutation candidate.type candidate.version || row.attempts == candidate.attempts) &&
    supportedBy (claimSupported input) row
  set row := { row with
    state := .running
    leaseOwner := some input.workerId
    leaseToken := some leaseToken
    leaseExpiresAt := some (input.now + claimLeaseMs input)
    attempts := claimAttempts row
    updatedAt := input.now }

/-- The read after a successful claim update, and the job made of it. -/
def fetchClaimed (input : ClaimDurableJobs) (candidate : Candidate) (leaseToken : Uuid)
    (rows : List DurableJobRow) : Option DurableJob :=
  (rows.find? fun row => row.id == candidate.id && row.leaseOwner == some input.workerId &&
      row.leaseToken == some leaseToken).map fun row =>
    { row with attemptsBeforeClaim := if row.retained then some candidate.attempts else none }

/-- The fence shared by `extendLease`, `complete` and `fail`. -/
def heldWhere (job : DurableJob) (now : Time) (row : DurableJobRow) : Bool :=
  row.id == job.id && row.type == job.type && row.version == job.version &&
    row.leaseOwner == job.leaseOwner && row.leaseToken == job.leaseToken &&
    row.state == .running &&
    (!job.retained || row.leaseExpiresAt.any fun expires => expires > now)

/-- `!job.leaseToken` -/
def noLeaseToken (job : DurableJob) : Bool := job.leaseToken == none || job.leaseToken == some []

/-- `none` where the method returns without a statement. -/
def extendLease (job : DurableJob) (leaseMs : Int) (now : Time) : Option Update :=
  if noLeaseToken job then none
  else some
    { cond := heldWhere job now
      set := fun row => { row with leaseExpiresAt := some (now + leaseMs), updatedAt := now } }

def complete (job : DurableJob) (now : Time) : Option Update :=
  if noLeaseToken job then none
  else some
    { cond := heldWhere job now
      set := fun row => { row with
        state := .succeeded
        leaseOwner := none
        leaseToken := none
        leaseExpiresAt := none
        lastError := none
        completedAt := some now
        updatedAt := now } }

def deferred (job : DurableJob) (error : JobError) : Bool := job.retained && error.deferral.isSome

def contended (error : JobError) : Bool := error.deferral == some true

def terminal (job : DurableJob) (error : JobError) : Bool :=
  !deferred job error && job.attempts ≥ job.maxAttempts

/-- The delay of a failed job; `retryDelay` answers `none` for a number that is not finite. -/
def boundedDelay (job : DurableJob) (error : JobError) (retryDelay : Int → Option Int) :
    Option Int :=
  let delay := if terminal job error then some 0
    else if deferred job error && contended error then some 1000
    else retryDelay job.attempts
  if deferred job error then some (min 300000 (max 1000 (delay.getD 1000))) else delay

/-- `attempts` in the `SET` clause of `fail`. -/
def failAttempts (job : DurableJob) (error : JobError) (attempts : Int) : Int :=
  if deferred job error && contended error then
    max 0 (min job.attempts (job.attemptsBeforeClaim.getD (job.attempts - 1)))
  else attempts

def failRow (job : DurableJob) (error : JobError) (nextRunAt now : Time) (row : DurableJobRow) :
    DurableJobRow :=
  { row with
    state := if terminal job error then .failed else .pending
    attempts := failAttempts job error row.attempts
    leaseOwner := none
    leaseToken := none
    leaseExpiresAt := none
    lastError := some (error.message.take 8000)
    nextRunAt := nextRunAt
    completedAt := if terminal job error then some now else none
    updatedAt := now }

/-- An invalid `nextRunAt` makes the statement fail, which leaves the table as it is. -/
def fail (job : DurableJob) (error : JobError) (retryDelay : Int → Option Int) (now : Time) :
    Option Update :=
  if noLeaseToken job then none
  else
    let nextRunAt := if terminal job error then some job.nextRunAt
      else (boundedDelay job error retryDelay).map (now + ·)
    nextRunAt.map fun nextRunAt =>
      { cond := heldWhere job now, set := failRow job error nextRunAt now }

def cancel (id : Uuid) (now : Time) : Update where
  cond row := row.id == id && (row.state == .pending || row.state == .running) && !row.retained
  set row := { row with
    state := .cancelled
    leaseOwner := none
    leaseToken := none
    leaseExpiresAt := none
    completedAt := some now
    updatedAt := now }

def retry (id : Uuid) (now : Time) : Update where
  cond row := row.id == id && row.state == .failed
  set row := { row with
    state := .pending
    attempts := 0
    nextRunAt := now
    leaseToken := none
    lastError := none
    completedAt := none
    updatedAt := now }

end TsEpistle.Jobs
