import TsEpistle.Library.JsString
import TsEpistle.Library.Machine

/-! Attempts of federated logins (`server/repositories/federated-login.ts`). Every operation of
`FederatedLoginStore` is one transaction that holds the advisory lock of the table. -/

namespace TsEpistle.Federation
open Library

inductive FederatedLoginProtocol
  | oauth2 | oidc | openidconnect | cas | saml
  deriving DecidableEq

def ttl : Int := 10 * 60 * 1000
def sessionLimit : Nat := 8
def globalLimit : Nat := 10000
def pruneBatch : Nat := 256

structure FederatedLoginRow where
  id : JsString
  stateHash : List UInt8
  requestIdHash : Option (List UInt8)
  providerKey : JsString
  protocol : FederatedLoginProtocol
  (providerRevision sessionId : JsString)
  browserNonceHash : Option (List UInt8)
  (issuedAt expiresAt : Int)
  payload : JsString
  deriving DecidableEq

structure SessionRow where
  sid : JsString
  expired : Int

structure AuthenticationRow where
  (key adminRevision : JsString)
  isEnabled : Bool

structure Database where
  attempts : List FederatedLoginRow
  sessions : List SessionRow
  authentication : List AuthenticationRow

inductive Failure
  | invalid (message : JsString)
  | capacity (message : JsString)
  /-- A unique index of the table. -/
  | conflict

/-- What an attempt carries, and how it is written to its row and checked when it is read. -/
structure Env (P : Type) where
  serializePayload : FederatedLoginProtocol → P → Except Failure JsString
  parsePayload : FederatedLoginProtocol → JsString → Option P
  /-- `requestId`, where the written payload has one. -/
  requestId : JsString → Option JsString
  sha256 : JsString → List UInt8

structure FederatedLoginIssueInput (P : Type) where
  (sessionId providerKey : JsString)
  protocol : FederatedLoginProtocol
  providerRevision : JsString
  payload : P
  browserNonceHash : Option (List UInt8)
  issuedAt : Option Int

structure FederatedLoginIssueResult where
  (attemptId state : JsString)
  (issuedAt expiresAt : Int)

structure FederatedLoginConsumeInput where
  providerKey : JsString
  protocol : FederatedLoginProtocol
  providerRevision : JsString
  (state requestId sessionId : Option JsString)
  browserNonceHash : Option (List UInt8)

structure FederatedLoginConsumed (P : Type) where
  (attemptId providerKey : JsString)
  protocol : FederatedLoginProtocol
  (providerRevision sessionId : JsString)
  (issuedAt expiresAt : Int)
  payload : P

section
variable {P : Type} (env : Env P)

/-! ## Checks -/

def invalidText (name : String) : Failure := .invalid (js (name ++ " is invalid."))

def text (value : JsString) (name : String) (maximum : Nat) : Except Failure JsString :=
  if value.length = 0 ∨ maximum < value.length then .error (invalidText name) else .ok value

def digest (value : List UInt8) (name : String) : Except Failure (List UInt8) :=
  if value.length ≠ 32 then .error (invalidText name) else .ok value

/-- A value that may be absent. -/
def optional {α β : Type} (check : α → Except Failure β) : Option α → Except Failure (Option β)
  | none => .ok none
  | some value => (check value).map some

def isSessionLive (db : Database) (sessionId : JsString) (now : Int) : Bool :=
  db.sessions.any fun session => session.sid = sessionId && now < session.expired

def providerIsCurrent (db : Database) (providerKey providerRevision : JsString) : Bool :=
  db.authentication.any fun provider =>
    provider.key = providerKey && provider.adminRevision = providerRevision && provider.isEnabled

/-! ## `issue` -/

/-- The row of an attempt, before the transaction. -/
def issuedRow (input : FederatedLoginIssueInput P) (now : Int) (state attemptId : JsString) :
    Except Failure FederatedLoginRow := do
  let sessionId ← text input.sessionId "Federated login session ID" 255
  let providerKey ← text input.providerKey "Federated login provider key" 255
  let providerRevision ← text input.providerRevision "Federated login provider revision" 255
  let payload ← env.serializePayload input.protocol input.payload
  let browserNonceHash ← optional (digest · "Federated login browser nonce") input.browserNonceHash
  let issuedAt := input.issuedAt.getD now
  return {
    id := attemptId
    stateHash := env.sha256 state
    requestIdHash := (env.requestId payload).map env.sha256
    providerKey := providerKey
    protocol := input.protocol
    providerRevision := providerRevision
    sessionId := sessionId
    browserNonceHash := browserNonceHash
    issuedAt := issuedAt
    expiresAt := issuedAt + ttl
    payload := payload }

def FederatedLoginRow.slot (row : FederatedLoginRow) : JsString × FederatedLoginProtocol × JsString :=
  (row.providerKey, row.protocol, row.sessionId)

/-- Do the unique indexes of the table refuse the second row beside the first? -/
def conflicts (row new : FederatedLoginRow) : Bool :=
  row.id = new.id || row.stateHash = new.stateHash ||
    (row.requestIdHash.isSome && row.requestIdHash = new.requestIdHash) || row.slot = new.slot

/-- The rows that are left by `pruneExpired`, which deletes these ids, and by the delete after it. -/
def kept (row : FederatedLoginRow) (pruned : List JsString) (attempts : List FederatedLoginRow) :
    List FederatedLoginRow :=
  (attempts.filter fun stored => !pruned.contains stored.id).filter fun stored => stored.slot ≠ row.slot

def aliveOf (sessionId : JsString) (time : Int) (attempts : List FederatedLoginRow) : Nat :=
  attempts.countP fun row => row.sessionId = sessionId && time < row.expiresAt

def alive (time : Int) (attempts : List FederatedLoginRow) : Nat :=
  attempts.countP fun row => time < row.expiresAt

/-- The transaction. -/
def insertAttempt (db : Database) (row : FederatedLoginRow) (pruned : List JsString) :
    Except Failure (List FederatedLoginRow) :=
  if !providerIsCurrent db row.providerKey row.providerRevision then
    .error (.invalid (js "Federated login provider configuration is unavailable."))
  else
    let attempts := kept row pruned db.attempts
    if sessionLimit ≤ aliveOf row.sessionId row.issuedAt attempts then
      .error (.capacity (js "Federated login session capacity is exhausted."))
    else if globalLimit ≤ alive row.issuedAt attempts then
      .error (.capacity (js "Federated login capacity is exhausted."))
    else if attempts.any (conflicts · row) then .error .conflict
    else .ok (attempts ++ [row])

def issue (input : FederatedLoginIssueInput P) (now : Int) (state attemptId : JsString) (pruned : List JsString)
    (db : Database) : Except Failure (List FederatedLoginRow × FederatedLoginRow × FederatedLoginIssueResult) := do
  let row ← issuedRow env input now state attemptId
  let attempts ← insertAttempt db row pruned
  return (attempts, row, ⟨row.id, state, row.issuedAt, row.expiresAt⟩)

/-- Which ids `pruneExpired` may delete: those of the rows that expired first, and no more than a batch. -/
def Prunes (attempts : List FederatedLoginRow) (now : Int) (pruned : List JsString) : Prop :=
  ∃ batch rest : List FederatedLoginRow, (batch ++ rest).Perm (attempts.filter fun row => row.expiresAt ≤ now) ∧
    batch.length = min pruneBatch (batch ++ rest).length ∧
    (∀ row ∈ batch, ∀ other ∈ rest, row.expiresAt ≤ other.expiresAt) ∧ pruned = batch.map (·.id)

/-! ## `consume` -/

/-- What `consume` looks for. -/
structure Lookup where
  providerKey : JsString
  protocol : FederatedLoginProtocol
  providerRevision : JsString
  sessionId : Option JsString
  (stateHash requestIdHash browserNonceHash : Option (List UInt8))

/-- The checks before the transaction; without a state and a request there is nothing to look for. -/
def lookup (input : FederatedLoginConsumeInput) : Except Failure (Option Lookup) := do
  let providerKey ← text input.providerKey "Federated login provider key" 255
  let providerRevision ← text input.providerRevision "Federated login provider revision" 255
  let sessionId ← optional (text · "Federated login session ID" 255) input.sessionId
  let state ← optional (text · "Federated login state" 512) input.state
  let requestId ← optional (text · "Federated login request ID" 512) input.requestId
  if state.isNone && requestId.isNone then return none
  else
    let browserNonceHash ← optional (digest · "Federated login browser nonce") input.browserNonceHash
    return some ⟨providerKey, input.protocol, providerRevision, sessionId, state.map env.sha256,
      requestId.map env.sha256, browserNonceHash⟩

def Lookup.selects (lookup : Lookup) (row : FederatedLoginRow) : Bool :=
  row.providerKey = lookup.providerKey && row.protocol = lookup.protocol &&
    lookup.stateHash.all (· = row.stateHash) && lookup.requestIdHash.all (row.requestIdHash = some ·)

def Lookup.bindingMatches (lookup : Lookup) (row : FederatedLoginRow) : Bool :=
  let sessionMatches := lookup.sessionId = some row.sessionId
  match row.browserNonceHash with
  | none => sessionMatches
  | some hash => lookup.browserNonceHash = some hash && (lookup.sessionId.isNone || sessionMatches)

def deleteRow (row : FederatedLoginRow) (attempts : List FederatedLoginRow) : List FederatedLoginRow :=
  attempts.filter (·.id ≠ row.id)

/-- The answer for a row that was found and deleted. -/
def answer (lookup : Lookup) (row : FederatedLoginRow) (providerCurrent : Bool) (now : Int) :
    Option (FederatedLoginConsumed P) :=
  let rowStateMatches := lookup.stateHash.all (· = row.stateHash)
  let rowRequestIdMatches := lookup.requestIdHash.all (row.requestIdHash = some ·)
  let providerMatches := providerCurrent && row.providerRevision = lookup.providerRevision
  if !rowStateMatches || !rowRequestIdMatches || !providerMatches || row.expiresAt ≤ now then none
  else
    (env.parsePayload lookup.protocol row.payload).map fun payload =>
      ⟨row.id, row.providerKey, lookup.protocol, row.providerRevision, row.sessionId, row.issuedAt, row.expiresAt,
        payload⟩

/-- The transaction. -/
def consumeRow (lookup : Lookup) (now : Int) (db : Database) :
    List FederatedLoginRow × Option (FederatedLoginConsumed P) :=
  match db.attempts.find? lookup.selects with
  | none => (db.attempts, none)
  | some row =>
    if !lookup.bindingMatches row then (db.attempts, none)
    else if !isSessionLive db row.sessionId now then (deleteRow row db.attempts, none)
    else
      (deleteRow row db.attempts,
        answer env lookup row (providerIsCurrent db lookup.providerKey lookup.providerRevision) now)

def consume (input : FederatedLoginConsumeInput) (now : Int) (db : Database) :
    Except Failure (List FederatedLoginRow × Option (FederatedLoginConsumed P)) := do
  match ← lookup env input with
  | none => return (db.attempts, none)
  | some found => return consumeRow env found now db

def clearExpired (now : Int) (db : Database) : List FederatedLoginRow × Nat :=
  (db.attempts.filter fun row => now < row.expiresAt, db.attempts.countP fun row => row.expiresAt ≤ now)

/-! ## Runs -/

/-- One success of `consume`. -/
structure Consumption (P : Type) where
  input : FederatedLoginConsumeInput
  now : Int
  sessions : List SessionRow
  authentication : List AuthenticationRow
  answer : FederatedLoginConsumed P

/-- The database, and what has happened: the attempts that were issued and the answers that were given. -/
structure System (P : Type) where
  db : Database
  issued : List FederatedLoginRow
  consumed : List (Consumption P)

inductive Op (P : Type)
  | issue (input : FederatedLoginIssueInput P) (now : Int) (state attemptId : JsString) (pruned : List JsString)
  | consume (input : FederatedLoginConsumeInput) (now : Int)
  | clearExpired (now : Int)
  /-- Sessions and strategies change as they like. -/
  | configure (sessions : List SessionRow) (authentication : List AuthenticationRow)

/-- A new attempt has an id that was not used before (`randomUUID`). -/
def enabled : Op P → System P → Prop
  | .issue input now _ attemptId pruned, s =>
    attemptId ∉ s.issued.map (·.id) ∧ Prunes s.db.attempts (input.issuedAt.getD now) pruned
  | _, _ => True

def System.withAttempts (s : System P) (attempts : List FederatedLoginRow) : System P :=
  { s with db := { s.db with attempts } }

def exec (op : Op P) (s : System P) : System P :=
  match op with
  | .issue input now state attemptId pruned =>
    match issue env input now state attemptId pruned s.db with
    | .error _ => s
    | .ok (attempts, row, _) => { s.withAttempts attempts with issued := s.issued ++ [row] }
  | .consume input now =>
    match consume env input now s.db with
    | .error _ => s
    | .ok (attempts, none) => s.withAttempts attempts
    | .ok (attempts, some answer) =>
      { s.withAttempts attempts with
        consumed := s.consumed ++ [⟨input, now, s.db.sessions, s.db.authentication, answer⟩] }
  | .clearExpired now => s.withAttempts (clearExpired now s.db).1
  | .configure sessions authentication => { s with db := ⟨s.db.attempts, sessions, authentication⟩ }

def store : Machine (System P) (Op P) := ⟨enabled, exec env⟩

def System.start (db : Database) : System P := ⟨{ db with attempts := [] }, [], []⟩

/-- Reached from a database without attempts. -/
def Reachable (s : System P) : Prop := ∃ db, (store env).Reachable (.start db) s

end

end TsEpistle.Federation
