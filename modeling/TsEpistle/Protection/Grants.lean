import TsEpistle.Library.JsString
import TsEpistle.Library.Machine
import TsEpistle.Library.Table
import TsEpistle.Library.Checked

/-! Password protection of one page. Setting and removing the protection, deleting
and restoring the page are transactions that lock the protection row first;
`unlockPage` and `pageRequiresUnlock` run statement by statement between them. -/

namespace TsEpistle.Protection
open Library

/-- Milliseconds. -/
abbrev Time := Nat

def GRANT_LIFETIME_MS : Nat := 12 * 60 * 60 * 1000
def MAX_SAFE_INTEGER : Nat := 9007199254740991

structure ProtectionRow (Hash : Type) where
  passwordHash : Hash
  version : Nat
  updatedBy : Int
  updatedAt : Time
  deriving DecidableEq, Repr

structure UnlockGrant where
  sessionId : JsString
  userId : Option Int
  passwordVersion : Nat
  (createdAt expiresAt : Time)
  deriving DecidableEq, Repr

/-- The rows of one page. `recovery` is the protection that the security context of the
last deletion has kept. -/
structure Database (Hash : Type) where
  page : Bool
  protection : Option (ProtectionRow Hash)
  grants : List UnlockGrant
  recovery : Option (Option (ProtectionRow Hash))
  deriving DecidableEq, Repr

inductive Failure where
  | authRequired
  | invalidPassword
  | sessionRequired
  | pageNotFound
  | pageLocked
  | pageRecoveryConflict
  | foreignKey
  | unique
  deriving DecidableEq, Repr

/-- `email` is only asked for being `api@localhost`. -/
structure Requester where
  principalId : Option Int
  (apiEmail managesSystem : Bool)
  deriving DecidableEq, Repr

def authenticatedId (requester : Requester) : Except Failure Int :=
  match requester.principalId with
  | none => .error .authRequired
  | some id => if id = 2 ∨ requester.apiEmail then .error .authRequired else .ok id

/-- What a grant made now says. -/
def UnlockGrant.make (sessionId : JsString) (userId : Option Int) (passwordVersion : Nat)
    (now : Time) : UnlockGrant :=
  ⟨sessionId, userId, passwordVersion, now, now + GRANT_LIFETIME_MS⟩

namespace Database
variable {Hash : Type} (db : Database Hash)

def insertGrant (grant : UnlockGrant) : Except Failure (Database Hash) :=
  if db.protection.isNone then .error .foreignKey
  else if db.grants.any fun other => other.sessionId = grant.sessionId then .error .unique
  else .ok { db with grants := db.grants ++ [grant] }

/-- The delete of the protection row, which cascades to its grants. -/
def deleteProtection : Database Hash :=
  { db with protection := none, grants := if db.protection.isSome then [] else db.grants }

end Database

structure SetInput (Hash : Type) where
  requester : Requester
  (password sessionId : JsString)
  /-- What `bcrypt.hash` answered. -/
  passwordHash : Hash
  /-- The clock reading after it. -/
  now : Time
  canWrite : Bool
  deriving DecidableEq, Repr

def check (condition : Bool) (failure : Failure) : Except Failure Unit :=
  if condition then .ok () else .error failure

variable {Hash : Type}

def setPageProtection (db : Database Hash) (input : SetInput Hash) :
    Except Failure (ProtectionRow Hash × Database Hash) := do
  let userId ← authenticatedId input.requester
  check (12 ≤ input.password.length ∧ input.password.length ≤ 1024) .invalidPassword
  check (input.sessionId ≠ []) .sessionRequired
  check (db.page && input.canWrite) .pageNotFound
  let version := (db.protection.elim 0 (·.version)) + 1
  let row : ProtectionRow Hash := ⟨input.passwordHash, version, userId, input.now⟩
  let grants := if db.protection.isSome then [] else db.grants
  let db ← { db with protection := some row, grants }.insertGrant
    (.make input.sessionId (some userId) version input.now)
  return (row, db)

def removePageProtection (db : Database Hash) (canWrite : Bool) :
    Except Failure (Database Hash) := do
  check (db.page && canWrite) .pageNotFound
  return db.deleteProtection

/-- `DeletedPageRecoverySecurityContextSchema` takes positive safe versions only. -/
def deletePage (db : Database Hash) (canDelete : Bool) : Except Failure (Database Hash) := do
  check (db.page && canDelete) .pageNotFound
  check (db.protection.all fun row => 0 < row.version ∧ row.version ≤ MAX_SAFE_INTEGER)
    .pageRecoveryConflict
  return { db.deleteProtection with page := false, recovery := some db.protection }

structure RestoreInput where
  recoveringAdminId : Int
  legacyQuarantine : Bool
  /-- Whether the checks pass that do not concern the protection. -/
  recoverable : Bool
  now : Time
  deriving DecidableEq, Repr

/-- The protection that the page comes back with, at its former version. -/
def recoveredProtection (db : Database Hash) (legacyQuarantine : Bool) :
    Except Failure (Option (ProtectionRow Hash)) :=
  match legacyQuarantine, db.recovery with
  | true, none => .ok none
  | true, some _ | false, none => .error .pageRecoveryConflict
  | false, some protection => .ok protection

def restoreDeletedPage (db : Database Hash) (input : RestoreInput) :
    Except Failure (Database Hash) := do
  check (!db.page && input.recoverable) .pageRecoveryConflict
  let protection ← recoveredProtection db input.legacyQuarantine
  check (protection.all fun row => row.version < MAX_SAFE_INTEGER) .pageRecoveryConflict
  return { db with
    page := true
    grants := []
    protection := protection.map fun row =>
      ⟨row.passwordHash, row.version + 1, input.recoveringAdminId, input.now⟩ }

/-! ## Calls that take several statements -/

inductive UnlockStage (Hash : Type) where
  | reading
  | comparing (protection : Option (ProtectionRow Hash))
  | deleting (version : Nat) (now : Time)
  | inserting (version : Nat) (now : Time)
  | ended (result : Except Failure Unit)
  deriving Repr

structure Unlock (Hash : Type) where
  id : Nat
  userId : Option Int
  (sessionId password : JsString)
  stage : UnlockStage Hash
  deriving Repr

/-- `answered` keeps the clock reading of the check, the time of the answer, and the
protection that was in force then. -/
inductive CheckStage (Hash : Type) where
  | reading
  | cleaning (version : Nat) (now : Time)
  | finding (version : Nat) (now : Time)
  | answered (requiresUnlock : Bool) (now time : Time) (inForce : Option (ProtectionRow Hash))
  deriving DecidableEq, Repr

structure Check (Hash : Type) where
  id : Nat
  requester : Requester
  sessionId : JsString
  readOnly : Bool
  stage : CheckStage Hash
  deriving DecidableEq, Repr

/-- What users have done: set the row, or supplied the password. -/
inductive Event (Hash : Type) where
  | set (userId : Option Int) (sessionId : JsString) (row : ProtectionRow Hash) (time : Time)
  | supplied (userId : Option Int) (sessionId : JsString) (password : JsString) (time : Time)
  deriving DecidableEq, Repr

structure State (Hash : Type) where
  clock : Time
  db : Database Hash
  unlocks : List (Unlock Hash)
  checks : List (Check Hash)
  events : List (Event Hash)
  deriving Repr

namespace State

/-- A page that nobody has unlocked yet. -/
def initial (clock : Time) (page : Bool) (protection : Option (ProtectionRow Hash))
    (recovery : Option (Option (ProtectionRow Hash))) : State Hash :=
  ⟨clock, ⟨page, protection, [], recovery⟩, [], [], []⟩

variable (s : State Hash)

def unlock (id : Nat) : Option (Unlock Hash) := Table.get Unlock.id s.unlocks id

def check (id : Nat) : Option (Check Hash) := Table.get Check.id s.checks id

def putUnlock (call : Unlock Hash) (stage : UnlockStage Hash) : State Hash :=
  { s with unlocks := Table.replace Unlock.id { call with stage } s.unlocks }

def putCheck (call : Check Hash) (stage : CheckStage Hash) : State Hash :=
  { s with checks := Table.replace Check.id { call with stage } s.checks }

def commit (result : Except Failure (Database Hash)) : State Hash :=
  match result with
  | .error _ => s
  | .ok db => { s with db }

end State

/-- `compare` is `bcrypt.compare`. -/
structure Bcrypt (Hash : Type) where
  compare : JsString → Hash → Bool
  FAKE_PASSWORD_HASH : Hash

/-- The next part of `unlockPage`. `canRead`: the page is there, and the requester may read it. -/
def unlockStep (bcrypt : Bcrypt Hash) (s : State Hash) (call : Unlock Hash) (canRead : Bool) :
    State Hash :=
  match call.stage with
  | .reading => s.putUnlock call (.comparing s.db.protection)
  | .comparing protection =>
    let valid := bcrypt.compare call.password
      ((protection.map (·.passwordHash)).getD bcrypt.FAKE_PASSWORD_HASH)
    let s := { s with
      events := .supplied call.userId call.sessionId call.password s.clock :: s.events }
    match protection with
    | none => s.putUnlock call (.ended (.error .pageLocked))
    | some protection =>
      if !valid || !canRead then s.putUnlock call (.ended (.error .pageLocked))
      else s.putUnlock call (.deleting protection.version s.clock)
  | .deleting version now =>
    { s with db.grants := s.db.grants.filter fun grant => grant.sessionId ≠ call.sessionId
      }.putUnlock call (.inserting version now)
  | .inserting version now =>
    match s.db.insertGrant (.make call.sessionId call.userId version now) with
    | .error failure => s.putUnlock call (.ended (.error failure))
    | .ok db => { s with db }.putUnlock call (.ended (.ok ()))
  | .ended _ => s

/-- The next part of `pageRequiresUnlock`. -/
def checkStep (s : State Hash) (call : Check Hash) : State Hash :=
  match call.stage with
  | .reading =>
    if call.requester.managesSystem then
      s.putCheck call (.answered false s.clock s.clock s.db.protection)
    else
      match s.db.protection with
      | none => s.putCheck call (.answered false s.clock s.clock none)
      | some protection => s.putCheck call (.cleaning protection.version s.clock)
  | .cleaning version now =>
    let grants := if call.readOnly then s.db.grants
      else s.db.grants.filter fun grant =>
        !(grant.sessionId = call.sessionId && decide (grant.expiresAt ≤ now))
    let s := { s with db.grants := grants }
    if call.sessionId = [] then
      s.putCheck call (.answered true now s.clock s.db.protection)
    else s.putCheck call (.finding version now)
  | .finding version now =>
    let grant := s.db.grants.find? fun grant =>
      grant.sessionId = call.sessionId && grant.userId = call.requester.principalId
        && grant.passwordVersion = version && decide (now < grant.expiresAt)
    s.putCheck call (.answered grant.isNone now s.clock s.db.protection)
  | .answered .. => s

inductive Op (Hash : Type) where
  | setPageProtection (input : SetInput Hash)
  | removePageProtection (canWrite : Bool)
  | deletePage (canDelete : Bool)
  | restoreDeletedPage (input : RestoreInput)
  | unlockPage (id : Nat) (userId : Option Int) (sessionId password : JsString)
  | unlockStep (id : Nat) (canRead : Bool)
  | pageRequiresUnlock (id : Nat) (requester : Requester) (sessionId : JsString) (readOnly : Bool)
  | checkStep (id : Nat)
  | tick (ms : Nat)
  deriving Repr

/-- A clock reading may be old when its transaction runs. -/
def enabled (bcrypt : Bcrypt Hash) (op : Op Hash) (s : State Hash) : Prop :=
  match op with
  | .setPageProtection input =>
    input.now ≤ s.clock ∧ bcrypt.compare input.password input.passwordHash = true
  | .restoreDeletedPage input => input.now ≤ s.clock
  | .unlockPage id _ sessionId _ => (s.unlock id).isNone ∧ sessionId ≠ []
  | .unlockStep id _ => (s.unlock id).isSome
  | .pageRequiresUnlock id .. => (s.check id).isNone
  | .checkStep id => (s.check id).isSome
  | .removePageProtection _ | .deletePage _ | .tick _ => True

def exec (bcrypt : Bcrypt Hash) (op : Op Hash) (s : State Hash) : State Hash :=
  match op with
  | .setPageProtection input =>
    match setPageProtection s.db input with
    | .error _ => s
    | .ok (row, db) =>
      { s with
        db
        events := .set input.requester.principalId input.sessionId row input.now :: s.events }
  | .removePageProtection canWrite => s.commit (removePageProtection s.db canWrite)
  | .deletePage canDelete => s.commit (deletePage s.db canDelete)
  | .restoreDeletedPage input => s.commit (restoreDeletedPage s.db input)
  | .unlockPage id userId sessionId password =>
    { s with unlocks := s.unlocks ++ [⟨id, userId, sessionId, password, .reading⟩] }
  | .unlockStep id canRead => (s.unlock id).elim s fun call => unlockStep bcrypt s call canRead
  | .pageRequiresUnlock id requester sessionId readOnly =>
    { s with checks := s.checks ++ [⟨id, requester, sessionId, readOnly, .reading⟩] }
  | .checkStep id => (s.check id).elim s fun call => checkStep s call
  | .tick ms => { s with clock := s.clock + ms }

def protection (bcrypt : Bcrypt Hash) : Machine (State Hash) (Op Hash) :=
  ⟨enabled bcrypt, exec bcrypt⟩

instance (bcrypt : Bcrypt Hash) (op : Op Hash) (s : State Hash) :
    Decidable ((protection bcrypt).enabled op s) :=
  match op with
  | .setPageProtection input => inferInstanceAs (Decidable (input.now ≤ s.clock
      ∧ bcrypt.compare input.password input.passwordHash = true))
  | .restoreDeletedPage input => inferInstanceAs (Decidable (input.now ≤ s.clock))
  | .unlockPage id _ sessionId _ =>
    inferInstanceAs (Decidable ((s.unlock id).isNone ∧ sessionId ≠ []))
  | .unlockStep id _ => inferInstanceAs (Decidable ((s.unlock id).isSome))
  | .pageRequiresUnlock id .. => inferInstanceAs (Decidable ((s.check id).isNone))
  | .checkStep id => inferInstanceAs (Decidable ((s.check id).isSome))
  | .removePageProtection _ | .deletePage _ | .tick _ => .isTrue trivial

end TsEpistle.Protection
