import TsEpistle.Groups.Policy

/-! The group administration store (`server/operations/group-administration.ts`): every call is
one transaction that locks the groups first. -/

namespace TsEpistle.Groups
open Library Access

structure Row where
  id : Int
  (name description redirectOnLogin : JsString)
  permissions : List JsString
  pageRules : List AccessRule
  isSystem : Bool
  adminRevision : JsString
  updatedAt : Nat
  deriving DecidableEq, Repr

structure Account where
  id : Int
  isActive : Bool
  authVersion : Nat
  isSystem : Bool
  adminRevision : JsString
  sessionsRevokedAt : Option Nat
  deriving DecidableEq, Repr

structure Membership where
  (userId groupId : Int)
  deriving DecidableEq, Repr

/-- Each table in the order of its keys. -/
structure Database where
  groups : List Row
  users : List Account
  userGroups : List Membership
  deriving DecidableEq, Repr

/-- A principal; a key of its own is `some`, and `some none` an own `null`. -/
structure Requester where
  id : Option Int
  ownershipUserId : Option (Option Int)
  authVersion : Option Int
  groups : Option (List Int)
  deriving DecidableEq, Repr

/-- `permissions` is used as a set. -/
structure Actor where
  id : Option Int
  permissions : List JsString
  deriving DecidableEq, Repr

def Database.membersOf (db : Database) (groupId : Int) : List Int :=
  (db.userGroups.filter (·.groupId = groupId)).map Membership.userId

/-- The groups of an account. -/
def Database.groupsOf (db : Database) (userId : Int) : List Row :=
  db.groups.filter fun g => db.userGroups.contains ⟨userId, g.id⟩

def Database.permissionsOf (db : Database) (userId : Int) : List JsString :=
  (db.groupsOf userId).flatMap Row.permissions

/-! ## Authority -/

def principalId (user : Requester) : Option Int :=
  match user.ownershipUserId with
  | some ownership => ownership.filter (0 < ·)
  | none => user.id.filter fun id => 0 < id ∧ id ≠ 2

/-- A missing version is the session generation from before the migration. -/
def sessionVersion (value : Option Int) : Option Int :=
  (some (value.getD 0)).filter fun version => 0 ≤ version ∧ version ≤ 2147483647

def accountSessionIsCurrent (id : Int) (authVersion : Option Int) (account : Option Account) :
    Bool :=
  account.any fun account => 1 ≤ id && id ≠ 2 && id = account.id && account.isActive
    && (sessionVersion authVersion).isSome
    && sessionVersion authVersion = sessionVersion (some account.authVersion)

/-- What the account, or the group of an API key, may do. -/
def heldPermissions (db : Database) (user : Requester) :
    Except ApplicationError (List JsString) :=
  match principalId user with
  | some id => do
      check (accountSessionIsCurrent id user.authVersion (Table.get Account.id db.users id))
        "Your account session changed. Sign in again." 403
      return db.permissionsOf id
  | none =>
    match user.ownershipUserId, user.id, user.groups with
    | some none, some 1, some [groupId] =>
      .ok (((Table.get Row.id db.groups groupId).map Row.permissions).getD [])
    | _, _, _ => fail "An administrator principal is required." 403

def administers (permissions : List JsString) (membersOnly : Bool) : Bool :=
  permissions.any fun p => p = js "write:groups" || p = js "manage:groups"
    || p = js "manage:system" || (membersOnly && p = js "manage:users")

def authority (db : Database) (requester : Option Requester) (membersOnly : Bool) :
    Except ApplicationError Actor :=
  match requester with
  | none => fail "An administrator sign-in is required." 403
  | some user => do
      let permissions ← heldPermissions db user
      check (administers permissions membersOnly) "Group administration permission is required." 403
      return ⟨principalId user, permissions⟩

def Actor.system (actor : Actor) : Bool := actor.permissions.contains (js "manage:system")

structure Capabilities where
  (edit members delete rename permissions : Bool)
  deriving DecidableEq, Repr

/-- A group that only a system administrator may change. -/
def Row.guarded (row : Row) : Bool := row.isSystem || row.id ≤ 2

def capabilities (row : Row) (actor : Actor) : Capabilities :=
  let inScope := groupAuthorityAllows actor.permissions row.permissions
  let edit := inScope && administers actor.permissions false && (!row.guarded || actor.system)
  { edit
    members := inScope && (!row.guarded || actor.system)
    delete := edit && 2 < row.id && !row.isSystem
    rename := edit && 2 < row.id && !row.isSystem
    permissions := edit && row.id ≠ 1 }

/-! ## Reviewed versions -/

structure Fingerprint where
  row : Row
  members : List (Int × Nat × JsString)
  groups : List (Int × JsString × List JsString × Bool)
  deriving DecidableEq, Repr

def Database.fingerprint (db : Database) (row : Row) : Fingerprint where
  row := row
  members := (db.users.filter fun u => db.userGroups.contains ⟨u.id, row.id⟩).map fun u =>
    (u.id, u.authVersion, u.adminRevision)
  groups := db.groups.map fun g => (g.id, g.adminRevision, g.permissions, g.isSystem)

abbrev CreationOptions := List (Int × JsString × List JsString)

def Database.creationOptions (db : Database) : CreationOptions :=
  db.groups.map fun g => (g.id, g.adminRevision, g.permissions)

abbrev Around (η : Type) := Surroundings Fingerprint CreationOptions η

variable {η : Type} [DecidableEq η] (around : Around η)

def idValue (value : Int) : Except ApplicationError Int := do
  check (0 < value && value ≤ 2147483647) "Choose a valid group or account." 400
  return value

/-! ## Changes of one group -/

structure MutateInput (η : Type) where
  reason : JsString
  fingerprint : Option η
  userIds : Option (List Int)
  deriving DecidableEq, Repr

/-- The tables after the operation, and the accounts whose sessions it ends. -/
structure Outcome where
  db : Database
  ended : List Int
  deleted : Bool
  deriving DecidableEq, Repr

structure GroupWriteResult where
  id : Int
  ended : List Int
  currentSessionEnded : Bool
  deriving DecidableEq, Repr

def Row.revised (row : Row) (revision : JsString) (now : Nat) : Row :=
  { row with adminRevision := revision, updatedAt := now }

/-- An account whose sessions have been ended. -/
def Account.ended (account : Account) (revision : JsString) (now : Nat) : Account :=
  { account with
    authVersion := account.authVersion + 1
    sessionsRevokedAt := some now
    adminRevision := revision }

def Outcome.commit (result : Outcome) (id : Int) (revision : JsString) (now : Nat) : Database :=
  { result.db with
    groups := if result.deleted then result.db.groups
      else Table.updateWhere (fun g : Row => g.id = id) (·.revised revision now) result.db.groups
    users := Table.updateWhere (fun u : Account => result.ended.contains u.id)
      (·.ended revision now) result.db.users }

/-- `revision` is the random UUID. -/
def mutate (db : Database) (requester : Option Requester) (id : Int) (input : MutateInput η)
    (now : Nat) (revision : JsString)
    (operation : Row → Actor → List Int → Except ApplicationError Outcome) :
    Except ApplicationError (Database × GroupWriteResult) := do
  let _ ← idValue id
  let _ ← textValue input.reason "Administrative reason" 3 1000
  match input.fingerprint with
  | none => fail "Load the saved group before reviewing changes." 400
  | some fingerprint =>
    match Table.get Row.id db.groups id with
    | none => fail "This group no longer exists." 404
    | some row => do
        let extra ← (input.userIds.getD []).mapM idValue
        check (extra.length ≤ 100) "Change at most 100 memberships at a time." 400
        let actor ← authority db requester true
        check (fingerprint = around.hash (db.fingerprint row))
          "This group or its membership changed. Reload before saving." 409
        let result ← operation row actor (db.membersOf id)
        return (result.commit id revision now, ⟨id, result.ended, actor.id.any (result.ended.contains ·)⟩)

def sortedRule (rule : AccessRule) : AccessRule :=
  { rule with roles := sorted rule.roles, locales := some (sorted (rule.locales.getD [])) }

def Row.withPolicy (row : Row) (policy : GroupPolicyDraft) : Row :=
  { row with
    name := policy.name
    description := policy.description
    redirectOnLogin := policy.redirectOnLogin
    permissions := policy.permissions
    pageRules := policy.pageRules }

def nameTaken (db : Database) (id : Option Int) (name : JsString) : Bool :=
  db.groups.any fun g => id ≠ some g.id && around.lower g.name = around.lower name

def saveOperation (db : Database) (id : Int) (input : PolicyInput) (row : Row) (actor : Actor)
    (members : List Int) : Except ApplicationError Outcome := do
  let policy ← normalizeGroupPolicy around input row.permissions
  let allowed := capabilities row actor
  check (allowed.edit && groupAuthorityAllows actor.permissions policy.permissions)
    "You cannot change this group’s policy." 403
  check (allowed.rename || policy.name = row.name) "This group’s name is protected." 403
  check (allowed.permissions || policy.permissions = sorted row.permissions)
    "The Administrators group permissions are protected." 403
  check (!nameTaken around db (some id) policy.name) "A group with this name already exists." 409
  let authorityChanged : Bool := policy.permissions ≠ sorted row.permissions
    || policy.pageRules ≠ row.pageRules.map sortedRule
  check (policy.name ≠ row.name || policy.description ≠ row.description
    || policy.redirectOnLogin ≠ row.redirectOnLogin || authorityChanged)
    "There are no policy changes to save." 400
  return {
    db := { db with
      groups := Table.updateWhere (fun g : Row => g.id = id) (·.withPolicy policy) db.groups }
    ended := if authorityChanged then members else []
    deleted := false }

def savePolicy (db : Database) (requester : Option Requester) (id : Int) (input : MutateInput η)
    (policy : PolicyInput) (now : Nat) (revision : JsString) :
    Except ApplicationError (Database × GroupWriteResult) :=
  mutate around db requester id input now revision (saveOperation around db id policy)

inductive MembershipAction where
  | add
  | remove
  deriving DecidableEq, Repr

/-- The memberships after some accounts have been added to a group or removed from it. -/
def changedMembers (userGroups : List Membership) (id : Int) (ids : List Int) :
    MembershipAction → List Membership
  | .add => userGroups ++ ids.map fun userId => ⟨userId, id⟩
  | .remove => userGroups.filter fun m => !(m.groupId = id && ids.contains m.userId)

def membersOperation (db : Database) (id : Int) (action : MembershipAction) (ids : List Int)
    (row : Row) (actor : Actor) (members : List Int) : Except ApplicationError Outcome := do
  check (capabilities row actor).members "You cannot change this group’s membership." 403
  check (!(ids.contains 2 || actor.id.any (ids.contains ·)
      || (action = .remove && id = 1 && ids.contains 1)))
    "Guest, your own membership and the primary administrator membership are protected." 403
  let users := db.users.filter fun u => ids.contains u.id
  check (users.length = ids.length) "One or more accounts no longer exist." 409
  check (users.all fun user => (!(user.isSystem || user.id = 1) || actor.system)
      && groupAuthorityAllows actor.permissions (db.permissionsOf user.id))
    "One or more accounts have authority outside your administrative scope." 403
  check (ids.all fun userId => members.contains userId = (action = .remove))
    "Membership changed. Reload the group before continuing." 409
  return {
    db := { db with userGroups := changedMembers db.userGroups id ids action }
    ended := ids
    deleted := false }

/-- `action` is `none` for anything but the two actions. -/
def changeMembers (db : Database) (requester : Option Requester) (id : Int) (input : MutateInput η)
    (action : Option MembershipAction) (now : Nat) (revision : JsString) :
    Except ApplicationError (Database × GroupWriteResult) :=
  match action, input.userIds with
  | some action, some userIds => do
      check (!userIds.isEmpty && userIds.length ≤ 100 && decide userIds.Nodup)
        "Choose 1–100 unique accounts and a membership action." 400
      let ids ← userIds.mapM idValue
      mutate around db requester id input now revision (membersOperation db id action ids)
  | _, _ => fail "Choose 1–100 unique accounts and a membership action." 400

/-- `inUse` tells whether credentials, enrollment, navigation or agent grants name the group. -/
def removeOperation (db : Database) (id : Int) (inUse : Bool) (row : Row) (actor : Actor)
    (members : List Int) : Except ApplicationError Outcome := do
  check (capabilities row actor).delete "This group cannot be deleted." 403
  check (!inUse) "Resolve this group’s active credentials, enrollment, navigation and agent grants before deleting it." 409
  return {
    db := { db with
      groups := db.groups.filter (·.id ≠ id)
      userGroups := db.userGroups.filter (·.groupId ≠ id) }
    ended := members
    deleted := true }

def remove (db : Database) (requester : Option Requester) (id : Int) (input : MutateInput η)
    (inUse : Bool) (now : Nat) (revision : JsString) :
    Except ApplicationError (Database × GroupWriteResult) :=
  mutate around db requester id input now revision (removeOperation db id inUse)

/-! ## Creation -/

structure CreateInput (η : Type) where
  policy : PolicyInput
  reason : JsString
  fingerprint : Option η
  deriving DecidableEq, Repr

def newRow (policy : GroupPolicyDraft) (id : Int) (now : Nat) (revision : JsString) : Row where
  id := id
  name := policy.name
  description := policy.description
  redirectOnLogin := policy.redirectOnLogin
  permissions := policy.permissions
  pageRules := policy.pageRules
  isSystem := false
  adminRevision := revision
  updatedAt := now

/-- `id` is the next of the sequence. -/
def create (db : Database) (requester : Option Requester) (input : CreateInput η) (id : Int)
    (now : Nat) (revision : JsString) : Except ApplicationError (Database × GroupWriteResult) := do
  let policy ← normalizeGroupPolicy around input.policy []
  let _ ← textValue input.reason "Administrative reason" 3 1000
  let actor ← authority db requester false
  check (input.fingerprint = some (around.createHash db.creationOptions))
    "Group creation policy changed. Reload creation options." 409
  check (groupAuthorityAllows actor.permissions policy.permissions)
    "The proposed permissions exceed your authority." 403
  check (!nameTaken around db none policy.name) "A group with this name already exists." 409
  return ({ db with groups := db.groups ++ [newRow policy id now revision] }, ⟨id, [], false⟩)

end TsEpistle.Groups
