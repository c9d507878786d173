import TsEpistle.Groups.Administration

/-! The machine of group administration, one transaction at a time, and what each call has
checked and written when it commits. -/

namespace TsEpistle.Groups
open Library Checked Access List

inductive Op (η : Type) where
  | create (requester : Option Requester) (input : CreateInput η) (id : Int) (now : Nat)
      (revision : JsString)
  | savePolicy (requester : Option Requester) (id : Int) (input : MutateInput η)
      (policy : PolicyInput) (now : Nat) (revision : JsString)
  | changeMembers (requester : Option Requester) (id : Int) (input : MutateInput η)
      (action : Option MembershipAction) (now : Nat) (revision : JsString)
  | remove (requester : Option Requester) (id : Int) (input : MutateInput η) (inUse : Bool)
      (now : Nat) (revision : JsString)
  deriving DecidableEq, Repr

namespace Op
variable {η : Type}

def requester : Op η → Option Requester
  | .create requester .. => requester
  | .savePolicy requester .. => requester
  | .changeMembers requester .. => requester
  | .remove requester .. => requester

def revision : Op η → JsString
  | .create _ _ _ _ revision => revision
  | .savePolicy _ _ _ _ _ revision => revision
  | .changeMembers _ _ _ _ _ revision => revision
  | .remove _ _ _ _ _ revision => revision

/-- The group that is changed, and the version of it that has been reviewed. -/
def reviewed : Op η → Option (Int × Option η)
  | .create .. => none
  | .savePolicy _ id input .. => some (id, input.fingerprint)
  | .changeMembers _ id input .. => some (id, input.fingerprint)
  | .remove _ id input .. => some (id, input.fingerprint)

/-- The id that a new group gets. -/
def created : Op η → Option Int
  | .create _ _ id _ _ => some id
  | _ => none

/-- Who makes the call, by the tables it finds. -/
def actor (op : Op η) (db : Database) : Except ApplicationError Actor :=
  authority db op.requester op.created.isNone

end Op

variable {η : Type} [DecidableEq η] (around : Around η)

def Op.run (op : Op η) (db : Database) : Except ApplicationError (Database × GroupWriteResult) :=
  match op with
  | .create requester input id now revision => Groups.create around db requester input id now revision
  | .savePolicy requester id input policy now revision =>
    Groups.savePolicy around db requester id input policy now revision
  | .changeMembers requester id input action now revision =>
    Groups.changeMembers around db requester id input action now revision
  | .remove requester id input inUse now revision =>
    Groups.remove around db requester id input inUse now revision

/-- `serial` is the last id of the sequence, `issued` the revisions that exist, and `committed`
the reviewed versions of the calls that have been committed. -/
structure State (η : Type) where
  db : Database
  serial : Int
  issued : List JsString
  committed : List (Int × Option η)
  deriving DecidableEq, Repr

/-- Random revisions do not repeat, and neither do the numbers of a sequence. -/
def enabled (op : Op η) (s : State η) : Prop :=
  op.revision ∉ s.issued ∧ ∀ id ∈ op.created, s.serial < id

instance (op : Op η) (s : State η) : Decidable (enabled op s) :=
  inferInstanceAs (Decidable (_ ∧ _))

def exec (op : Op η) (s : State η) : State η :=
  match op.run around s.db with
  | .ok (db, _) =>
    { db
      serial := op.created.getD s.serial
      issued := op.revision :: s.issued
      committed := op.reviewed.toList ++ s.committed }
  | .error _ => s

def machine : Machine (State η) (Op η) where
  enabled := enabled
  exec := exec around

instance (op : Op η) (s : State η) : Decidable ((machine around).enabled op s) :=
  inferInstanceAs (Decidable (enabled op s))

/-! ## Calls that commit -/

variable {around} {db db' : Database} {op : Op η} {actor : Actor}

/-- The accounts after the sessions of some have been ended. -/
def endSessions (ended : List Int) (revision : JsString) (now : Nat) (users : List Account) :
    List Account :=
  Table.updateWhere (fun u : Account => ended.contains u.id) (·.ended revision now) users

/-- Whether a policy has other permissions or rules than the group. -/
def authorityChanged (row : Row) (policy : GroupPolicyDraft) : Bool :=
  policy.permissions ≠ sorted row.permissions || policy.pageRules ≠ row.pageRules.map sortedRule

/-- What a call has found and written when it commits. -/
inductive Changed (around : Around η) (db : Database) : Op η → Actor → Database → Prop
  | created (requester : Option Requester) (input : CreateInput η) (id : Int) (now : Nat)
      (revision : JsString) (actor : Actor) (policy : GroupPolicyDraft) :
      Changed around db (.create requester input id now revision) actor
        { db with groups := db.groups ++ [newRow policy id now revision] }
  | saved (requester : Option Requester) (input : MutateInput η) (value : PolicyInput) (now : Nat)
      (revision : JsString) (actor : Actor) (row : Row) (policy : GroupPolicyDraft)
      (hrow : row ∈ db.groups)
      (hpolicy : normalizeGroupPolicy around value row.permissions = .ok policy)
      (hscope : groupAuthorityAllows actor.permissions row.permissions = true)
      (hallows : groupAuthorityAllows actor.permissions policy.permissions = true)
      (hname : (2 < row.id ∧ row.isSystem = false) ∨ policy.name = row.name)
      (hpermissions : row.id ≠ 1 ∨ policy.permissions = sorted row.permissions) :
      Changed around db (.savePolicy requester row.id input value now revision) actor
        { db with
          groups := Table.replace Row.id ((row.withPolicy policy).revised revision now) db.groups
          users := endSessions
            (if authorityChanged row policy then db.membersOf row.id else []) revision now db.users }
  | membersChanged (requester : Option Requester) (input : MutateInput η) (action : MembershipAction)
      (now : Nat) (revision : JsString) (actor : Actor) (row : Row) (ids : List Int)
      (userGroups : List Membership) (hrow : row ∈ db.groups)
      (hscope : groupAuthorityAllows actor.permissions row.permissions = true)
      (hguest : 2 ∉ ids) (hself : ∀ id ∈ actor.id, id ∉ ids)
      (hprimary : action = .remove → row.id = 1 → 1 ∉ ids)
      (husers : ∀ u ∈ db.users, u.id ∈ ids → groupAuthorityAllows actor.permissions (db.permissionsOf u.id) = true)
      (hids : ∀ id ∈ ids, id ∈ db.users.map Account.id)
      (hmembers : ∀ m : Membership, m.groupId ≠ row.id ∨ m.userId ∉ ids → (m ∈ userGroups ↔ m ∈ db.userGroups))
      (hadded : action = .add → ∀ m ∈ db.userGroups, m ∈ userGroups) :
      Changed around db (.changeMembers requester row.id input (some action) now revision) actor
        { groups := Table.replace Row.id (row.revised revision now) db.groups
          users := endSessions ids revision now db.users
          userGroups }
  | removed (requester : Option Requester) (input : MutateInput η) (now : Nat) (revision : JsString)
      (actor : Actor) (row : Row) (hrow : row ∈ db.groups)
      (hscope : groupAuthorityAllows actor.permissions row.permissions = true)
      (hplain : 2 < row.id ∧ row.isSystem = false) :
      Changed around db (.remove requester row.id input false now revision) actor
        { groups := db.groups.filter (·.id ≠ row.id)
          users := endSessions (db.membersOf row.id) revision now db.users
          userGroups := db.userGroups.filter (·.groupId ≠ row.id) }

theorem mutate_ok {requester : Option Requester} {id : Int} {input : MutateInput η} {now : Nat} {revision : JsString}
    {operation : Row → Actor → List Int → Except ApplicationError Outcome} {answer : GroupWriteResult}
    (h : mutate around db requester id input now revision operation = .ok (db', answer)) : ∃ row actor result,
    row ∈ db.groups ∧ row.id = id ∧ authority db requester true = .ok actor ∧
    input.fingerprint = some (around.hash (db.fingerprint row)) ∧ operation row actor (db.membersOf id) = .ok result ∧
    db' = result.commit id revision now := by
  obtain ⟨_, -, h⟩ := bind_ok h
  obtain ⟨_, -, h⟩ := bind_ok h
  split at h
  · cases h
  · rename_i fingerprint hfingerprint
    split at h
    · cases h
    · rename_i row hrow
      obtain ⟨_, -, h⟩ := bind_ok h
      obtain ⟨_, -, h⟩ := bind_ok h
      obtain ⟨actor, hactor, h⟩ := bind_ok h
      obtain ⟨_, hreviewed, h⟩ := bind_ok h
      obtain ⟨result, hresult, h⟩ := bind_ok h
      cases h
      obtain ⟨hmem, hid⟩ := Table.get_mem Row.id hrow
      have hreviewed := of_decide_eq_true (check_ok hreviewed)
      exact ⟨row, actor, result, hmem, hid, hactor, hfingerprint.trans (congrArg some hreviewed), hresult, rfl⟩

/-- Two updates of one row are one. -/
theorem commit_groups {groups : List Row} {row : Row} (hids : (groups.map Row.id).Nodup)
    (hrow : row ∈ groups) (f : Row → Row) (hf : ∀ g, (f g).id = g.id) (revision : JsString)
    (now : Nat) :
    Table.updateWhere (fun g : Row => decide (g.id = row.id)) (·.revised revision now)
        (Table.updateWhere (fun g : Row => decide (g.id = row.id)) f groups)
      = Table.replace Row.id ((f row).revised revision now) groups := by
  have hrevised : ∀ g : Row, (g.revised revision now).id = g.id := fun _ => rfl
  have hfirst : Table.updateWhere (fun g : Row => decide (g.id = row.id)) f groups
      = Table.replace Row.id (f row) groups :=
    Table.updateWhere_eq_replace Row.id hids hrow (by simp) (fun g hg => of_decide_eq_true hg)
      (hf row)
  have hmem : f row ∈ Table.replace Row.id (f row) groups := Table.mem_updateWhere.mpr ⟨row, hrow, by simp [hf]⟩
  have hsecond := Table.updateWhere_eq_replace (f := (·.revised revision now)) Row.id
    (p := fun g : Row => decide (g.id = row.id))
    (by rw [Table.map_replace]; exact hids) hmem (by simp [hf])
    (fun g hg => (of_decide_eq_true hg).trans (hf row).symm) rfl
  rw [hfirst, hsecond, Table.replace, Table.replace, Table.updateWhere, Table.updateWhere, map_map]
  refine map_congr_left fun g _ => ?_
  simp only [Function.comp_apply, hrevised, hf]
  by_cases hg : g.id = row.id
  · simp [hg, hf]
  · simp [hg]

/-! ## The operations -/

omit [DecidableEq η] in
theorem save_ok {id : Int} {value : PolicyInput} {row : Row} {members : List Int}
    {result : Outcome} (h : saveOperation around db id value row actor members = .ok result) :
    ∃ policy, normalizeGroupPolicy around value row.permissions = .ok policy
      ∧ groupAuthorityAllows actor.permissions row.permissions = true
      ∧ groupAuthorityAllows actor.permissions policy.permissions = true
      ∧ ((2 < row.id ∧ row.isSystem = false) ∨ policy.name = row.name)
      ∧ (row.id ≠ 1 ∨ policy.permissions = sorted row.permissions)
      ∧ result =
        { db := { db with
            groups := Table.updateWhere (fun g : Row => g.id = id) (·.withPolicy policy) db.groups }
          ended := if authorityChanged row policy then members else []
          deleted := false } := by
  obtain ⟨policy, hpolicy, h⟩ := bind_ok h
  obtain ⟨_, hedit, h⟩ := bind_ok h
  obtain ⟨_, hname, h⟩ := bind_ok h
  obtain ⟨_, hpermissions, h⟩ := bind_ok h
  obtain ⟨_, -, h⟩ := bind_ok h
  obtain ⟨_, -, h⟩ := bind_ok h
  cases h
  have hedit := check_ok hedit
  have hname := check_ok hname
  have hpermissions := check_ok hpermissions
  simp only [capabilities, Bool.and_eq_true, Bool.or_eq_true, decide_eq_true_eq,
    Bool.not_eq_true', ne_eq] at hedit hname hpermissions
  refine ⟨policy, hpolicy, hedit.1.1.1, hedit.2, ?_, ?_, rfl⟩
  · exact hname.imp_left fun h => ⟨h.1.2, h.2⟩
  · exact hpermissions.imp_left fun h => h.2

/-- Other memberships stay. -/
theorem mem_changedMembers {userGroups : List Membership} {id : Int} {ids : List Int}
    (action : MembershipAction) {m : Membership} (hother : m.groupId ≠ id ∨ m.userId ∉ ids) :
    m ∈ changedMembers userGroups id ids action ↔ m ∈ userGroups := by
  cases action with
  | add =>
    simp only [changedMembers, mem_append, mem_map, or_iff_left_iff_imp]
    rintro ⟨userId, huser, rfl⟩
    rcases hother with hother | hother
    · exact absurd rfl hother
    · exact absurd huser hother
  | remove =>
    simp only [changedMembers, mem_filter, Bool.not_eq_true', Bool.and_eq_false_iff,
      decide_eq_false_iff_not, and_iff_left_iff_imp]
    intro _
    rcases hother with hother | hother
    · exact .inl hother
    · exact .inr (by simpa using hother)

theorem members_ok {id : Int} {action : MembershipAction} {ids : List Int} {row : Row} {members : List Int}
    {result : Outcome} (husers : (db.users.map Account.id).Nodup) (hid : row.id = id)
    (h : membersOperation db id action ids row actor members = .ok result) : ∃ userGroups,
    groupAuthorityAllows actor.permissions row.permissions = true ∧ 2 ∉ ids ∧ (∀ id ∈ actor.id, id ∉ ids) ∧
    (action = .remove → row.id = 1 → 1 ∉ ids) ∧
    (∀ u ∈ db.users, u.id ∈ ids → groupAuthorityAllows actor.permissions (db.permissionsOf u.id) = true) ∧
    (∀ id ∈ ids, id ∈ db.users.map Account.id) ∧
    (∀ m : Membership, m.groupId ≠ row.id ∨ m.userId ∉ ids → (m ∈ userGroups ↔ m ∈ db.userGroups)) ∧
    (action = .add → ∀ m ∈ db.userGroups, m ∈ userGroups) ∧
    result = { db := { db with userGroups }, ended := ids, deleted := false } := by
  obtain ⟨_, hmembers, h⟩ := bind_ok h
  obtain ⟨_, hprotected, h⟩ := bind_ok h
  obtain ⟨_, hlength, h⟩ := bind_ok h
  obtain ⟨_, hscope, h⟩ := bind_ok h
  obtain ⟨_, -, h⟩ := bind_ok h
  cases h
  have hmembers := check_ok hmembers
  have hprotected := check_ok hprotected
  have hlength := of_decide_eq_true (check_ok hlength)
  have hscope := check_ok hscope
  simp only [capabilities, Bool.and_eq_true] at hmembers
  simp only [Bool.not_eq_true', Bool.or_eq_false_iff, Bool.and_eq_false_iff] at hprotected
  obtain ⟨⟨hguest, hself⟩, hprimary⟩ := hprotected
  refine ⟨_, hmembers.1, by simpa using hguest, ?_, ?_, ?_, ?_, ?_, ?_, rfl⟩
  · intro own hown
    rw [Option.mem_def.mp hown] at hself
    simpa using hself
  · intro haction hone hmem
    subst haction
    rw [← hid] at hprimary
    simp [hone, hmem] at hprimary
  · intro u hu hmem
    have hu := all_eq_true.mp hscope u (mem_filter.mpr ⟨hu, by simpa using hmem⟩)
    simp only [Bool.and_eq_true] at hu
    exact hu.2
  · have hsubset : (db.users.filter fun u => ids.contains u.id).map Account.id ⊆ ids := by
      intro x hx
      obtain ⟨u, hu, rfl⟩ := mem_map.mp hx
      simpa using (mem_filter.mp hu).2
    have hperm := (((husers.sublist ((filter_sublist).map _)).subperm hsubset).perm_of_length_le
      (by rw [length_map, hlength]))
    intro x hx
    obtain ⟨u, hu, rfl⟩ := mem_map.mp (hperm.mem_iff.mpr hx)
    exact mem_map.mpr ⟨u, (mem_filter.mp hu).1, rfl⟩
  · intro m hother
    exact mem_changedMembers action (hid ▸ hother)
  · intro haction m hm
    subst haction
    exact mem_append_left _ hm

theorem remove_ok {id : Int} {inUse : Bool} {row : Row} {members : List Int} {result : Outcome}
    (h : removeOperation db id inUse row actor members = .ok result) :
    groupAuthorityAllows actor.permissions row.permissions = true
      ∧ (2 < row.id ∧ row.isSystem = false) ∧ inUse = false
      ∧ result =
        { db := { db with
            groups := db.groups.filter (·.id ≠ id)
            userGroups := db.userGroups.filter (·.groupId ≠ id) }
          ended := members
          deleted := true } := by
  obtain ⟨_, hdelete, h⟩ := bind_ok h
  obtain ⟨_, hfree, h⟩ := bind_ok h
  cases h
  have hdelete := check_ok hdelete
  have hfree := check_ok hfree
  simp only [capabilities, Bool.and_eq_true, decide_eq_true_eq, Bool.not_eq_true'] at hdelete
  exact ⟨hdelete.1.1.1.1, ⟨hdelete.1.2, hdelete.2⟩, by simpa using hfree, rfl⟩

/-- **Commit.** Who has made the call, which version has been reviewed, and what has changed. -/
theorem run_ok (hgroups : (db.groups.map Row.id).Nodup) (husers : (db.users.map Account.id).Nodup)
    {answer : GroupWriteResult} (h : op.run around db = .ok (db', answer)) : ∃ actor, op.actor db = .ok actor ∧
    Changed around db op actor db' ∧ ∀ review ∈ op.reviewed, ∃ row ∈ db.groups, row.id = review.1 ∧
    review.2 = some (around.hash (db.fingerprint row)) := by
  cases op with
  | create requester input id now revision =>
    obtain ⟨policy, -, h⟩ := bind_ok h
    obtain ⟨_, -, h⟩ := bind_ok h
    obtain ⟨actor, hactor, h⟩ := bind_ok h
    obtain ⟨_, -, h⟩ := bind_ok h
    obtain ⟨_, -, h⟩ := bind_ok h
    obtain ⟨_, -, h⟩ := bind_ok h
    cases h
    exact ⟨actor, hactor, .created requester input id now revision actor policy, nofun⟩
  | savePolicy requester id input value now revision =>
    obtain ⟨row, actor, result, hrow, rfl, hactor, hreview, hresult, rfl⟩ := mutate_ok h
    obtain ⟨policy, hpolicy, hscope, hallows, hname, hpermissions, rfl⟩ := save_ok hresult
    refine ⟨actor, hactor, ?_, ?_⟩
    · have hchanged := Changed.saved requester input value now revision actor row policy hrow
        hpolicy hscope hallows hname hpermissions
      rw [← commit_groups hgroups hrow (·.withPolicy policy) (fun _ => rfl) revision now]
        at hchanged
      exact hchanged
    · rintro review ⟨⟩
      exact ⟨row, hrow, rfl, hreview⟩
  | changeMembers requester id input action now revision =>
    simp only [Op.run, changeMembers] at h
    split at h
    · rename_i chosen userIds hids
      obtain ⟨_, -, h⟩ := bind_ok h
      obtain ⟨ids, -, h⟩ := bind_ok h
      obtain ⟨row, actor, result, hrow, rfl, hactor, hreview, hresult, rfl⟩ := mutate_ok h
      obtain ⟨userGroups, hscope, hguest, hself, hprimary, hinscope, hexist, hmembers, hadded,
        rfl⟩ := members_ok husers rfl hresult
      refine ⟨actor, hactor, ?_, ?_⟩
      · have hchanged : Changed around db _ actor _ :=
          .membersChanged requester input chosen now revision actor row ids userGroups hrow hscope
            hguest hself hprimary hinscope hexist hmembers hadded
        rw [← Table.updateWhere_eq_replace (f := (·.revised revision now)) Row.id
          (p := fun g : Row => decide (g.id = row.id)) hgroups hrow (by simp)
          (fun g hg => of_decide_eq_true hg) rfl] at hchanged
        exact hchanged
      · rintro review ⟨⟩
        exact ⟨row, hrow, rfl, hreview⟩
    · cases h
  | remove requester id input inUse now revision =>
    obtain ⟨row, actor, result, hrow, rfl, hactor, hreview, hresult, rfl⟩ := mutate_ok h
    obtain ⟨hscope, hplain, rfl, rfl⟩ := remove_ok hresult
    refine ⟨actor, hactor, .removed requester input now revision actor row hrow hscope hplain, ?_⟩
    rintro review ⟨⟩
    exact ⟨row, hrow, rfl, hreview⟩

end TsEpistle.Groups
