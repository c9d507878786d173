import TsEpistle.Access.DenyWins
import TsEpistle.Groups.Steps

/-! What one call of group administration can change for an account: its permissions, the page
rules it is under, and the answers of `evaluateGroupAccess`. -/

namespace TsEpistle.Groups
open Library Access List

/-! ## Effects of rules -/

/-- What a rule says about the pages it is for; its id and the order of its languages do not
count. -/
def effect (rule : AccessRule) : GroupRuleMatch × JsString × Bool × List JsString :=
  (rule.match, rule.path, rule.deny, sorted (rule.locales.getD []))

/-- The effects of the rules that name an action. -/
def ruleEffects (q : JsString) (rules : List AccessRule) :
    List (GroupRuleMatch × JsString × Bool × List JsString) :=
  (rules.filter fun rule => rule.roles.contains q).map effect

def SameRules (q : JsString) (rules rules' : List AccessRule) : Prop :=
  ∀ e, e ∈ ruleEffects q rules ↔ e ∈ ruleEffects q rules'

theorem mem_ruleEffects {q : JsString} {rules : List AccessRule}
    {e : GroupRuleMatch × JsString × Bool × List JsString} :
    e ∈ ruleEffects q rules ↔ ∃ rule ∈ rules, q ∈ rule.roles ∧ effect rule = e := by
  simp [ruleEffects, and_assoc]

section
variable {regExpTest : RegExpTest} {aliases : TagAliases} {page : AccessPage} {q : JsString}
  {rule rule' : AccessRule}

theorem localeExcluded_congr (h : effect rule' = effect rule) :
    localeExcluded page rule' = localeExcluded page rule := by
  have hsorted : sorted (rule'.locales.getD []) = sorted (rule.locales.getD []) := congrArg (fun e => e.2.2.2) h
  have hperm : (rule'.locales.getD []).Perm (rule.locales.getD []) :=
    (sorted_perm _).symm.trans (hsorted ▸ sorted_perm _)
  have hcontains : ∀ locale : JsString,
      (rule'.locales.getD []).contains locale = (rule.locales.getD []).contains locale := by
    intro locale
    rw [Bool.eq_iff_iff, contains_iff_mem, contains_iff_mem]
    exact hperm.mem_iff
  simp only [localeExcluded, hperm.length_eq, hcontains]

theorem applies_congr (h : effect rule' = effect rule) (hrole : q ∈ rule'.roles)
    (happlies : Applies regExpTest aliases [q] page rule) :
    Applies regExpTest aliases [q] page rule' where
  locale := (localeExcluded_congr h).trans happlies.locale
  role := ⟨q, hrole, mem_singleton_self q⟩
  kind := by
    have hmatch : rule'.match = rule.match := congrArg (fun e => e.1) h
    have hpath : rule'.path = rule.path := congrArg (fun e => e.2.1) h
    have hkind := happlies.kind
    simp only [matchesKind, hmatch, hpath] at hkind ⊢
    exact hkind

theorem ruleKey_congr (h : effect rule' = effect rule) : ruleKey rule' = ruleKey rule := by
  have hmatch : rule'.match = rule.match := congrArg (fun e => e.1) h
  have hpath : rule'.path = rule.path := congrArg (fun e => e.2.1) h
  rw [ruleKey, ruleKey, hmatch, hpath]

theorem Applies.role_mem (h : Applies regExpTest aliases [q] page rule) : q ∈ rule.roles := by
  obtain ⟨role, hrole, hq⟩ := h.role
  rw [mem_singleton.mp hq] at hrole
  exact hrole

theorem pageGranted_of_sameRules {groups groups' : List AccessGroup}
    (h : SameRules q (allRules groups) (allRules groups'))
    (hgranted : pageGranted regExpTest aliases [q] page groups = true) :
    pageGranted regExpTest aliases [q] page groups' = true := by
  rw [pageGranted_iff] at hgranted ⊢
  obtain ⟨⟨rule, hrule, happlies⟩, htop⟩ := hgranted
  -- the rule of the other list with the same effect
  have hforth : ∀ rule ∈ allRules groups, Applies regExpTest aliases [q] page rule →
      ∃ rule' ∈ allRules groups', Applies regExpTest aliases [q] page rule' ∧ effect rule' = effect rule := by
    intro rule hrule happlies
    obtain ⟨rule', hrule', hrole, heffect⟩ := mem_ruleEffects.mp
      ((h _).mp (mem_ruleEffects.mpr ⟨rule, hrule, Applies.role_mem happlies, rfl⟩))
    exact ⟨rule', hrule', applies_congr heffect hrole happlies, heffect⟩
  refine ⟨?_, ?_⟩
  · obtain ⟨rule', hrule', happlies', -⟩ := hforth rule hrule happlies
    exact ⟨rule', hrule', happlies'⟩
  · intro rule' hrule' happlies' hmax
    obtain ⟨rule, hrule, hrole, heffect⟩ := mem_ruleEffects.mp
      ((h _).mpr (mem_ruleEffects.mpr ⟨rule', hrule', Applies.role_mem happlies', rfl⟩))
    have happlies := applies_congr heffect hrole happlies'
    have hdeny : rule'.deny = rule.deny := congrArg (fun e => e.2.2.1) heffect.symm
    rw [hdeny]
    refine htop rule hrule happlies fun other hother happlies => ?_
    obtain ⟨other', hother', happlies', hsame⟩ := hforth other hother happlies
    rw [← ruleKey_congr hsame, ruleKey_congr heffect]
    exact hmax other' hother' happlies'

theorem pageGranted_congr {groups groups' : List AccessGroup} (h : SameRules q (allRules groups) (allRules groups')) :
    pageGranted regExpTest aliases [q] page groups = pageGranted regExpTest aliases [q] page groups' := by
  rw [Bool.eq_iff_iff]
  exact ⟨pageGranted_of_sameRules h, pageGranted_of_sameRules fun e => (h e).symm⟩

end

/-! ## Accounts -/

def Row.accessGroup (row : Row) : AccessGroup :=
  ⟨row.id, some row.name, some row.permissions, row.pageRules⟩

/-- The page rules that an account is under. -/
def Database.rulesOf (db : Database) (userId : Int) : List AccessRule :=
  (db.groupsOf userId).flatMap Row.pageRules

/-- What `evaluateGroupAccess` answers for an account and one action. -/
def Database.access (db : Database) (regExpTest : RegExpTest) (aliases : TagAliases)
    (page : Option AccessPage) (collectTrace : Bool) (userId : Int) (q : JsString) : Bool :=
  (evaluateGroupAccess regExpTest (db.permissionsOf userId) [q]
    ((db.groupsOf userId).map Row.accessGroup) page aliases collectTrace).allowed

theorem allRules_accessGroup (rows : List Row) : allRules (rows.map Row.accessGroup) = rows.flatMap Row.pageRules := by
  induction rows with
  | nil => rfl
  | cons row rows ih =>
    rw [flatMap_cons, ← ih]
    rfl

variable {η : Type} [DecidableEq η] {around : Around η} {db db' : Database} {op : Op η} {actor : Actor}

theorem access_congr {userId : Int} {q : JsString}
    (hsystem : js "manage:system" ∈ db.permissionsOf userId ↔ js "manage:system" ∈ db'.permissionsOf userId)
    (hq : q ∈ db.permissionsOf userId ↔ q ∈ db'.permissionsOf userId)
    (hrules : q ∈ db.permissionsOf userId → js "manage:system" ∉ db.permissionsOf userId →
      SameRules q (db.rulesOf userId) (db'.rulesOf userId))
    (regExpTest : RegExpTest) (aliases : TagAliases) (page : Option AccessPage)
    (collectTrace : Bool) :
    db'.access regExpTest aliases page collectTrace userId q
      = db.access regExpTest aliases page collectTrace userId q := by
  rw [Database.access, Database.access, evaluateGroupAccess_allowed, evaluateGroupAccess_allowed]
  by_cases hheld : js "manage:system" ∈ db.permissionsOf userId
  · have hheld' := hsystem.mp hheld
    simp [hheld, hheld']
  · have hheld' : js "manage:system" ∉ db'.permissionsOf userId := fun h => hheld (hsystem.mpr h)
    by_cases hperm : q ∈ db.permissionsOf userId
    · have hsame := hrules hperm hheld
      have hpages : (page.all fun page => pageGranted regExpTest aliases [q] page
            ((db'.groupsOf userId).map Row.accessGroup))
          = page.all fun page => pageGranted regExpTest aliases [q] page
            ((db.groupsOf userId).map Row.accessGroup) := by
        cases page with
        | none => rfl
        | some page =>
          refine pageGranted_congr ?_
          rw [allRules_accessGroup, allRules_accessGroup]
          exact fun e => (hsame e).symm
      simp [hheld, hheld', hperm, hq.mp hperm, hpages]
    · have hperm' : q ∉ db'.permissionsOf userId := fun h => hperm (hq.mpr h)
      simp [hheld, hheld', hperm, hperm']

/-! ## Groups of an account after a call -/

theorem groupsOf_replace {userGroups : List Membership} {users : List Account} {userId : Int}
    (row : Row) (h : ∀ id, userGroups.contains ⟨userId, id⟩ = db.userGroups.contains ⟨userId, id⟩) :
    (Database.mk (Table.replace Row.id row db.groups) users userGroups).groupsOf userId
      = (db.groupsOf userId).map fun g => if g.id = row.id then row else g := by
  rw [Database.groupsOf, Database.groupsOf, Table.replace, Table.updateWhere, filter_map]
  simp only [decide_eq_true_eq]
  congr 1
  refine filter_congr fun g _ => ?_
  simp only [Function.comp_apply, h]
  split
  · rename_i heq
    rw [heq]
  · rfl

theorem mem_groupsOf {userId : Int} {g : Row} :
    g ∈ db.groupsOf userId ↔ g ∈ db.groups ∧ ⟨userId, g.id⟩ ∈ db.userGroups := by
  simp [Database.groupsOf]

theorem mem_membersOf {groupId userId : Int} : userId ∈ db.membersOf groupId ↔ ⟨userId, groupId⟩ ∈ db.userGroups := by
  simp only [Database.membersOf, mem_map, mem_filter, decide_eq_true_eq]
  constructor
  · rintro ⟨⟨u, g⟩, ⟨hm, rfl⟩, rfl⟩
    exact hm
  · exact fun hm => ⟨⟨userId, groupId⟩, ⟨hm, rfl⟩, rfl⟩

/-- What stays the same in a group that is not in the account's way. -/
theorem mem_permissions_map {q : JsString} {rows : List Row} {f : Row → Row}
    (h : ∀ g ∈ rows, (q ∈ (f g).permissions ↔ q ∈ g.permissions)) :
    q ∈ (rows.map f).flatMap Row.permissions ↔ q ∈ rows.flatMap Row.permissions := by
  simp only [mem_flatMap, mem_map, exists_exists_and_eq_and]
  exact exists_congr fun g => and_congr_right fun hg => h g hg

theorem sameRules_map {q : JsString} {rows : List Row} {f : Row → Row}
    (h : ∀ g ∈ rows, SameRules q g.pageRules (f g).pageRules) :
    SameRules q (rows.flatMap Row.pageRules) ((rows.map f).flatMap Row.pageRules) := by
  intro e
  have hmem : ∀ rows : List Row, e ∈ ruleEffects q (rows.flatMap Row.pageRules)
      ↔ ∃ g ∈ rows, e ∈ ruleEffects q g.pageRules := by
    intro rows
    simp only [mem_ruleEffects, mem_flatMap]
    constructor
    · rintro ⟨rule, ⟨g, hg, hrule⟩, heffect⟩
      exact ⟨g, hg, rule, hrule, heffect⟩
    · rintro ⟨g, hg, rule, hrule, heffect⟩
      exact ⟨rule, ⟨g, hg, hrule⟩, heffect⟩
  rw [hmem, hmem]
  simp only [mem_map, exists_exists_and_eq_and]
  exact exists_congr fun g => and_congr_right fun hg => h g hg e

/-! ## Scope -/

/-- The rules that the call leaves in the group. -/
def Op.rulesAfter (around : Around η) (op : Op η) (row : Row) : List AccessRule :=
  match op with
  | .savePolicy _ _ _ value _ _ =>
    match normalizeGroupPolicy around value row.permissions with
    | .ok policy => policy.pageRules
    | .error _ => row.pageRules
  | .remove .. => []
  | _ => row.pageRules

/-- Where a member holds a permission outside the scope of the caller, the rules that name it
stay the same. -/
def RulesKept (around : Around η) (db : Database) (op : Op η) (actor : Actor) : Prop :=
  ∀ row ∈ db.groups, op.reviewed.map Prod.fst = some row.id → ∀ userId ∈ db.membersOf row.id,
    ∀ q ∈ db.permissionsOf userId, groupAuthorityAllows actor.permissions [q] = false →
      js "manage:system" ∉ db.permissionsOf userId → SameRules q row.pageRules (op.rulesAfter around row)

/-- The tables fit together. -/
structure Database.Sound (db : Database) (serial : Int) : Prop where
  groupIds : (db.groups.map Row.id).Nodup
  userIds : (db.users.map Account.id).Nodup
  memberships : ∀ m ∈ db.userGroups, m.groupId ∈ db.groups.map Row.id
  serial : ∀ g ∈ db.groups, g.id ≤ serial

theorem not_member_of_new {serial id userId : Int} (hdb : db.Sound serial) (hid : serial < id) :
    (⟨userId, id⟩ : Membership) ∉ db.userGroups := by
  intro hm
  obtain ⟨g, hg, heq⟩ := mem_map.mp (hdb.memberships _ hm)
  have := hdb.serial g hg
  dsimp only at heq
  omega

theorem groupsOf_created {serial : Int} (hdb : db.Sound serial) (row : Row) (hid : serial < row.id) (userId : Int) :
    Database.groupsOf { db with groups := db.groups ++ [row] } userId = db.groupsOf userId := by
  simp [Database.groupsOf, filter_append, not_member_of_new hdb hid]

theorem groupsOf_removed {groupId userId : Int} (users : List Account) :
    (Database.mk (db.groups.filter (·.id ≠ groupId)) users
        (db.userGroups.filter (·.groupId ≠ groupId))).groupsOf userId
      = (db.groupsOf userId).filter (·.id ≠ groupId) := by
  rw [Database.groupsOf, Database.groupsOf, filter_filter, filter_filter]
  refine filter_congr fun g _ => ?_
  by_cases hg : g.id = groupId
  · simp [hg]
  · simp [hg]

omit [DecidableEq η] in
/-- Outside the scope of the caller no account gains or loses a permission. -/
theorem Changed.permissions {serial : Int} (h : Changed around db op actor db') (hdb : db.Sound serial)
    (hnew : ∀ id ∈ op.created, serial < id) {q : JsString} (hq : groupAuthorityAllows actor.permissions [q] = false)
    (userId : Int) : q ∈ db.permissionsOf userId ↔ q ∈ db'.permissionsOf userId := by
  have hout : ∀ target : List JsString, groupAuthorityAllows actor.permissions target = true →
      q ∉ target := by
    intro target hallows hmem
    rw [allows_mem hallows hmem] at hq
    cases hq
  cases h with
  | created requester input id now revision actor policy =>
    rw [Database.permissionsOf, Database.permissionsOf,
      groupsOf_created hdb (newRow policy id now revision) (hnew id rfl)]
  | saved requester input value now revision actor row policy hrow hpolicy hscope hallows =>
    rw [Database.permissionsOf, Database.permissionsOf, groupsOf_replace _ fun _ => rfl]
    refine (mem_permissions_map fun g hg => ?_).symm
    split
    · rename_i heq
      obtain rfl := inj_on_of_nodup_map hdb.groupIds (mem_groupsOf.mp hg).1 hrow heq
      exact iff_of_false (hout _ hallows) (hout _ hscope)
    · rfl
  | membersChanged requester input action now revision actor row ids userGroups hrow hscope hguest
      hself hprimary husers hids hmembers =>
      simp only [Database.permissionsOf, mem_flatMap, mem_groupsOf]
      constructor
      · rintro ⟨g, ⟨hg, hm⟩, hperm⟩
        have hne : g.id ≠ row.id := by
          intro heq
          obtain rfl := inj_on_of_nodup_map hdb.groupIds hg hrow heq
          exact hout _ hscope hperm
        exact ⟨g, ⟨Table.mem_updateWhere.mpr ⟨g, hg, by simp [Row.revised, hne]⟩,
          (hmembers ⟨userId, g.id⟩ (.inl hne)).mpr hm⟩, hperm⟩
      · rintro ⟨g, ⟨hg, hm⟩, hperm⟩
        rcases Table.mem_replace Row.id hg with rfl | ⟨hg, hne⟩
        · exact absurd hperm (hout _ hscope)
        · exact ⟨g, ⟨hg, (hmembers ⟨userId, g.id⟩ (.inl hne)).mp hm⟩, hperm⟩
  | removed requester input now revision actor row hrow hscope =>
    rw [Database.permissionsOf, Database.permissionsOf, groupsOf_removed]
    simp only [mem_flatMap, mem_filter, decide_eq_true_eq]
    constructor
    · rintro ⟨g, hg, hperm⟩
      refine ⟨g, ⟨hg, fun heq => ?_⟩, hperm⟩
      obtain rfl := inj_on_of_nodup_map hdb.groupIds (mem_groupsOf.mp hg).1 hrow heq
      exact hout _ hscope hperm
    · rintro ⟨g, ⟨hg, -⟩, hperm⟩
      exact ⟨g, hg, hperm⟩

omit [DecidableEq η] in
/-- Outside the scope of the caller no answer of `evaluateGroupAccess` changes, as long as the
rules that name the permission stay the same. -/
theorem Changed.access {serial : Int} (h : Changed around db op actor db') (hdb : db.Sound serial)
    (hnew : ∀ id ∈ op.created, serial < id) (hsystem : actor.system = false)
    (hkept : RulesKept around db op actor) {q : JsString}
    (hq : groupAuthorityAllows actor.permissions [q] = false) (userId : Int)
    (regExpTest : RegExpTest) (aliases : TagAliases) (page : Option AccessPage)
    (collectTrace : Bool) :
    db'.access regExpTest aliases page collectTrace userId q
      = db.access regExpTest aliases page collectTrace userId q := by
  refine access_congr (h.permissions hdb hnew (system_outside hsystem) userId)
    (h.permissions hdb hnew hq userId) (fun hperm hplain => ?_) regExpTest aliases page collectTrace
  cases h with
  | created requester input id now revision actor policy =>
    rw [Database.rulesOf, Database.rulesOf, groupsOf_created hdb (newRow policy id now revision) (hnew id rfl)]
    exact fun _ => Iff.rfl
  | saved requester input value now revision actor row policy hrow hpolicy =>
    rw [Database.rulesOf, Database.rulesOf, groupsOf_replace _ fun _ => rfl]
    refine sameRules_map fun g hg => ?_
    split
    · rename_i heq
      obtain ⟨hmem, hm⟩ := mem_groupsOf.mp hg
      obtain rfl := inj_on_of_nodup_map hdb.groupIds hmem hrow heq
      have hsame := hkept g hmem rfl userId (mem_membersOf.mpr hm) q hperm hq hplain
      simp only [Op.rulesAfter, hpolicy] at hsame
      exact hsame
    · exact fun _ => Iff.rfl
  | membersChanged requester input action now revision actor row ids userGroups hrow hscope hguest
      hself hprimary husers hids hmembers =>
      -- an account whose memberships change holds nothing outside the scope
      have hother : userId ∉ ids := by
        intro hmem
        obtain ⟨u, hu, rfl⟩ := mem_map.mp (hids userId hmem)
        rw [allows_mem (husers u hu hmem) hperm] at hq
        cases hq
      have hcontains : ∀ id, userGroups.contains (⟨userId, id⟩ : Membership)
          = db.userGroups.contains ⟨userId, id⟩ := by
        intro id
        rw [Bool.eq_iff_iff, contains_iff_mem, contains_iff_mem]
        exact hmembers ⟨userId, id⟩ (.inr hother)
      rw [Database.rulesOf, Database.rulesOf, groupsOf_replace _ hcontains]
      refine sameRules_map fun g hg => ?_
      split
      · rename_i heq
        obtain rfl := inj_on_of_nodup_map hdb.groupIds (mem_groupsOf.mp hg).1 hrow heq
        exact fun _ => Iff.rfl
      · exact fun _ => Iff.rfl
  | removed requester input now revision actor row hrow hscope =>
    rw [Database.rulesOf, Database.rulesOf, groupsOf_removed]
    intro e
    simp only [mem_ruleEffects, mem_flatMap, mem_filter, decide_eq_true_eq]
    constructor
    · rintro ⟨rule, ⟨g, hg, hrule⟩, hrole, rfl⟩
      refine ⟨rule, ⟨g, ⟨hg, fun heq => ?_⟩, hrule⟩, hrole, rfl⟩
      obtain ⟨hmem, hm⟩ := mem_groupsOf.mp hg
      obtain rfl := inj_on_of_nodup_map hdb.groupIds hmem hrow heq
      have hsame := hkept g hmem rfl userId (mem_membersOf.mpr hm) q hperm hq hplain
      have hnone := (hsame _).mp (mem_ruleEffects.mpr ⟨rule, hrule, hrole, rfl⟩)
      simp [Op.rulesAfter, ruleEffects] at hnone
    · rintro ⟨rule, ⟨g, ⟨hg, -⟩, hrule⟩, hrole, rfl⟩
      exact ⟨rule, ⟨g, hg, hrule⟩, hrole, rfl⟩

end TsEpistle.Groups
