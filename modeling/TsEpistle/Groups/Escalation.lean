import TsEpistle.Groups.Scope

/-! Group administration over whole runs: what is protected, whose sessions end, and that a
reviewed version is used once. -/

namespace TsEpistle.Groups
open Library Access List Function

variable {η : Type} {around : Around η} {db db' : Database} {op : Op η}
  {actor : Actor}

/-! ## Sessions -/

/-- The same rule, its actions and languages in any order. -/
structure SameRule (rule rule' : AccessRule) : Prop where
  id : rule'.id = rule.id
  kind : rule'.match = rule.match
  path : rule'.path = rule.path
  deny : rule'.deny = rule.deny
  roles : rule'.roles.Perm rule.roles
  locales : (rule'.locales.getD []).Perm (rule.locales.getD [])

theorem SameRule.refl (rule : AccessRule) : SameRule rule rule := ⟨rfl, rfl, rfl, rfl, .rfl, .rfl⟩

theorem sameRule_sorted (rule : AccessRule) : SameRule rule (sortedRule rule) :=
  ⟨rfl, rfl, rfl, rfl, sorted_perm _, sorted_perm _⟩

/-- An account may do the same under the same rules. -/
def SameAuthority (rows rows' : List Row) : Prop :=
  (∀ p, p ∈ rows.flatMap Row.permissions ↔ p ∈ rows'.flatMap Row.permissions)
    ∧ List.Forall₂ SameRule (rows.flatMap Row.pageRules) (rows'.flatMap Row.pageRules)

theorem SameAuthority.refl (rows : List Row) : SameAuthority rows rows :=
  ⟨fun _ => Iff.rfl, forall₂_same.mpr fun rule _ => .refl rule⟩

theorem sameAuthority_map {rows : List Row} {f : Row → Row}
    (hpermissions : ∀ g ∈ rows, ∀ p, p ∈ (f g).permissions ↔ p ∈ g.permissions)
    (hrules : ∀ g ∈ rows, List.Forall₂ SameRule g.pageRules (f g).pageRules) : SameAuthority rows (rows.map f) := by
  refine ⟨fun p => (mem_permissions_map fun g hg => hpermissions g hg p).symm, ?_⟩
  clear hpermissions
  induction rows with
  | nil => exact .nil
  | cons g rows ih =>
    rw [map_cons, flatMap_cons, flatMap_cons]
    exact rel_append (hrules g (by simp)) (ih fun g hg => hrules g (by simp [hg]))

/-- A row that is replaced by one of the same authority. -/
theorem sameAuthority_replace {rows : List Row} {row : Row}
    (h : ∀ g ∈ rows, g.id = row.id → (∀ p, p ∈ row.permissions ↔ p ∈ g.permissions) ∧
      List.Forall₂ SameRule g.pageRules row.pageRules) :
    SameAuthority rows (rows.map fun g => if g.id = row.id then row else g) := by
  refine sameAuthority_map (fun g hg p => ?_) fun g hg => ?_
  · split
    · rename_i heq
      exact (h g hg heq).1 p
    · rfl
  · split
    · rename_i heq
      exact (h g hg heq).2
    · exact forall₂_same.mpr fun rule _ => .refl rule

theorem ended_bumped {ended : List Int} {users : List Account} {u : Account} (hu : u ∈ users)
    (hended : u.id ∈ ended) (revision : JsString) (now : Nat) :
    ∃ u' ∈ endSessions ended revision now users, u'.id = u.id ∧ u.authVersion < u'.authVersion := by
  refine ⟨u.ended revision now, Table.mem_updateWhere.mpr ⟨u, hu, ?_⟩, rfl, ?_⟩
  · rw [if_pos (contains_iff_mem.mpr hended)]
  · exact Nat.lt_succ_self _

/-- An account whose permissions or rules change gets a larger session version. -/
theorem Changed.sessions {serial : Int} (h : Changed around db op actor db') (hdb : db.Sound serial)
    (hnew : ∀ id ∈ op.created, serial < id) : ∀ u ∈ db.users, SameAuthority (db.groupsOf u.id) (db'.groupsOf u.id) ∨
    ∃ u' ∈ db'.users, u'.id = u.id ∧ u.authVersion < u'.authVersion := by
  intro u hu
  cases h with
  | created requester input id now revision actor policy =>
    rw [groupsOf_created hdb (newRow policy id now revision) (hnew id rfl)]
    exact .inl (.refl _)
  | saved requester input value now revision actor row policy hrow =>
    by_cases hmember : u.id ∈ db.membersOf row.id
    · cases hchanged : authorityChanged row policy with
      | true =>
        refine .inr (ended_bumped hu ?_ revision now)
        rw [if_pos rfl]
        exact hmember
      | false =>
        refine .inl ?_
        rw [groupsOf_replace _ fun _ => rfl]
        simp only [authorityChanged, Bool.or_eq_false_iff, decide_eq_false_iff_not, ne_eq, not_not] at hchanged
        refine sameAuthority_replace fun g hg heq => ?_
        obtain rfl := inj_on_of_nodup_map hdb.groupIds (mem_groupsOf.mp hg).1 hrow heq
        refine ⟨fun p => ?_, ?_⟩
        · change p ∈ policy.permissions ↔ _
          rw [hchanged.1, mem_sorted]
        · change List.Forall₂ SameRule g.pageRules policy.pageRules
          rw [hchanged.2]
          exact forall₂_map_right_iff.mpr
            (forall₂_same.mpr fun rule _ => sameRule_sorted rule)
    · refine .inl ?_
      rw [groupsOf_replace _ fun _ => rfl]
      have hother : ∀ g ∈ db.groupsOf u.id, g.id ≠ row.id := fun g hg heq =>
        hmember (mem_membersOf.mpr (heq ▸ (mem_groupsOf.mp hg).2))
      exact sameAuthority_replace fun g hg heq => absurd heq (hother g hg)
  | membersChanged requester input action now revision actor row ids userGroups hrow hscope hguest
      hself hprimary husers hids hmembers =>
      by_cases hmember : u.id ∈ ids
      · exact .inr (ended_bumped hu hmember revision now)
      · have hcontains : ∀ id, userGroups.contains (⟨u.id, id⟩ : Membership)
            = db.userGroups.contains ⟨u.id, id⟩ := by
          intro id
          rw [Bool.eq_iff_iff, contains_iff_mem, contains_iff_mem]
          exact hmembers ⟨u.id, id⟩ (.inr hmember)
        refine .inl ?_
        rw [groupsOf_replace _ hcontains]
        refine sameAuthority_replace fun g hg heq => ?_
        obtain rfl := inj_on_of_nodup_map hdb.groupIds (mem_groupsOf.mp hg).1 hrow heq
        exact ⟨fun _ => Iff.rfl, forall₂_same.mpr fun rule _ => .refl rule⟩
  | removed requester input now revision actor row hrow =>
    by_cases hmember : u.id ∈ db.membersOf row.id
    · exact .inr (ended_bumped hu hmember revision now)
    · refine .inl ?_
      rw [groupsOf_removed, filter_eq_self.mpr]
      · exact .refl _
      · intro g hg
        refine decide_eq_true fun heq => hmember (mem_membersOf.mpr ?_)
        exact heq ▸ (mem_groupsOf.mp hg).2

/-! ## Protected memberships and groups -/

/-- The caller and Guest leave a group only with the group itself. -/
theorem Changed.memberships (h : Changed around db op actor db')
    (hmemberships : ∀ m ∈ db.userGroups, m.groupId ∈ db.groups.map Row.id) (m : Membership)
    (hm : m.userId = 2 ∨ actor.id = some m.userId) :
    m ∈ db'.userGroups ↔ m ∈ db.userGroups ∧ m.groupId ∈ db'.groups.map Row.id := by
  cases h with
  | created =>
    refine (and_iff_left_of_imp fun hmem => ?_).symm
    rw [map_append]
    exact mem_append_left _ (hmemberships m hmem)
  | saved =>
    refine (and_iff_left_of_imp fun hmem => ?_).symm
    rw [Table.map_replace]
    exact hmemberships m hmem
  | membersChanged requester input action now revision actor row ids userGroups hrow hscope hguest
      hself hprimary husers hids hmembers =>
      have hother : m.userId ∉ ids := by
        rcases hm with hm | hm
        · rw [hm]
          exact hguest
        · exact hself _ hm
      rw [Table.map_replace]
      refine (hmembers m (.inr hother)).trans ?_
      exact (and_iff_left_of_imp fun hmem => hmemberships m hmem).symm
  | removed requester input now revision actor row =>
    simp only [mem_filter, decide_eq_true_eq, mem_map]
    refine and_congr_right fun hmem => ?_
    obtain ⟨g, hg, heq⟩ := mem_map.mp (hmemberships m hmem)
    constructor
    · exact fun hne => ⟨g, ⟨hg, heq ▸ hne⟩, heq⟩
    · rintro ⟨g', ⟨-, hne⟩, heq'⟩
      exact heq' ▸ hne

theorem Changed.primary (h : Changed around db op actor db')
    (hm : (⟨1, 1⟩ : Membership) ∈ db.userGroups) : (⟨1, 1⟩ : Membership) ∈ db'.userGroups := by
  cases h with
  | created | saved => exact hm
  | membersChanged requester input action now revision actor row ids userGroups hrow hscope hguest
      hself hprimary husers hids hmembers hadded =>
      cases action with
      | add => exact hadded rfl _ hm
      | remove =>
        by_cases hid : row.id = 1
        · exact (hmembers _ (.inr (hprimary rfl hid))).mpr hm
        · exact (hmembers _ (.inl fun heq => hid heq.symm)).mpr hm
  | removed requester input now revision actor row hrow hscope hplain =>
    refine mem_filter.mpr ⟨hm, decide_eq_true fun heq => ?_⟩
    have : (1 : Int) = row.id := heq
    omega

/-- What is left of a protected group. -/
structure Guarded (row row' : Row) : Prop where
  id : row'.id = row.id
  name : row'.name = row.name
  isSystem : row'.isSystem = row.isSystem
  permissions : row.id = 1 → row'.permissions.Perm row.permissions

theorem Changed.guarded (h : Changed around db op actor db') (hids : (db.groups.map Row.id).Nodup) : ∀ g ∈ db.groups,
    g.guarded = true → ∃ g' ∈ db'.groups, Guarded g g' := by
  intro g hg hguarded
  have hsame : Guarded g g := ⟨rfl, rfl, rfl, fun _ => .rfl⟩
  have hprotected : g.isSystem = true ∨ g.id ≤ 2 := by simpa [Row.guarded] using hguarded
  cases h with
  | created => exact ⟨g, mem_append_left _ hg, hsame⟩
  | saved requester input value now revision actor row policy hrow hpolicy hscope hallows hname
      hpermissions =>
      by_cases heq : g.id = row.id
      · obtain rfl := inj_on_of_nodup_map hids hg hrow heq
        refine ⟨(g.withPolicy policy).revised revision now,
          Table.mem_updateWhere.mpr ⟨g, hg, by simp [Row.revised, Row.withPolicy]⟩, rfl, ?_, rfl, ?_⟩
        · rcases hname with ⟨hid, hsystem⟩ | hname
          · rcases hprotected with hprotected | hprotected
            · rw [hsystem] at hprotected
              cases hprotected
            · omega
          · exact hname
        · intro hone
          rcases hpermissions with hne | hpermissions
          · exact absurd hone hne
          · change policy.permissions.Perm g.permissions
            rw [hpermissions]
            exact sorted_perm _
      · exact ⟨g, Table.mem_updateWhere.mpr ⟨g, hg, by simp [Row.revised, Row.withPolicy, heq]⟩, hsame⟩
  | membersChanged requester input action now revision actor row ids userGroups hrow =>
    by_cases heq : g.id = row.id
    · obtain rfl := inj_on_of_nodup_map hids hg hrow heq
      exact ⟨g.revised revision now,
        Table.mem_updateWhere.mpr ⟨g, hg, by simp [Row.revised]⟩, rfl, rfl, rfl, fun _ => .rfl⟩
    · exact ⟨g, Table.mem_updateWhere.mpr ⟨g, hg, by simp [Row.revised, heq]⟩, hsame⟩
  | removed requester input now revision actor row hrow hscope hplain =>
    refine ⟨g, mem_filter.mpr ⟨hg, decide_eq_true fun heq => ?_⟩, hsame⟩
    obtain rfl := inj_on_of_nodup_map hids hg hrow heq
    rcases hprotected with hprotected | hprotected
    · rw [hplain.2] at hprotected
      cases hprotected
    · omega

/-! ## Runs -/

theorem Changed.sound {serial : Int} (h : Changed around db op actor db') (hdb : db.Sound serial)
    (hnew : ∀ id ∈ op.created, serial < id) : db'.Sound (op.created.getD serial) := by
  have husers : ∀ ended revision now, ((endSessions ended revision now db.users).map Account.id).Nodup := by
    intro ended revision now
    rw [endSessions, Table.map_updateWhere Account.id (f := (·.ended revision now)) fun _ => rfl]
    exact hdb.userIds
  have hreplace : ∀ row ∈ db.groups, ∀ row' : Row, row'.id = row.id →
      ∀ g ∈ Table.replace Row.id row' db.groups, g.id ≤ serial := by
    intro row hrow row' hid g hg
    rcases Table.mem_replace Row.id hg with rfl | ⟨hg, -⟩
    · exact hid ▸ hdb.serial row hrow
    · exact hdb.serial g hg
  cases h with
  | created requester input id now revision actor policy =>
    have hid : serial < id := hnew id rfl
    refine ⟨?_, hdb.userIds, fun m hm => ?_, fun g hg => ?_⟩
    · rw [map_append]
      refine nodup_append'.mpr ⟨hdb.groupIds, nodup_singleton _, ?_⟩
      intro found hold hfound
      obtain rfl := mem_singleton.mp hfound
      obtain ⟨g, hg, heq⟩ := mem_map.mp hold
      have hle := hdb.serial g hg
      omega
    · rw [map_append]
      exact mem_append_left _ (hdb.memberships m hm)
    · rcases mem_append.mp hg with hg | hg
      · have hle := hdb.serial g hg
        change g.id ≤ id
        omega
      · rw [mem_singleton.mp hg]
        exact Int.le_refl _
  | saved requester input value now revision actor row policy hrow =>
    refine ⟨?_, husers _ _ _, fun m hm => ?_, hreplace row hrow _ rfl⟩
    · rw [Table.map_replace]
      exact hdb.groupIds
    · rw [Table.map_replace]
      exact hdb.memberships m hm
  | membersChanged requester input action now revision actor row ids userGroups hrow hscope hguest
      hself hprimary hscoped hids hmembers =>
      refine ⟨?_, husers _ _ _, fun m hm => ?_, hreplace row hrow _ rfl⟩
      · rw [Table.map_replace]
        exact hdb.groupIds
      · rw [Table.map_replace]
        by_cases hid : m.groupId = row.id
        · exact mem_map.mpr ⟨row, hrow, hid.symm⟩
        · exact hdb.memberships m ((hmembers m (.inl hid)).mp hm)
  | removed requester input now revision actor row =>
    refine ⟨(filter_sublist.map _).nodup hdb.groupIds, husers _ _ _, fun m hm => ?_,
      fun g hg => hdb.serial g (mem_filter.mp hg).1⟩
    obtain ⟨hm, hne⟩ := mem_filter.mp hm
    obtain ⟨g, hg, heq⟩ := mem_map.mp (hdb.memberships m hm)
    exact mem_map.mpr ⟨g, mem_filter.mpr ⟨hg, heq ▸ hne⟩, heq⟩

/-- A group that the call has written has the revision of the call. -/
theorem Changed.revisions (h : Changed around db op actor db') :
    ∀ g ∈ db'.groups, g.adminRevision = op.revision ∨ (g ∈ db.groups ∧ op.reviewed.map Prod.fst ≠ some g.id) := by
  intro g hg
  cases h with
  | created requester input id now revision actor policy =>
    rcases mem_append.mp hg with hg | hg
    · exact .inr ⟨hg, nofun⟩
    · rw [mem_singleton.mp hg]
      exact .inl rfl
  | saved | membersChanged =>
    rcases Table.mem_replace Row.id hg with rfl | ⟨hg, hne⟩
    · exact .inl rfl
    · exact .inr ⟨hg, fun heq => hne (Option.some.inj heq).symm⟩
  | removed requester input now revision actor row hrow =>
    obtain ⟨hg, hne⟩ := mem_filter.mp hg
    exact .inr ⟨hg, fun heq => of_decide_eq_true hne (Option.some.inj heq).symm⟩

/-- The version of a committed review is gone. -/
structure Spent (around : Around η) (s : State η) (review : Int × Option η) : Prop where
  serial : review.1 ≤ s.serial
  version : ∃ content : Fingerprint, review.2 = some (around.hash content)
    ∧ content.row.adminRevision ∈ s.issued
    ∧ ∀ g ∈ s.db.groups, g.id = review.1 → g.adminRevision ≠ content.row.adminRevision

structure Sound (around : Around η) (s : State η) : Prop where
  db : s.db.Sound s.serial
  issued : ∀ g ∈ s.db.groups, g.adminRevision ∈ s.issued
  committed : s.committed.Nodup
  spent : ∀ review ∈ s.committed, Spent around s review

/-- No call has been committed yet. -/
structure Initial (s : State η) : Prop where
  db : s.db.Sound s.serial
  issued : ∀ g ∈ s.db.groups, g.adminRevision ∈ s.issued
  committed : s.committed = []

variable {s : State η}

theorem Initial.sound (h : Initial s) : Sound around s := by
  refine ⟨h.db, h.issued, ?_, ?_⟩
  · rw [h.committed]
    exact nodup_nil
  · rw [h.committed]
    nofun

/-- A version that is reviewed has not been spent. -/
theorem Spent.fresh (hhash : Injective around.hash) {review : Int × Option η} (h : Spent around s review) {row : Row}
    (hrow : row ∈ s.db.groups) (hid : row.id = review.1) : review.2 ≠ some (around.hash (s.db.fingerprint row)) := by
  obtain ⟨content, hcontent, -, hgone⟩ := h.version
  rw [hcontent]
  intro heq
  obtain rfl := hhash (Option.some.inj heq)
  exact hgone row hrow hid rfl

variable [DecidableEq η]

theorem Sound.step (hhash : Injective around.hash) (hs : Sound around s)
    (hop : enabled op s) : Sound around (exec around op s) := by
  unfold exec
  split
  · rename_i db answer hrun
    obtain ⟨actor, hactor, hchanged, hreviewed⟩ := run_ok hs.db.groupIds hs.db.userIds hrun
    have hserial : s.serial ≤ op.created.getD s.serial := by
      cases hcreated : op.created with
      | none => exact Int.le_refl _
      | some id => exact Int.le_of_lt (hop.2 id hcreated)
    have hgone : ∀ review : Int × Option η, Spent around s review →
        Spent around ⟨db, op.created.getD s.serial, op.revision :: s.issued,
          op.reviewed.toList ++ s.committed⟩ review := by
      rintro review ⟨hle, content, hcontent, hissued, hother⟩
      refine ⟨hle.trans hserial, content, hcontent, mem_cons_of_mem _ hissued, ?_⟩
      intro g hg hid heq
      rcases hchanged.revisions g hg with hrevision | ⟨hg, -⟩
      · rw [← heq, hrevision] at hissued
        exact hop.1 hissued
      · exact hother g hg hid heq
    refine ⟨hchanged.sound hs.db hop.2, ?_, ?_, ?_⟩
    · intro g hg
      rcases hchanged.revisions g hg with hrevision | ⟨hg, -⟩
      · rw [hrevision]
        exact mem_cons_self
      · exact mem_cons_of_mem _ (hs.issued g hg)
    · cases hreview : op.reviewed with
      | none => exact hs.committed
      | some review =>
        refine nodup_cons.mpr ⟨fun hmem => ?_, hs.committed⟩
        obtain ⟨row, hrow, hid, hversion⟩ := hreviewed review hreview
        exact (hs.spent review hmem).fresh hhash hrow hid hversion
    · intro review hmem
      rcases mem_append.mp hmem with hmem | hmem
      · have hreview := Option.mem_toList.mp hmem
        obtain ⟨row, hrow, hid, hversion⟩ := hreviewed review hreview
        refine ⟨hid ▸ (hs.db.serial row hrow).trans hserial, s.db.fingerprint row, hversion,
          mem_cons_of_mem _ (hs.issued row hrow), ?_⟩
        intro g hg hgid heq
        rcases hchanged.revisions g hg with hrevision | ⟨-, hother⟩
        · have hissued := hs.issued row hrow
          have hsame : op.revision = row.adminRevision := hrevision.symm.trans heq
          rw [← hsame] at hissued
          exact hop.1 hissued
        · rw [Option.mem_def.mp hreview] at hother
          exact hother (congrArg some hgid.symm)
      · exact hgone review (hs.spent review hmem)
  · exact hs

/-- Either nothing has changed, or what has is described. -/
theorem Sound.changed (hs : Sound around s) {caller : Actor} (hactor : op.actor s.db = .ok caller) :
    (exec around op s).db = s.db ∨ Changed around s.db op caller (exec around op s).db := by
  unfold exec
  split
  · rename_i db answer hrun
    obtain ⟨actor, hactor', hchanged, -⟩ := run_ok hs.db.groupIds hs.db.userIds hrun
    rw [hactor] at hactor'
    cases hactor'
    exact .inr hchanged
  · exact .inl rfl

/-- **Group administration.** A caller without full system administration changes nothing
outside its scope, page rules that name such permissions left alone; the caller, Guest, the
primary administrator and the protected groups stay; whoever may do something else than before
has a larger session version; and a reviewed version is used once. -/
theorem group_administration (around : Around η) (hhash : Injective around.hash)
    {s₀ s : State η} (h₀ : Initial s₀) (h : (machine around).Reachable s₀ s) :
    (∀ op caller, enabled op s → op.actor s.db = .ok caller →
      let db' := (exec around op s).db
      (caller.system = false → ∀ q, groupAuthorityAllows caller.permissions [q] = false →
        ∀ userId, (q ∈ s.db.permissionsOf userId ↔ q ∈ db'.permissionsOf userId)
          ∧ (RulesKept around s.db op caller → ∀ regExpTest aliases page collectTrace,
              db'.access regExpTest aliases page collectTrace userId q
                = s.db.access regExpTest aliases page collectTrace userId q))
      ∧ (∀ m : Membership, m.userId = 2 ∨ caller.id = some m.userId →
          (m ∈ db'.userGroups ↔ m ∈ s.db.userGroups ∧ m.groupId ∈ db'.groups.map Row.id))
      ∧ ((⟨1, 1⟩ : Membership) ∈ s.db.userGroups → (⟨1, 1⟩ : Membership) ∈ db'.userGroups)
      ∧ (∀ g ∈ s.db.groups, g.guarded = true → ∃ g' ∈ db'.groups, Guarded g g')
      ∧ ∀ u ∈ s.db.users, SameAuthority (s.db.groupsOf u.id) (db'.groupsOf u.id)
          ∨ ∃ u' ∈ db'.users, u'.id = u.id ∧ u.authVersion < u'.authVersion)
    ∧ s.committed.Nodup := by
  have hstart : Sound around s₀ := h₀.sound
  have hs : Sound around s := h.invariant hstart fun op s hop hs => hs.step hhash hop
  refine ⟨fun op caller hop hactor => ?_, hs.committed⟩
  dsimp only
  rcases hs.changed hactor with hsame | hchanged
  · rw [hsame]
    refine ⟨fun _ q _ userId => ⟨Iff.rfl, fun _ _ _ _ _ => rfl⟩, fun m _ => ?_, fun hm => hm, ?_, ?_⟩
    · exact (and_iff_left_of_imp fun hm => hs.db.memberships m hm).symm
    · exact fun g hg _ => ⟨g, hg, rfl, rfl, rfl, fun _ => .rfl⟩
    · exact fun u _ => .inl (.refl _)
  · refine ⟨fun hsystem q hq userId => ⟨hchanged.permissions hs.db hop.2 hq userId, ?_⟩,
      hchanged.memberships hs.db.memberships, hchanged.primary,
      hchanged.guarded hs.db.groupIds, hchanged.sessions hs.db hop.2⟩
    exact fun hkept => hchanged.access hs.db hop.2 hsystem hkept hq userId

/-! ## A steward

Account 4 may manage content groups. Account 6 is a reader and writes scripts under `lab`. -/

def exampleAround : Around Fingerprint where
  parseUrl _ := some ⟨js "https:", [], []⟩
  safeRegex _ := true
  lower text := text
  hash content := content
  createHash options := ⟨⟨0, [], [], [], [], [], false, [], 0⟩, [], options.map fun o => (o.1, o.2.1, o.2.2, false)⟩

def exampleRule (id path role : String) : AccessRule :=
  ⟨some (js id), .SUBTREE, js path, false, [js role], some []⟩

def exampleGroup (id : Int) (name permission : String) (rules : List AccessRule) : Row :=
  ⟨id, js name, [], js "/", [js permission], rules, id ≤ 2, js name, 0⟩

def exampleAccount (id : Int) : Account := ⟨id, true, 0, id ≤ 2, [], none⟩

def exampleStart : State Fingerprint where
  db :=
    { groups := [exampleGroup 1 "Administrators" "manage:system" [],
        exampleGroup 2 "Guests" "read:pages" [],
        exampleGroup 3 "Readers" "read:pages" [exampleRule "all" "" "read:pages"],
        exampleGroup 4 "Stewards" "write:groups" [],
        exampleGroup 5 "Script authors" "write:scripts" [exampleRule "lab" "lab" "write:scripts"]]
      users := [1, 2, 4, 6].map exampleAccount
      userGroups := [⟨1, 1⟩, ⟨2, 2⟩, ⟨4, 4⟩, ⟨4, 3⟩, ⟨6, 3⟩, ⟨6, 5⟩] }
  serial := 5
  issued := ["Administrators", "Guests", "Readers", "Stewards", "Script authors"].map js
  committed := []

def exampleSteward : Requester := ⟨some 4, none, some 0, none⟩

/-- The review of group 3 in the first state. -/
def exampleReview (userIds : Option (List Int)) : MutateInput Fingerprint :=
  ⟨js "Reviewed", some (exampleStart.db.fingerprint
    (exampleGroup 3 "Readers" "read:pages" [exampleRule "all" "" "read:pages"])), userIds⟩

def exampleRuleInput (id path role : String) : RuleInput :=
  ⟨js id, some .SUBTREE, js path, some false, [js role], none⟩

/-- The policy of group 3 with one more rule. -/
def examplePolicy : PolicyInput :=
  ⟨js "Readers", none, js "/", [js "read:pages"],
    [exampleRuleInput "all" "" "read:pages", exampleRuleInput "more" "" "write:scripts"]⟩

def exampleSave : Op Fingerprint :=
  .savePolicy (some exampleSteward) 3 (exampleReview none) examplePolicy 7 (js "r1")

def exampleRemove : Op Fingerprint :=
  .remove (some exampleSteward) 3 (exampleReview none) false 7 (js "r1")

def exampleHome : AccessPage := ⟨js "home", none, none⟩

theorem exampleStart_initial : Initial exampleStart :=
  ⟨⟨by decide, by decide, by decide, by decide⟩,
    by decide, rfl⟩

theorem group_administration_example :
    let s := (machine exampleAround).after [exampleRemove] exampleStart
    s.db.groups.map Row.id = [1, 2, 4, 5] ∧ s.committed.length = 1 ∧ s.committed.Nodup ∧
      (js "write:scripts" ∈ s.db.permissionsOf 6) ∧
      (∀ page, s.db.access (fun _ _ => none) (fun _ => none) page false 6 (js "write:scripts") =
        exampleStart.db.access (fun _ _ => none) (fun _ => none) page false 6 (js "write:scripts")) ∧
      ∀ g ∈ exampleStart.db.groups, g.guarded = true → ∃ g' ∈ s.db.groups, Guarded g g' := by
  intro s
  have hrun : ∀ ops, (machine exampleAround).Valid ops exampleStart →
      (machine exampleAround).Reachable exampleStart ((machine exampleAround).after ops exampleStart) :=
    fun ops hops => ⟨ops, hops, rfl⟩
  have hhash : Injective exampleAround.hash := fun _ _ heq => heq
  obtain ⟨hsteps, -⟩ := group_administration exampleAround hhash exampleStart_initial (hrun [] trivial)
  obtain ⟨hscope, -, -, hguarded, hsessions⟩ :=
    hsteps exampleRemove ⟨some 4, [js "read:pages", js "write:groups"]⟩ (by decide) (by decide)
  obtain ⟨hpermission, haccess⟩ := hscope (by decide) (js "write:scripts") (by decide) 6
  have hkept : RulesKept exampleAround exampleStart.db exampleRemove
      ⟨some 4, [js "read:pages", js "write:groups"]⟩ := by
    have h : ∀ row ∈ exampleStart.db.groups, exampleRemove.reviewed.map Prod.fst = some row.id →
        ∀ userId ∈ exampleStart.db.membersOf row.id, ∀ q ∈ exampleStart.db.permissionsOf userId,
          groupAuthorityAllows [js "read:pages", js "write:groups"] [q] = false →
            ruleEffects q row.pageRules = ruleEffects q (exampleRemove.rulesAfter exampleAround row) := by
      decide
    exact fun row hrow hid userId huser q hq hscope _ e => by rw [h row hrow hid userId huser q hq hscope]
  refine ⟨by decide, by decide, ?_, hpermission.mp (by decide), fun page => haccess hkept _ _ page false, hguarded⟩
  exact (group_administration exampleAround hhash exampleStart_initial (hrun [exampleRemove] (by decide))).2

/-- The steward lets account 6 write scripts on every page, and leaves group 3 by deleting it. -/
theorem steward_escalates :
    Initial exampleStart ∧ enabled exampleSave exampleStart ∧ enabled exampleRemove exampleStart
    ∧ (∃ caller, exampleSave.actor exampleStart.db = .ok caller ∧ caller.system = false
      ∧ groupAuthorityAllows caller.permissions [js "write:scripts"] = false)
    ∧ exampleStart.db.access (fun _ _ => none) (fun _ => none) (some exampleHome) false 6
        (js "write:scripts") = false
    ∧ (exec exampleAround exampleSave exampleStart).db.access (fun _ _ => none) (fun _ => none)
        (some exampleHome) false 6 (js "write:scripts") = true
    ∧ (⟨4, 3⟩ : Membership) ∈ exampleStart.db.userGroups
    ∧ (⟨4, 3⟩ : Membership) ∉ (exec exampleAround exampleRemove exampleStart).db.userGroups := by
  refine ⟨exampleStart_initial, ?_, ?_, ⟨⟨some 4, [js "read:pages", js "write:groups"]⟩, ?_, ?_, ?_⟩,
    ?_, ?_, ?_, ?_⟩ <;> decide

end TsEpistle.Groups
