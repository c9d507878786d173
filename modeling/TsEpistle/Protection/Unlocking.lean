import TsEpistle.Protection.Grants

/-! Unlock soundness. A grant names the password it was given for by a version that
starts again when the protection is removed and set anew, so a grant inserted late
may count for another password. Where none is, whoever is let in has set the
password in force or has supplied it. -/

namespace TsEpistle.Protection
open Library Checked List Option

variable {Hash : Type} {bcrypt : Bcrypt Hash} {s s' : State Hash}

/-- The check still has to look for its grant, of this version. -/
def Check.seeks (call : Check Hash) (version : Nat) : Prop :=
  match call.stage with
  | .cleaning v _ | .finding v _ => v = version
  | .reading | .answered .. => False

instance (call : Check Hash) (version : Nat) : Decidable (call.seeks version) := by
  unfold Check.seeks
  split <;> infer_instance

/-- When `unlockPage` inserts its grant, the password it has compared matches the hash in
force; or the version in force is another one, and no check of the same user and session has
yet to look for a grant of the version that was read. -/
def Current (bcrypt : Bcrypt Hash) (op : Op Hash) (s : State Hash) : Prop :=
  match op with
  | .unlockStep id _ => ∀ call ∈ s.unlock id, match call.stage with
    | .inserting version _ => ∀ row ∈ s.db.protection,
        bcrypt.compare call.password row.passwordHash = true
        ∨ (row.version ≠ version ∧ ∀ check ∈ s.checks, check.sessionId = call.sessionId →
            check.requester.principalId = call.userId → ¬check.seeks version)
    | _ => True
  | _ => True

/-- The user has set the row, or supplied its password, in this session, and a grant of that
moment had not expired by `now`. -/
def Unlocked (bcrypt : Bcrypt Hash) (events : List (Event Hash)) (userId : Option Int)
    (sessionId : JsString) (now time : Time) (row : ProtectionRow Hash) : Prop :=
  ∃ then', then' ≤ time ∧ now < then' + GRANT_LIFETIME_MS
    ∧ (.set userId sessionId row then' ∈ events
      ∨ ∃ password, .supplied userId sessionId password then' ∈ events
        ∧ bcrypt.compare password row.passwordHash = true)

/-- What stands behind a grant. -/
def Backed (bcrypt : Bcrypt Hash) (s : State Hash) (grant : UnlockGrant)
    (row : ProtectionRow Hash) : Prop :=
  ∃ time, time ≤ s.clock ∧ grant.expiresAt = time + GRANT_LIFETIME_MS
    ∧ (.set grant.userId grant.sessionId row time ∈ s.events
      ∨ ∃ password, .supplied grant.userId grant.sessionId password time ∈ s.events
        ∧ bcrypt.compare password row.passwordHash = true)

/-- Time goes on and events are kept. -/
structure Later (s s' : State Hash) : Prop where
  clock : s.clock ≤ s'.clock
  events : s.events ⊆ s'.events

variable {row : ProtectionRow Hash}

theorem Backed.mono {grant : UnlockGrant} (h : Backed bcrypt s grant row) (hlater : Later s s') :
    Backed bcrypt s' grant row := by
  obtain ⟨time, htime, hexpires, hset | ⟨password, hsupplied, hcompare⟩⟩ := h
  · exact ⟨time, htime.trans hlater.clock, hexpires, .inl (hlater.events hset)⟩
  · exact ⟨time, htime.trans hlater.clock, hexpires, .inr ⟨password, hlater.events hsupplied, hcompare⟩⟩

theorem Backed.unlocked {grant : UnlockGrant} (h : Backed bcrypt s grant row) {now : Time}
    (hnow : now < grant.expiresAt) : Unlocked bcrypt s.events grant.userId grant.sessionId now s.clock row := by
  obtain ⟨time, htime, hexpires, hevent⟩ := h
  exact ⟨time, htime, hexpires ▸ hnow, hevent⟩

theorem Unlocked.mono {events events' : List (Event Hash)} {userId : Option Int} {sessionId : JsString}
    {now time : Time} (h : Unlocked bcrypt events userId sessionId now time row) (hevents : events ⊆ events') :
    Unlocked bcrypt events' userId sessionId now time row := by
  obtain ⟨time', htime, hnow, hset | ⟨password, hsupplied, hcompare⟩⟩ := h
  · exact ⟨time', htime, hnow, .inl (hevents hset)⟩
  · exact ⟨time', htime, hnow, .inr ⟨password, hevents hsupplied, hcompare⟩⟩

structure Check.Sound (bcrypt : Bcrypt Hash) (s : State Hash) (call : Check Hash) : Prop where
  seeking : ∀ version, call.seeks version → ∀ grant ∈ s.db.grants,
    grant.sessionId = call.sessionId → grant.userId = call.requester.principalId →
    grant.passwordVersion = version → ∀ row ∈ s.db.protection, Backed bcrypt s grant row
  answered : ∀ now time row, call.stage = .answered false now time (some row) →
    call.requester.managesSystem = false →
    Unlocked bcrypt s.events call.requester.principalId call.sessionId now time row

/-- When the call has found its password to be right. -/
def Unlock.compared (call : Unlock Hash) : Option Time :=
  match call.stage with
  | .deleting _ now | .inserting _ now => some now
  | .reading | .comparing _ | .ended _ => none

/-- The password of a call that is to get its grant has been supplied. -/
def Unlock.Sound (s : State Hash) (call : Unlock Hash) : Prop :=
  ∀ now ∈ call.compared, now ≤ s.clock ∧ .supplied call.userId call.sessionId call.password now ∈ s.events

structure Sound (bcrypt : Bcrypt Hash) (s : State Hash) : Prop where
  /-- Grants go with a protection, and those of its version are for its password. -/
  grants : ∀ grant ∈ s.db.grants, ∃ row, s.db.protection = some row
    ∧ (grant.passwordVersion = row.version → Backed bcrypt s grant row)
  checks : ∀ call ∈ s.checks, call.Sound bcrypt s
  unlocks : ∀ call ∈ s.unlocks, call.Sound s

/-- The change of a step to the rows: a grant and a protection that it leaves stood together
before it, or the grant is good for the protection. -/
def Keeps (bcrypt : Bcrypt Hash) (s s' : State Hash) : Prop :=
  ∀ grant ∈ s'.db.grants, ∃ row, s'.db.protection = some row
    ∧ ((grant ∈ s.db.grants ∧ s.db.protection = some row) ∨ Backed bcrypt s' grant row)

theorem Sound.kept (hs : Sound bcrypt s) (hkeeps : Keeps bcrypt s s') (hlater : Later s s') : ∀ grant ∈ s'.db.grants,
    ∃ row, s'.db.protection = some row ∧ (grant.passwordVersion = row.version → Backed bcrypt s' grant row) := by
  intro grant hgrant
  obtain ⟨row, hrow, ⟨hold, hrow'⟩ | hbacked⟩ := hkeeps grant hgrant
  · obtain ⟨row', hprotection, hbacked⟩ := hs.grants grant hold
    rw [hrow'] at hprotection
    cases hprotection
    exact ⟨row, hrow, fun h => (hbacked h).mono hlater⟩
  · exact ⟨row, hrow, fun _ => hbacked⟩

theorem Check.Sound.mono {call : Check Hash} (h : call.Sound bcrypt s)
    (hkeeps : Keeps bcrypt s s') (hlater : Later s s') : call.Sound bcrypt s' where
  seeking := by
    intro version hseeks grant hgrant hsession huser hversion row hrow
    obtain ⟨row', hrow', ⟨hold, hprotection⟩ | hbacked⟩ := hkeeps grant hgrant
    · rw [show s'.db.protection = some row from hrow] at hrow'
      cases hrow'
      exact (h.seeking version hseeks grant hold hsession huser hversion row hprotection).mono hlater
    · rw [show s'.db.protection = some row from hrow] at hrow'
      cases hrow'
      exact hbacked
  answered := fun now time row hstage hmanages =>
    (h.answered now time row hstage hmanages).mono hlater.events

theorem Unlock.Sound.mono {call : Unlock Hash} (h : call.Sound s) (hlater : Later s s') : call.Sound s' := by
  intro now hnow
  exact ⟨(h now hnow).1.trans hlater.clock, hlater.events (h now hnow).2⟩

/-- **Step rule.** -/
theorem Sound.step (hs : Sound bcrypt s) (hkeeps : Keeps bcrypt s s') (hlater : Later s s')
    (hchecks : ∀ call ∈ s'.checks, call ∈ s.checks ∨ call.Sound bcrypt s')
    (hunlocks : ∀ call ∈ s'.unlocks, call ∈ s.unlocks ∨ call.Sound s') : Sound bcrypt s' where
  grants := hs.kept hkeeps hlater
  checks := by
    intro call hcall
    rcases hchecks call hcall with hold | hnew
    · exact (hs.checks call hold).mono hkeeps hlater
    · exact hnew
  unlocks := by
    intro call hcall
    rcases hunlocks call hcall with hold | hnew
    · exact (hs.unlocks call hold).mono hlater
    · exact hnew

theorem Keeps.of_subset (hs : Sound bcrypt s) (hgrants : s'.db.grants ⊆ s.db.grants)
    (hprotection : s'.db.protection = s.db.protection) : Keeps bcrypt s s' := by
  intro grant hgrant
  obtain ⟨row, hrow, -⟩ := hs.grants grant (hgrants hgrant)
  exact ⟨row, hprotection.trans hrow, .inl ⟨hgrants hgrant, hrow⟩⟩

theorem Keeps.of_empty (hgrants : s'.db.grants = []) : Keeps bcrypt s s' := by
  intro grant hgrant
  rw [hgrants] at hgrant
  cases hgrant

theorem grants_of_unprotected (hs : Sound bcrypt s) (h : s.db.protection = none) : s.db.grants = [] := by
  refine eq_nil_iff_forall_not_mem.mpr fun grant hgrant => ?_
  obtain ⟨row, hrow, -⟩ := hs.grants grant hgrant
  rw [h] at hrow
  cases hrow

theorem deleteProtection_grants (hs : Sound bcrypt s) : s.db.deleteProtection.grants = [] := by
  cases hprotection : s.db.protection with
  | none => simpa [Database.deleteProtection, hprotection] using grants_of_unprotected hs hprotection
  | some row => simp [Database.deleteProtection, hprotection]

/-! ## Transactions -/

variable {db db' : Database Hash}

theorem insertGrant_ok {grant : UnlockGrant} (h : db.insertGrant grant = .ok db') :
    db.protection.isSome ∧ db' = { db with grants := db.grants ++ [grant] } := by
  unfold Database.insertGrant at h
  split at h
  · cases h
  · split at h
    · cases h
    · cases h
      rename_i hsome _
      exact ⟨by simpa [isSome_iff_ne_none] using hsome, rfl⟩

theorem setPageProtection_ok {input : SetInput Hash}
    (h : setPageProtection db input = .ok (row, db')) :
    db'.protection = some row
    ∧ db'.grants = (if db.protection.isSome then [] else db.grants)
      ++ [.make input.sessionId input.requester.principalId row.version input.now] := by
  obtain ⟨userId, huser, h⟩ := bind_ok h
  obtain ⟨_, -, h⟩ := bind_ok h
  obtain ⟨_, -, h⟩ := bind_ok h
  obtain ⟨_, -, h⟩ := bind_ok h
  obtain ⟨inserted, hinsert, h⟩ := bind_ok h
  obtain ⟨-, rfl⟩ := insertGrant_ok hinsert
  cases h
  have hid : input.requester.principalId = some userId := by
    unfold authenticatedId at huser
    split at huser
    · cases huser
    · rename_i id hid
      split at huser
      · cases huser
      · cases huser
        exact hid
  exact ⟨rfl, by rw [hid]⟩

theorem removePageProtection_ok {canWrite : Bool} (h : removePageProtection db canWrite = .ok db') :
    db' = db.deleteProtection := by
  obtain ⟨_, -, h⟩ := bind_ok h
  cases h
  rfl

theorem deletePage_ok {canDelete : Bool} (h : deletePage db canDelete = .ok db') :
    db'.grants = db.deleteProtection.grants := by
  obtain ⟨_, -, h⟩ := bind_ok h
  obtain ⟨_, -, h⟩ := bind_ok h
  cases h
  rfl

theorem restoreDeletedPage_ok {input : RestoreInput} (h : restoreDeletedPage db input = .ok db') : db'.grants = [] := by
  obtain ⟨_, -, h⟩ := bind_ok h
  obtain ⟨_, -, h⟩ := bind_ok h
  obtain ⟨_, -, h⟩ := bind_ok h
  cases h
  rfl

/-! ## Steps -/

theorem unlock_mem {id : Nat} {call : Unlock Hash} (h : s.unlock id = some call) : call ∈ s.unlocks :=
  (Table.get_mem Unlock.id h).1

theorem check_mem {id : Nat} {call : Check Hash} (h : s.check id = some call) : call ∈ s.checks :=
  (Table.get_mem Check.id h).1

theorem Later.refl (s : State Hash) : Later s s := ⟨Nat.le_refl _, fun _ h => h⟩

/-- A call of `unlockPage` goes on, and the rows change as `Keeps` says. -/
theorem Sound.putUnlock {call : Unlock Hash} {stage : UnlockStage Hash} (hs : Sound bcrypt s)
    (hkeeps : Keeps bcrypt s s') (hlater : Later s s') (hchecks : s'.checks = s.checks)
    (hunlocks : s'.unlocks = s.unlocks) (hnew : ({ call with stage } : Unlock Hash).Sound s') :
    Sound bcrypt (s'.putUnlock call stage) := by
  have hkeeps' : Keeps bcrypt s (s'.putUnlock call stage) := hkeeps
  refine hs.step hkeeps' ⟨hlater.clock, hlater.events⟩ ?_ ?_
  · intro c hc
    exact .inl (hchecks ▸ hc)
  · intro c hc
    rcases Table.mem_replace Unlock.id hc with hrow | ⟨hc, -⟩
    · rw [hrow]
      exact .inr hnew
    · exact .inl (hunlocks ▸ hc)

theorem Sound.unlockStep {id : Nat} {call : Unlock Hash} {canRead : Bool} (hs : Sound bcrypt s)
    (hcall : s.unlock id = some call) (hcurrent : Current bcrypt (.unlockStep id canRead) s) :
    Sound bcrypt (unlockStep bcrypt s call canRead) := by
  have hsound := hs.unlocks call (unlock_mem hcall)
  have hsame : Keeps bcrypt s s := Keeps.of_subset hs (fun _ h => h) rfl
  cases hstage : call.stage with
  | reading =>
    simp only [Protection.unlockStep, hstage]
    exact hs.putUnlock hsame (.refl s) rfl rfl nofun
  | comparing protection =>
    simp only [Protection.unlockStep, hstage]
    have hlater : Later s { s with
        events := .supplied call.userId call.sessionId call.password s.clock :: s.events } :=
      ⟨Nat.le_refl _, subset_cons_self _ _⟩
    have hkeeps : Keeps bcrypt s { s with
        events := .supplied call.userId call.sessionId call.password s.clock :: s.events } :=
      Keeps.of_subset hs (fun _ h => h) rfl
    split
    · exact hs.putUnlock hkeeps hlater rfl rfl nofun
    · split
      · exact hs.putUnlock hkeeps hlater rfl rfl nofun
      · refine hs.putUnlock hkeeps hlater rfl rfl ?_
        intro now hnow
        cases hnow
        exact ⟨Nat.le_refl _, mem_cons_self⟩
  | deleting version now =>
    simp only [Protection.unlockStep, hstage]
    refine hs.putUnlock (Keeps.of_subset hs ?_ rfl) ⟨Nat.le_refl _, fun _ h => h⟩ rfl rfl ?_
    · exact fun grant hgrant => (mem_filter.mp hgrant).1
    · intro now' hnow'
      exact hsound now' (by simpa [Unlock.compared, hstage] using hnow')
  | inserting version now =>
    simp only [Protection.unlockStep, hstage]
    split
    · exact hs.putUnlock hsame (.refl s) rfl rfl nofun
    · rename_i db hinsert
      obtain ⟨hprotected, rfl⟩ := insertGrant_ok hinsert
      obtain ⟨row, hrow⟩ := isSome_iff_exists.mp hprotected
      obtain ⟨hnow, hsupplied⟩ := hsound now (by simp [Unlock.compared, hstage])
      have hcases := hcurrent call hcall
      simp only [hstage] at hcases
      have hbacked : bcrypt.compare call.password row.passwordHash = true →
          Backed bcrypt s (.make call.sessionId call.userId version now) row := fun hcompare =>
        ⟨now, hnow, rfl, .inr ⟨call.password, hsupplied, hcompare⟩⟩
      refine ⟨?_, ?_, ?_⟩
      · refine forall_mem_append.mpr ⟨hs.grants, forall_mem_singleton.mpr ?_⟩
        refine ⟨row, hrow, fun hversion => ?_⟩
        rcases hcases row hrow with hcompare | ⟨hne, -⟩
        · exact hbacked hcompare
        · exact absurd hversion.symm hne
      · intro check hcheck
        refine ⟨fun v hseeks grant hgrant hsession huser hversion row' hrow' => ?_, (hs.checks check hcheck).answered⟩
        rcases mem_append.mp hgrant with hgrant | hgrant
        · exact (hs.checks check hcheck).seeking v hseeks grant hgrant hsession huser hversion row' hrow'
        · obtain rfl := mem_singleton.mp hgrant
          rcases hcases row' hrow' with hcompare | ⟨-, hnone⟩
          · exact ⟨now, hnow, rfl, .inr ⟨call.password, hsupplied, hcompare⟩⟩
          · cases hversion
            exact absurd hseeks (hnone check hcheck hsession.symm huser.symm)
      · intro c hc
        rcases Table.mem_replace Unlock.id hc with hrow | ⟨hc, -⟩
        · rw [hrow]
          exact nofun
        · exact hs.unlocks c hc
  | ended _ => simpa [Protection.unlockStep, hstage] using hs

/-- A call of `pageRequiresUnlock` goes on. -/
theorem Sound.putCheck {call : Check Hash} {stage : CheckStage Hash} (hs : Sound bcrypt s) (hkeeps : Keeps bcrypt s s')
    (hlater : Later s s') (hchecks : s'.checks = s.checks) (hunlocks : s'.unlocks = s.unlocks)
    (hnew : ({ call with stage } : Check Hash).Sound bcrypt s') : Sound bcrypt (s'.putCheck call stage) := by
  have hkeeps' : Keeps bcrypt s (s'.putCheck call stage) := hkeeps
  refine hs.step hkeeps' ⟨hlater.clock, hlater.events⟩ ?_ ?_
  · intro c hc
    rcases Table.mem_replace Check.id hc with hrow | ⟨hc, -⟩
    · rw [hrow]
      exact .inr ⟨hnew.seeking, hnew.answered⟩
    · exact .inl (hchecks ▸ hc)
  · intro c hc
    exact .inl (hunlocks ▸ hc)

theorem Sound.checkStep {id : Nat} {call : Check Hash} (hs : Sound bcrypt s)
    (hcall : s.check id = some call) : Sound bcrypt (checkStep s call) := by
  have hsound := hs.checks call (check_mem hcall)
  have hsame : Keeps bcrypt s s := Keeps.of_subset hs (fun _ h => h) rfl
  cases hstage : call.stage with
  | reading =>
    simp only [Protection.checkStep, hstage]
    split
    · rename_i hmanages
      refine hs.putCheck hsame (.refl s) rfl rfl ⟨nofun, ?_⟩
      intro now time row _ hnot
      rw [hmanages] at hnot
      cases hnot
    · split
      · exact hs.putCheck hsame (.refl s) rfl rfl ⟨nofun, nofun⟩
      · rename_i row hrow
        refine hs.putCheck hsame (.refl s) rfl rfl ⟨?_, nofun⟩
        intro version hseeks grant hgrant _ _ hversion row' hrow'
        cases hseeks
        obtain ⟨row'', hrow'', hbacked⟩ := hs.grants grant hgrant
        rw [hrow] at hrow' hrow''
        cases hrow'
        cases hrow''
        exact hbacked hversion
  | cleaning version now =>
    simp only [Protection.checkStep, hstage]
    generalize hgrants : (if call.readOnly = true then s.db.grants
      else s.db.grants.filter fun grant =>
        !(grant.sessionId = call.sessionId && decide (grant.expiresAt ≤ now))) = grants
    have hsubset : grants ⊆ s.db.grants := by
      intro grant hgrant
      rw [← hgrants] at hgrant
      split at hgrant
      · exact hgrant
      · exact (mem_filter.mp hgrant).1
    have hkeeps : Keeps bcrypt s { s with db.grants := grants } := Keeps.of_subset hs hsubset rfl
    have hlater : Later s { s with db.grants := grants } := ⟨Nat.le_refl _, fun _ h => h⟩
    split
    · exact hs.putCheck hkeeps hlater rfl rfl ⟨nofun, nofun⟩
    · refine hs.putCheck hkeeps hlater rfl rfl ⟨?_, nofun⟩
      intro v hseeks grant hgrant
      have hseeks' : call.seeks v := by
        unfold Check.seeks
        rw [hstage]
        exact hseeks
      exact hsound.seeking v hseeks' grant (hsubset hgrant)
  | finding version now =>
    simp only [Protection.checkStep, hstage]
    refine hs.putCheck hsame (.refl s) rfl rfl ⟨nofun, ?_⟩
    intro now' time row hanswered _
    generalize hfind : s.db.grants.find? _ = found at hanswered
    cases found with
    | none => cases hanswered
    | some grant =>
      obtain ⟨rfl, rfl, hrow⟩ : now = now' ∧ s.clock = time ∧ s.db.protection = some row := by
        simpa using hanswered
      have hmem := mem_of_find?_eq_some hfind
      have hgrant := find?_some hfind
      simp only [Bool.and_eq_true, decide_eq_true_eq] at hgrant
      obtain ⟨⟨⟨hsession, huser⟩, hversion⟩, hexpires⟩ := hgrant
      have hseeks : call.seeks version := by
        unfold Check.seeks
        rw [hstage]
      have hbacked := hsound.seeking version hseeks grant hmem hsession huser hversion row hrow
      have := hbacked.unlocked hexpires
      rwa [hsession, huser] at this
  | answered _ _ _ _ => simpa [Protection.checkStep, hstage] using hs

theorem Sound.exec {op : Op Hash} (hs : Sound bcrypt s) (hop : enabled bcrypt op s)
    (hcurrent : Current bcrypt op s) : Sound bcrypt (exec bcrypt op s) := by
  cases op with
  | setPageProtection input =>
    simp only [Protection.exec]
    split
    · exact hs
    · rename_i row db hset
      obtain ⟨hrow, hgrants⟩ := setPageProtection_ok hset
      have hcleared : (if s.db.protection.isSome then [] else s.db.grants) = [] := by
        split
        · rfl
        · rename_i hnone
          exact grants_of_unprotected hs (by simpa using hnone)
      rw [hcleared, nil_append] at hgrants
      refine hs.step (fun grant hgrant => ⟨row, hrow, .inr ?_⟩)
        ⟨Nat.le_refl _, subset_cons_self _ _⟩ (fun _ h => .inl h) (fun _ h => .inl h)
      obtain rfl := mem_singleton.mp (hgrants ▸ hgrant)
      exact ⟨input.now, hop.1, rfl, .inl mem_cons_self⟩
  | removePageProtection canWrite =>
    simp only [Protection.exec, State.commit]
    split
    · exact hs
    · rename_i db hdb
      refine hs.step (Keeps.of_empty ?_) ⟨Nat.le_refl _, fun _ h => h⟩ (fun _ h => .inl h)
        (fun _ h => .inl h)
      rw [removePageProtection_ok hdb]
      exact deleteProtection_grants hs
  | deletePage canDelete =>
    simp only [Protection.exec, State.commit]
    split
    · exact hs
    · rename_i db hdb
      refine hs.step (Keeps.of_empty ?_) ⟨Nat.le_refl _, fun _ h => h⟩ (fun _ h => .inl h)
        (fun _ h => .inl h)
      exact (deletePage_ok hdb).trans (deleteProtection_grants hs)
  | restoreDeletedPage input =>
    simp only [Protection.exec, State.commit]
    split
    · exact hs
    · rename_i db hdb
      exact hs.step (Keeps.of_empty (restoreDeletedPage_ok hdb)) ⟨Nat.le_refl _, fun _ h => h⟩
        (fun _ h => .inl h) (fun _ h => .inl h)
  | unlockPage id userId sessionId password =>
    refine hs.step (Keeps.of_subset hs (fun _ h => h) rfl) ⟨Nat.le_refl _, fun _ h => h⟩
      (fun _ h => .inl h) fun call hcall => ?_
    rcases mem_append.mp hcall with hcall | hcall
    · exact .inl hcall
    · obtain rfl := mem_singleton.mp hcall
      exact .inr nofun
  | unlockStep id canRead =>
    obtain ⟨call, hcall⟩ := isSome_iff_exists.mp hop
    simp only [Protection.exec, hcall, elim_some]
    exact hs.unlockStep hcall hcurrent
  | pageRequiresUnlock id requester sessionId readOnly =>
    refine hs.step (Keeps.of_subset hs (fun _ h => h) rfl) ⟨Nat.le_refl _, fun _ h => h⟩
      (fun call hcall => ?_) (fun _ h => .inl h)
    rcases mem_append.mp hcall with hcall | hcall
    · exact .inl hcall
    · obtain rfl := mem_singleton.mp hcall
      exact .inr ⟨nofun, nofun⟩
  | checkStep id =>
    obtain ⟨call, hcall⟩ := isSome_iff_exists.mp hop
    simp only [Protection.exec, hcall, elim_some]
    exact hs.checkStep hcall
  | tick ms =>
    exact hs.step (Keeps.of_subset hs (fun _ h => h) rfl)
      ⟨Nat.le_add_right _ _, fun _ h => h⟩ (fun _ h => .inl h) (fun _ h => .inl h)

theorem Sound.initial (clock : Time) (page : Bool) (protection : Option (ProtectionRow Hash))
    (recovery : Option (Option (ProtectionRow Hash))) :
    Sound bcrypt (.initial clock page protection recovery) where
  grants := nofun
  checks := nofun
  unlocks := nofun

/-! ## Runs -/

/-- **Unlock soundness.** Where no grant is inserted for a password that is no longer in force,
`pageRequiresUnlock` answers false on a protected page only for users who have set the
password in force, or have supplied it, in this session in the last twelve hours. -/
theorem unlock_soundness {clock : Time} {page : Bool} {row₀ : Option (ProtectionRow Hash)}
    {recovery : Option (Option (ProtectionRow Hash))}
    (h : ((protection bcrypt).restrict (Current bcrypt)).Reachable (.initial clock page row₀ recovery) s) :
    ∀ call ∈ s.checks, ∀ now time row, call.stage = .answered false now time (some row) →
      call.requester.managesSystem = false →
      Unlocked bcrypt s.events call.requester.principalId call.sessionId now time row := by
  have hs : Sound bcrypt s := h.invariant (.initial clock page row₀ recovery)
    fun _ _ hop hs => hs.exec hop.1 hop.2
  exact fun call hcall => (hs.checks call hcall).answered

instance (op : Op Hash) (s : State Hash) : Decidable (Current bcrypt op s) :=
  match op with
  | .unlockStep id _ =>
    match hcall : s.unlock id with
    | none => .isTrue (by simp [Current, hcall])
    | some call =>
      match hstage : call.stage with
      | .inserting version _ => decidable_of_iff (∀ row ∈ s.db.protection,
          bcrypt.compare call.password row.passwordHash = true
          ∨ (row.version ≠ version ∧ ∀ check ∈ s.checks, check.sessionId = call.sessionId →
              check.requester.principalId = call.userId → ¬check.seeks version))
          (by simp [Current, hcall, hstage])
      | .reading | .comparing _ | .deleting .. | .ended _ =>
        .isTrue (by simp [Current, hcall, hstage])
  | .setPageProtection _ | .removePageProtection _ | .deletePage _ | .restoreDeletedPage _
  | .unlockPage .. | .pageRequiresUnlock .. | .checkStep _ | .tick _ => .isTrue trivial

instance (op : Op Hash) (s : State Hash) :
    Decidable (((protection bcrypt).restrict (Current bcrypt)).enabled op s) :=
  inferInstanceAs (Decidable (_ ∧ _))

/-- Hashes that are the passwords themselves. -/
def exampleBcrypt : Bcrypt JsString := ⟨fun password hash => password == hash, js "fake"⟩

def owner : Requester := ⟨some 7, false, false⟩
def reader : Requester := ⟨some 9, false, false⟩

def setOps (password : JsString) : List (Op JsString) :=
  [.setPageProtection ⟨owner, password, js "owner", password, 0, true⟩]

/-- The reader unlocks the page in the session R and looks at it. -/
def exampleOps : List (Op JsString) :=
  setOps (js "first password") ++ [.unlockPage 1 (some 9) (js "R") (js "first password"),
    .unlockStep 1 true, .unlockStep 1 true, .unlockStep 1 true, .unlockStep 1 true,
    .pageRequiresUnlock 1 reader (js "R") false, .checkStep 1, .checkStep 1, .checkStep 1]

def exampleStart : State JsString := .initial 0 true none none

theorem unlock_soundness_example :
    let row : ProtectionRow JsString := ⟨js "first password", 1, 7, 0⟩
    ((protection exampleBcrypt).after exampleOps exampleStart).checks =
      [⟨1, reader, js "R", false, .answered false 0 0 (some row)⟩]
    ∧ Unlocked exampleBcrypt ((protection exampleBcrypt).after exampleOps exampleStart).events
      (some 9) (js "R") 0 0 row := by
  have hreachable : ((protection exampleBcrypt).restrict (Current exampleBcrypt)).Reachable
      exampleStart ((protection exampleBcrypt).after exampleOps exampleStart) :=
    ⟨exampleOps, by decide, rfl⟩
  have hchecks : ((protection exampleBcrypt).after exampleOps exampleStart).checks =
      [⟨1, reader, js "R", false, .answered false 0 0 (some ⟨js "first password", 1, 7, 0⟩)⟩] := by
    decide
  refine ⟨hchecks, ?_⟩
  exact unlock_soundness hreachable _ (hchecks ▸ mem_cons_self) 0 0 _ rfl rfl

/-- The page is protected anew, from version 1 on, before the reader's grant is inserted. -/
def lateGrantOps : List (Op JsString) :=
  setOps (js "first password") ++ [.unlockPage 1 (some 9) (js "R") (js "first password"),
    .unlockStep 1 true, .unlockStep 1 true, .unlockStep 1 true, .removePageProtection true]
    ++ setOps (js "second password") ++ [.unlockStep 1 true,
    .pageRequiresUnlock 1 reader (js "R") false, .checkStep 1, .checkStep 1, .checkStep 1]

/-- The reader is let in, and has neither set nor supplied the second password. -/
theorem late_grant_unlocks :
    let row : ProtectionRow JsString := ⟨js "second password", 1, 7, 0⟩
    (protection exampleBcrypt).Valid lateGrantOps exampleStart
    ∧ ((protection exampleBcrypt).after lateGrantOps exampleStart).checks =
      [⟨1, reader, js "R", false, .answered false 0 0 (some row)⟩]
    ∧ ¬Unlocked exampleBcrypt ((protection exampleBcrypt).after lateGrantOps exampleStart).events
      (some 9) (js "R") 0 0 row := by
  have hevents : ((protection exampleBcrypt).after lateGrantOps exampleStart).events =
      [.set (some 7) (js "owner") ⟨js "second password", 1, 7, 0⟩ 0,
        .supplied (some 9) (js "R") (js "first password") 0,
        .set (some 7) (js "owner") ⟨js "first password", 1, 7, 0⟩ 0] := by
    decide
  refine ⟨by decide, by decide, ?_⟩
  rw [hevents]
  rintro ⟨time, -, -, hset | ⟨password, hsupplied, hcompare⟩⟩
  · simp at hset
  · obtain ⟨rfl, -⟩ : password = js "first password" ∧ time = 0 := by simpa using hsupplied
    revert hcompare
    decide

end TsEpistle.Protection
