import TsEpistle.Specialists.Steps

/-! Consistency of specialist contexts: what every run keeps, whatever happens to the leases. -/

namespace TsEpistle.Specialists
open Library Agents List

variable {codec : Codec} {owner : Uuid → Int} {s : State}

/-- Running invocations of a context. -/
def Database.running (db : Database) (contextId : Uuid) : Nat :=
  db.invocations.countP fun i => i.contextId = contextId && i.status = .running

/-- Completed invocations of a context. -/
def Database.completed (db : Database) (contextId : Uuid) : Nat :=
  db.invocations.countP fun i => i.contextId = contextId && i.status = .completed

/-- Unexpired contexts of a session. -/
def Database.unexpired (db : Database) (rootSessionId : Uuid) (now : Nat) : Nat :=
  db.contexts.countP fun c => c.rootSessionId = rootSessionId && decide (now < c.expiresAt)

structure Consistent (owner : Uuid → Int) (s : State) : Prop where
  contextIds : (s.db.contexts.map ContextRow.id).Nodup
  invocationIds : (s.db.invocations.map InvocationRow.id).Nodup
  runs : (s.db.invocations.map InvocationRow.rootRunId).Nodup
  dispatched : s.dispatched = s.db.invocations.map InvocationRow.rootRunId
  referenced : ∀ i ∈ s.db.invocations, i.contextId ∈ s.db.contexts.map ContextRow.id
  running : ∀ contextId, s.db.running contextId ≤ 1
  version : ∀ c ∈ s.db.contexts, c.version = 1 + s.db.completed c.id
  scrubbed : ∀ c ∈ s.db.contexts, c.scrubbedAt ≠ none → c.data.scrubbed = c.data
  sessions : owned owner s.db.sessions
  owners : ∀ c ∈ s.db.contexts, c.ownerId = owner c.rootSessionId

theorem Initial.consistent (h : Initial owner s) : Consistent owner s := by
  refine ⟨?_, ?_, ?_, ?_, ?_, ?_, ?_, ?_, h.sessions, ?_⟩ <;>
    simp [h.contexts, h.invocations, h.dispatched, Database.running]

namespace Consistent

theorem invocations_of_fresh (hs : Consistent owner s) {contextId : Uuid}
    (hfresh : contextId ∉ s.db.contexts.map ContextRow.id) : ∀ i ∈ s.db.invocations, i.contextId ≠ contextId :=
  fun i hi heq => hfresh (heq ▸ hs.referenced i hi)

/-- A context is added. -/
theorem create (hs : Consistent owner s) (context : SpecialistContext)
    (hfresh : context.id ∉ s.db.contexts.map ContextRow.id) (hversion : context.version = 1)
    (howner : context.ownerId = owner context.rootSessionId) :
    Consistent owner
      { s with db := { s.db with contexts := s.db.contexts ++ [contextRow context] } } where
  contextIds := by
    rw [map_append]
    refine nodup_append'.mpr ⟨hs.contextIds, nodup_singleton _, ?_⟩
    intro id hid hnew
    obtain rfl := mem_singleton.mp hnew
    exact hfresh hid
  invocationIds := hs.invocationIds
  runs := hs.runs
  dispatched := hs.dispatched
  referenced := fun i hi => by
    rw [map_append]
    exact mem_append_left _ (hs.referenced i hi)
  running := hs.running
  version := fun c hc => by
    rcases mem_append.mp hc with hc | hc
    · exact hs.version c hc
    · obtain rfl := mem_singleton.mp hc
      have hnone : s.db.completed context.id = 0 := by
        rw [Database.completed, countP_eq_zero]
        intro i hi
        simp [hs.invocations_of_fresh hfresh i hi]
      change context.version = 1 + s.db.completed context.id
      rw [hnone, hversion]
  scrubbed := fun c hc hscrubbed => by
    rcases mem_append.mp hc with hc | hc
    · exact hs.scrubbed c hc hscrubbed
    · obtain rfl := mem_singleton.mp hc
      exact absurd rfl hscrubbed
  sessions := hs.sessions
  owners := fun c hc => by
    rcases mem_append.mp hc with hc | hc
    · exact hs.owners c hc
    · obtain rfl := mem_singleton.mp hc
      exact howner

/-- A run begins an invocation of an idle context. -/
theorem invoke (hs : Consistent owner s) (row : InvocationRow)
    (hid : row.id ∉ s.db.invocations.map InvocationRow.id)
    (hrun : row.rootRunId ∉ s.db.invocations.map InvocationRow.rootRunId)
    (hcontext : row.contextId ∈ s.db.contexts.map ContextRow.id)
    (hidle : ∀ i ∈ s.db.invocations, i.contextId = row.contextId → i.status ≠ .running)
    (hstatus : row.status = .running) (clock : Nat) :
    Consistent owner
      { db := { s.db with invocations := s.db.invocations ++ [row] }
        clock
        dispatched := s.dispatched ++ [row.rootRunId] } where
  contextIds := hs.contextIds
  invocationIds := by
    rw [map_append]
    refine nodup_append'.mpr ⟨hs.invocationIds, nodup_singleton _, ?_⟩
    intro id hold hnew
    obtain rfl := mem_singleton.mp hnew
    exact hid hold
  runs := by
    rw [map_append]
    refine nodup_append'.mpr ⟨hs.runs, nodup_singleton _, ?_⟩
    intro id hold hnew
    obtain rfl := mem_singleton.mp hnew
    exact hrun hold
  dispatched := by
    rw [map_append, ← hs.dispatched]
    rfl
  referenced := fun i hi => by
    rcases mem_append.mp hi with hi | hi
    · exact hs.referenced i hi
    · obtain rfl := mem_singleton.mp hi
      exact hcontext
  running := fun contextId => by
    simp only [Database.running, countP_append]
    by_cases hsame : row.contextId = contextId
    · have hnone : s.db.invocations.countP
          (fun i => decide (i.contextId = contextId) && decide (i.status = .running)) = 0 := by
        rw [countP_eq_zero]
        intro i hi hrunning
        simp only [Bool.and_eq_true, decide_eq_true_eq] at hrunning
        exact hidle i hi (hrunning.1.trans hsame.symm) hrunning.2
      rw [hnone]
      simp [hstatus, hsame]
    · have hle := hs.running contextId
      rw [Database.running] at hle
      simpa [hsame] using hle
  version := fun c hc => by
    have hcount : Database.completed
        { s.db with invocations := s.db.invocations ++ [row] } c.id = s.db.completed c.id := by
      simp [Database.completed, hstatus]
    rw [hcount]
    exact hs.version c hc
  scrubbed := hs.scrubbed
  sessions := hs.sessions
  owners := hs.owners

/-- An invocation is written whose columns but the status are as before. -/
theorem settle (hs : Consistent owner s) {row : InvocationRow} (hrow : row ∈ s.db.invocations)
    (row' : InvocationRow) (hid : row'.id = row.id) (hrun : row'.rootRunId = row.rootRunId)
    (hcontext : row'.contextId = row.contextId) (hstatus : row'.status ≠ .running) :
    let invocations := Table.replace InvocationRow.id row' s.db.invocations
    (invocations.map InvocationRow.id).Nodup
      ∧ invocations.map InvocationRow.rootRunId = s.db.invocations.map InvocationRow.rootRunId
      ∧ (∀ i ∈ invocations, i.contextId ∈ s.db.contexts.map ContextRow.id)
      ∧ ∀ contextId, (invocations.countP fun i => i.contextId = contextId && i.status = .running) ≤ 1 := by
  intro invocations
  have hget : Table.get InvocationRow.id s.db.invocations row'.id = some row :=
    (Table.get_eq_some_iff InvocationRow.id hs.invocationIds).mpr ⟨hrow, hid.symm⟩
  refine ⟨?_, ?_, ?_, ?_⟩
  · rw [Table.map_replace]
    exact hs.invocationIds
  · exact Table.map_replace_of_mem InvocationRow.id _ hs.invocationIds hrow hid.symm hrun
  · intro i hi
    rcases Table.mem_replace InvocationRow.id hi with rfl | ⟨hi, -⟩
    · rw [hcontext]
      exact hs.referenced row hrow
    · exact hs.referenced i hi
  · intro contextId
    have hcount := Table.countP_replace InvocationRow.id
      (fun i => decide (i.contextId = contextId) && decide (i.status = .running))
      hs.invocationIds hget
    have hle := hs.running contextId
    rw [Database.running] at hle
    simp only [hstatus, decide_false, Bool.and_false, Bool.false_eq_true, if_false] at hcount
    change List.countP _ (Table.replace InvocationRow.id row' s.db.invocations) ≤ 1
    omega

/-- Completed invocations after one is written. -/
theorem completed_settle (hs : Consistent owner s) {row : InvocationRow}
    (hrow : row ∈ s.db.invocations) (row' : InvocationRow) (hid : row'.id = row.id)
    (hcontext : row'.contextId = row.contextId) (hrunning : row.status = .running)
    (contexts : List ContextRow) (contextId : Uuid) :
    Database.completed { s.db with
        contexts
        invocations := Table.replace InvocationRow.id row' s.db.invocations } contextId
      = s.db.completed contextId + if row.contextId = contextId ∧ row'.status = .completed then 1 else 0 := by
  have hcount := Table.countP_replace InvocationRow.id
    (fun i => decide (i.contextId = contextId) && decide (i.status = .completed))
    hs.invocationIds ((Table.get_eq_some_iff InvocationRow.id hs.invocationIds).mpr ⟨hrow, hid.symm⟩)
  simp only [hrunning, hcontext, reduceCtorEq, decide_false, Bool.and_false, Bool.false_eq_true,
    if_false, Bool.and_eq_true, decide_eq_true_eq] at hcount
  exact hcount

theorem fail (hs : Consistent owner s) {row : InvocationRow} (hrow : row ∈ s.db.invocations)
    (hrunning : row.status = .running) (errorCode : JsString) (now clock : Nat) :
    Consistent owner
      { s with
        db := { s.db with
          invocations := Table.replace InvocationRow.id (row.failedWith errorCode now)
            s.db.invocations }
        clock } := by
  obtain ⟨hids, hruns, hreferenced, hone⟩ :=
    hs.settle hrow (row.failedWith errorCode now) rfl rfl rfl (by
      simp [InvocationRow.failedWith, InvocationRow.patched])
  exact {
    contextIds := hs.contextIds
    invocationIds := hids
    runs := hruns ▸ hs.runs
    dispatched := hs.dispatched.trans hruns.symm
    referenced := hreferenced
    running := hone
    version := fun c hc => by
      refine (hs.version c hc).trans (congrArg (1 + ·) (Eq.symm ?_))
      refine (hs.completed_settle hrow (row.failedWith errorCode now) rfl rfl hrunning s.db.contexts c.id).trans ?_
      simp [InvocationRow.failedWith, InvocationRow.patched]
    scrubbed := hs.scrubbed
    sessions := hs.sessions
    owners := hs.owners }

theorem finish (hs : Consistent owner s) {claim : AgentRunClaim} {invocationId : Uuid}
    {row : InvocationRow} {context : ContextRow}
    (hchosen : Chosen s.db claim invocationId row context) (hrunning : row.status = .running)
    (session : RootSession) (input : CompleteSpecialistInvocationInput) (now clock : Nat) :
    Consistent owner
      { s with
        db := { s.db with
          contexts := Table.replace ContextRow.id
            (context.patched (completedContext context.data row session input now)) s.db.contexts
          invocations := Table.replace InvocationRow.id
            (row.completedBy codec (context.data.version + 1) input now) s.db.invocations }
        clock } := by
  have hcmap : (Table.replace ContextRow.id
        (context.patched (completedContext context.data row session input now))
        s.db.contexts).map ContextRow.id = s.db.contexts.map ContextRow.id :=
    Table.map_replace ContextRow.id _ _
  obtain ⟨hids, hruns, hreferenced, hone⟩ :=
    hs.settle hchosen.invocation (row.completedBy codec (context.data.version + 1) input now)
      rfl rfl rfl (by simp [InvocationRow.completedBy, InvocationRow.patched])
  exact {
    contextIds := hcmap ▸ hs.contextIds
    invocationIds := hids
    runs := hruns ▸ hs.runs
    dispatched := hs.dispatched.trans hruns.symm
    referenced := fun i hi => hcmap ▸ hreferenced i hi
    running := hone
    version := fun c hc => by
      refine Eq.trans ?_ (congrArg (1 + ·)
        (hs.completed_settle hchosen.invocation
          (row.completedBy codec (context.data.version + 1) input now) rfl rfl hrunning _ c.id).symm)
      rcases Table.mem_replace ContextRow.id hc with rfl | ⟨hc, hne⟩
      · have hversion := hs.version context hchosen.stored
        have hcoherent := hchosen.contextCoherent.version
        simp only [ContextRow.patched, completedContext, InvocationRow.completedBy,
          InvocationRow.patched, hchosen.contextId, and_self, if_true]
        rw [hchosen.contextId] at hversion
        omega
      · have hother : row.contextId ≠ c.id := fun heq =>
          hne (heq.symm.trans hchosen.contextId.symm)
        simp [hother, hs.version c hc]
    scrubbed := fun c hc hscrubbed => by
      rcases Table.mem_replace ContextRow.id hc with rfl | ⟨hc, -⟩
      · exact absurd hchosen.scrubbedAt hscrubbed
      · exact hs.scrubbed c hc hscrubbed
    sessions := hs.sessions
    owners := fun c hc => by
      rcases Table.mem_replace ContextRow.id hc with rfl | ⟨hc, -⟩
      · exact hs.owners context hchosen.stored
      · exact hs.owners c hc }

theorem expire (hs : Consistent owner s) {now : Nat} {db : Database}
    (h : Expired s.db now db) : Consistent owner { s with db } := by
  have hids : ∀ c c', ContextExpiry s.db now c c' → c'.id = c.id := by
    rintro c c' (_ | _) <;> rfl
  have hcontexts := Table.map_eq_of_forall₂ ContextRow.id h.contexts hids
  have hcolumns : ∀ i i', InvocationExpiry now i i' → i'.id = i.id ∧ i'.rootRunId = i.rootRunId
      ∧ i'.contextId = i.contextId ∧ i'.status = i.status := by
    rintro i i' (_ | ⟨_, hcoherent⟩)
    · exact ⟨rfl, rfl, rfl, rfl⟩
    · exact ⟨rfl, rfl, rfl, hcoherent.status⟩
  have hruns := Table.map_eq_of_forall₂ InvocationRow.rootRunId h.invocations
    fun i i' hi => (hcolumns i i' hi).2.1
  have hcounts : ∀ (contextId : Uuid) (status : InvocationStatus),
      (db.invocations.countP fun i => decide (i.contextId = contextId) && decide (i.status = status))
        = s.db.invocations.countP fun i =>
            decide (i.contextId = contextId) && decide (i.status = status) := by
    intro contextId status
    refine Table.countP_eq_of_forall₂ h.invocations fun i i' hi => ?_
    rw [(hcolumns i i' hi).2.2.1, (hcolumns i i' hi).2.2.2]
  exact {
    contextIds := hcontexts ▸ hs.contextIds
    invocationIds := Table.map_eq_of_forall₂ InvocationRow.id h.invocations
      (fun i i' hi => (hcolumns i i' hi).1) ▸ hs.invocationIds
    runs := hruns ▸ hs.runs
    dispatched := hs.dispatched.trans hruns.symm
    referenced := fun i hi => by
      obtain ⟨old, hold, hexpiry⟩ := Table.exists_of_mem_right h.invocations i hi
      rw [hcontexts, (hcolumns old i hexpiry).2.2.1]
      exact hs.referenced old hold
    running := fun contextId => (hcounts contextId .running).le.trans (hs.running contextId)
    version := fun c hc => by
      obtain ⟨old, hold, hexpiry⟩ := Table.exists_of_mem_right h.contexts c hc
      have hversion : c.version = old.version := by
        cases hexpiry with
        | kept => rfl
        | scrubbed _ _ hcoherent => exact hcoherent.version
      rw [hversion, hs.version old hold, hids old c hexpiry]
      exact congrArg (1 + ·) (hcounts old.id .completed).symm
    scrubbed := fun c hc hscrubbed => by
      obtain ⟨old, hold, hexpiry⟩ := Table.exists_of_mem_right h.contexts c hc
      cases hexpiry with
      | kept => exact hs.scrubbed c hold hscrubbed
      | scrubbed => rfl
    sessions := h.sessions ▸ hs.sessions
    owners := fun c hc => by
      obtain ⟨old, hold, hexpiry⟩ := Table.exists_of_mem_right h.contexts c hc
      cases hexpiry with
      | kept => exact hs.owners c hold
      | scrubbed => exact hs.owners old hold }

theorem began (hs : Consistent owner s) {claim : AgentRunClaim}
    {input : BeginSpecialistInvocationInput} {moment : Moment} {contextId invocationId : Uuid}
    {db : Database} {begun : Begun} (hcontext : contextId ∉ s.db.contexts.map ContextRow.id)
    (hinvocation : invocationId ∉ s.db.invocations.map InvocationRow.id)
    (h : begin codec s.db claim input moment contextId invocationId = .ok (db, begun)) :
    Consistent owner
      { db
        clock := moment.later
        dispatched := if begun.replayed then s.dispatched else s.dispatched ++ [claim.id] } := by
  obtain ⟨⟨session, hsession, hid, howner⟩, hbegan⟩ := begin_ok h
  have hnone : ∀ invocations : List InvocationRow, (∀ i ∈ invocations, i.rootRunId ≠ claim.id) →
      claim.id ∉ invocations.map InvocationRow.rootRunId := by
    intro invocations hnew hmem
    obtain ⟨i, hi, hrun⟩ := mem_map.mp hmem
    exact hnew i hi hrun
  cases hbegan with
  | replayed => exact { hs with }
  | reused row hrow hscrubbed hcoherent hidle hnew =>
    refine hs.invoke _ hinvocation (hnone _ hnew) ?_ ?_ rfl moment.later
    · exact mem_map.mpr ⟨row, hrow, hcoherent.id.symm⟩
    · exact fun i hi heq => hidle i hi (heq.trans hcoherent.id)
  | created hretained hnew =>
    have hcreated := hs.create (newContext claim input moment contextId) hcontext rfl
      (howner.symm.trans ((hs.sessions session hsession).trans (congrArg owner hid)))
    refine hcreated.invoke _ hinvocation (hnone _ hnew) ?_ ?_ rfl moment.later
    · rw [map_append]
      exact mem_append_right _ (by simp [contextRow, newContext, invocationRow])
    · exact fun i hi heq => absurd heq (hs.invocations_of_fresh hcontext i hi)

theorem step {op : Op} (hs : Consistent owner s) (hop : enabled owner op s) : Consistent owner (exec codec op s) := by
  have h := exec_executed codec op hs.contextIds hs.invocationIds
  generalize exec codec op s = s' at h ⊢
  cases h with
  | refused => exact { hs with }
  | begun hbegin => exact hs.began hop.2.1 hop.2.2 hbegin
  | completed claim input moment row context hchosen hcompleted =>
    cases hcompleted with
    | replayed => exact { hs with }
    | finished session hstatus => exact hs.finish hchosen hstatus session input _ _
  | failed claim errorCode moment hfailed =>
    cases hfailed with
    | ended => exact { hs with }
    | failed row hrow _ _ hstatus => exact hs.fail hrow hstatus errorCode _ _
  | expired now hexpired => exact hs.expire hexpired
  | roots sessions runs clock => exact { hs with sessions := hop.1 }

end Consistent

end TsEpistle.Specialists
