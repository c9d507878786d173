import TsEpistle.Specialists.Store

/-! The machine of specialist contexts: the four operations, one transaction at a time, while
leases are lost, taken or ended between them. What each operation has found and written when
it succeeds is proved once, in the `_ok` lemmas. -/

namespace TsEpistle.Specialists
open Library Checked Agents List Option

/-- `dispatched` lists the runs for which `begin` has answered that it is no replay. -/
structure State where
  db : Database
  clock : Nat
  dispatched : List Uuid
  deriving DecidableEq, Repr

/-- `roots` is anything that others do to sessions and runs. -/
inductive Op where
  | begin (claim : AgentRunClaim) (input : BeginSpecialistInvocationInput) (moment : Moment)
      (contextId invocationId : Uuid)
  | complete (claim : AgentRunClaim) (invocationId : Uuid)
      (input : CompleteSpecialistInvocationInput) (moment : Moment)
  | fail (claim : AgentRunClaim) (invocationId : Uuid) (errorCode : JsString) (moment : Moment)
  | expire (now : Nat)
  | roots (sessions : List RootSession) (runs : List RootRun) (clock : Nat)
  deriving DecidableEq, Repr

/-- `now` may be read before the locks are taken, `later` is read under them. -/
def Moment.within (moment : Moment) (s : State) : Prop :=
  moment.now ≤ moment.later ∧ s.clock ≤ moment.later

instance (moment : Moment) (s : State) : Decidable (moment.within s) :=
  inferInstanceAs (Decidable (_ ∧ _))

/-- The owner of a session is the user who has made it. -/
def owned (owner : Uuid → Int) (sessions : List RootSession) : Prop :=
  ∀ session ∈ sessions, session.ownerId = owner session.id

instance (owner : Uuid → Int) (sessions : List RootSession) : Decidable (owned owner sessions) :=
  inferInstanceAs (Decidable (∀ _ ∈ _, _))

def enabled (owner : Uuid → Int) : Op → State → Prop
  | .begin _ _ moment contextId invocationId, s =>
    moment.within s ∧ contextId ∉ s.db.contexts.map ContextRow.id ∧ invocationId ∉ s.db.invocations.map InvocationRow.id
  | .complete _ _ _ moment, s => moment.within s
  | .fail _ _ _ moment, s => moment.within s
  | .expire _, _ => True
  | .roots sessions _ clock, s => owned owner sessions ∧ s.clock ≤ clock

instance (owner : Uuid → Int) : ∀ op s, Decidable (enabled owner op s)
  | .begin .., _ => inferInstanceAs (Decidable (_ ∧ _ ∧ _))
  | .complete .., _ => inferInstanceAs (Decidable (Moment.within _ _))
  | .fail .., _ => inferInstanceAs (Decidable (Moment.within _ _))
  | .expire _, _ => inferInstanceAs (Decidable True)
  | .roots .., _ => inferInstanceAs (Decidable (_ ∧ _))

variable (codec : Codec)

/-- A failed transaction leaves the tables alone. -/
def State.commit (s : State) (clock : Nat) (answer : Except AgentRepositoryError Database) :
    State :=
  match answer with
  | .ok db => { s with db, clock }
  | .error _ => { s with clock }

def exec : Op → State → State
  | .begin claim input moment contextId invocationId, s =>
    match begin codec s.db claim input moment contextId invocationId with
    | .ok (db, begun) =>
      { db
        clock := moment.later
        dispatched := if begun.replayed then s.dispatched else s.dispatched ++ [claim.id] }
    | .error _ => { s with clock := moment.later }
  | .complete claim invocationId input moment, s =>
    s.commit moment.later
      ((complete codec s.db claim invocationId input moment).map Prod.fst)
  | .fail claim invocationId errorCode moment, s =>
    s.commit moment.later (fail codec s.db claim invocationId errorCode moment)
  | .expire now, s => s.commit s.clock (expire codec s.db now)
  | .roots sessions runs clock, s => { s with db := { s.db with sessions, runs }, clock }

def machine (owner : Uuid → Int) : Machine State Op where
  enabled := enabled owner
  exec := exec codec

instance (owner : Uuid → Int) (op : Op) (s : State) :
    Decidable ((machine codec owner).enabled op s) :=
  inferInstanceAs (Decidable (enabled owner op s))

/-- Nothing has been begun. -/
structure Initial (owner : Uuid → Int) (s : State) : Prop where
  contexts : s.db.contexts = []
  invocations : s.db.invocations = []
  dispatched : s.dispatched = []
  sessions : owned owner s.db.sessions

/-! ## Rows -/

variable {codec} {db db' : Database} {claim : AgentRunClaim} {moment : Moment}

/-- The columns of a context agree with its data. -/
structure ContextRow.Coherent (row : ContextRow) : Prop where
  id : row.data.id = row.id
  ownerId : row.data.ownerId = row.ownerId
  rootSessionId : row.data.rootSessionId = row.rootSessionId
  version : row.data.version = row.version
  expiresAt : row.data.expiresAt = row.expiresAt

/-- The columns of an invocation agree with its data. -/
structure InvocationRow.Coherent (row : InvocationRow) : Prop where
  id : row.data.id = row.id
  contextId : row.data.contextId = row.contextId
  rootRunId : row.data.rootRunId = row.rootRunId
  contextVersion : row.data.contextVersion = row.contextVersion
  status : row.data.status = row.status
  completedAt : row.data.completedAt = row.completedAt

theorem decodeContext_ok {row : ContextRow} {context : SpecialistContext}
    (h : decodeContext codec row = .ok context) : context = row.data ∧ row.Coherent := by
  unfold decodeContext at h
  dsimp only at h
  split at h
  · cases h
  · rename_i hagree
    cases h
    simp only [not_or, ne_eq, not_not] at hagree
    obtain ⟨-, hid, howner, hsession, -, hversion, -, hexpires, -⟩ := hagree
    exact ⟨rfl, hid, howner, hsession, hversion, hexpires⟩

theorem decodeInvocation_ok {row : InvocationRow} {invocation : SpecialistInvocationView}
    (h : decodeInvocation codec row = .ok invocation) : invocation = row.data ∧ row.Coherent := by
  unfold decodeInvocation at h
  dsimp only at h
  split at h
  · cases h
  · rename_i hagree
    cases h
    simp only [not_or, ne_eq, not_not] at hagree
    obtain ⟨-, hid, hcontext, hrun, hversion, hstatus, -, hcompleted, -⟩ := hagree
    exact ⟨rfl, hid, hcontext, hrun, hversion, hstatus, hcompleted⟩

theorem claim_ok {now later : Nat} {allowCancellation : Bool} {session : RootSession}
    (h : db.claim claim now later allowCancellation = .ok session) :
    session ∈ db.sessions ∧ session.id = claim.sessionId ∧ session.ownerId = claim.ownerId := by
  obtain ⟨found, hfound, h⟩ := bind_ok h
  have hsession : found = session := by
    split at h
    · cases h
    · obtain ⟨_, -, h⟩ := bind_ok h
      obtain ⟨_, -, h⟩ := bind_ok h
      cases h
      rfl
  subst hsession
  unfold Database.session at hfound
  split at hfound
  · cases hfound
  · rename_i found' hrow
    split at hfound
    · cases hfound
    · cases hfound
      have hkeys := find?_some hrow
      simp only [Bool.and_eq_true, decide_eq_true_eq] at hkeys
      exact ⟨mem_of_find?_eq_some hrow, hkeys.1.1, hkeys.1.2⟩

theorem context_some {contextId : Uuid} {row : ContextRow} (h : db.context claim contextId = some row) :
    row ∈ db.contexts ∧ row.id = contextId ∧ row.ownerId = claim.ownerId ∧ row.rootSessionId = claim.sessionId := by
  have hkeys := find?_some h
  simp only [Bool.and_eq_true, decide_eq_true_eq] at hkeys
  exact ⟨mem_of_find?_eq_some h, hkeys.1.1, hkeys.1.2, hkeys.2⟩

theorem invocation_ok {invocationId : Uuid} {row : InvocationRow} (h : db.invocation claim invocationId = .ok row) :
    row ∈ db.invocations ∧ row.id = invocationId ∧ row.rootRunId = claim.id := by
  unfold Database.invocation at h
  split at h
  · cases h
  · rename_i found hfound
    cases h
    have hkeys := find?_some hfound
    simp only [Bool.and_eq_true, decide_eq_true_eq] at hkeys
    exact ⟨mem_of_find?_eq_some hfound, hkeys.1.1.1, hkeys.1.1.2⟩

/-! ## Begin -/

variable {input : BeginSpecialistInvocationInput} {contextId invocationId : Uuid}

/-- What `begin` has found when it succeeds. -/
inductive Began (codec : Codec) (db : Database) (claim : AgentRunClaim)
    (input : BeginSpecialistInvocationInput) (moment : Moment) (contextId invocationId : Uuid) :
    Database → Begun → Prop
  | replayed (existing : InvocationRow) (row : ContextRow) (hexisting : existing ∈ db.invocations)
      (hrun : existing.rootRunId = claim.id) (hrow : row ∈ db.contexts)
      (hscrubbed : row.scrubbedAt = none) (hcoherent : row.Coherent) :
      Began codec db claim input moment contextId invocationId db
        ⟨row.data, existing.data, true⟩
  | reused (row : ContextRow) (hrow : row ∈ db.contexts) (hscrubbed : row.scrubbedAt = none)
      (hcoherent : row.Coherent)
      (hidle : ∀ i ∈ db.invocations, i.contextId = row.id → i.status ≠ .running)
      (hnew : ∀ i ∈ db.invocations, i.rootRunId ≠ claim.id) :
      Began codec db claim input moment contextId invocationId
        { db with invocations := db.invocations
          ++ [invocationRow codec claim input moment invocationId row.data] }
        ⟨row.data, invocationView claim input moment invocationId row.data, false⟩
  | created (hretained : db.retained claim moment.now < input.maximumContexts)
      (hnew : ∀ i ∈ db.invocations, i.rootRunId ≠ claim.id) :
      Began codec db claim input moment contextId invocationId
        { db with
          contexts := db.contexts ++ [contextRow (newContext claim input moment contextId)]
          invocations := db.invocations ++ [invocationRow codec claim input moment invocationId
            (newContext claim input moment contextId)] }
        ⟨newContext claim input moment contextId, invocationView claim input moment invocationId
          (newContext claim input moment contextId), false⟩

theorem replay_ok {existing : InvocationRow} {begun : Begun}
    (h : replay codec db claim input moment existing = .ok begun) :
    ∃ row ∈ db.contexts, row.scrubbedAt = none ∧ row.Coherent ∧ begun = ⟨row.data, existing.data, true⟩ := by
  obtain ⟨_, -, h⟩ := bind_ok h
  split at h
  · cases h
  · rename_i row hrow
    obtain ⟨_, hlive, h⟩ := bind_ok h
    obtain ⟨context, hcontext, h⟩ := bind_ok h
    obtain ⟨_, -, h⟩ := bind_ok h
    obtain ⟨_, -, h⟩ := bind_ok h
    obtain ⟨_, -, h⟩ := bind_ok h
    obtain ⟨_, -, h⟩ := bind_ok h
    obtain ⟨invocation, hinvocation, h⟩ := bind_ok h
    cases h
    obtain ⟨rfl, hcoherent⟩ := decodeContext_ok hcontext
    obtain ⟨rfl, -⟩ := decodeInvocation_ok hinvocation
    have hlive := check_ok hlive
    simp only [Bool.and_eq_true, isNone_iff_eq_none] at hlive
    exact ⟨row, (context_some hrow).1, hlive.1.1, hcoherent, rfl⟩

theorem reuseContext_ok {context : SpecialistContext}
    (h : reuseContext codec db claim input moment contextId = .ok context) :
    ∃ row ∈ db.contexts, row.scrubbedAt = none ∧ row.Coherent ∧ context = row.data
      ∧ ∀ i ∈ db.invocations, i.contextId = row.id → i.status ≠ .running := by
  unfold reuseContext at h
  split at h
  · cases h
  · rename_i row hrow
    obtain ⟨found, hfound, h⟩ := bind_ok h
    obtain ⟨_, hlive, h⟩ := bind_ok h
    obtain ⟨_, -, h⟩ := bind_ok h
    obtain ⟨_, -, h⟩ := bind_ok h
    obtain ⟨_, hidle, h⟩ := bind_ok h
    obtain ⟨_, -, h⟩ := bind_ok h
    cases h
    obtain ⟨rfl, hcoherent⟩ := decodeContext_ok hfound
    have hlive := check_ok hlive
    simp only [Bool.and_eq_true, isNone_iff_eq_none] at hlive
    refine ⟨row, (context_some hrow).1, hlive.1, hcoherent, rfl, fun i hi hcontext hrunning => ?_⟩
    have hidle := check_ok hidle
    simp only [Bool.not_eq_true', List.any_eq_false, Bool.and_eq_true, decide_eq_true_eq] at hidle
    exact hidle i hi ⟨hcontext.trans hcoherent.id.symm, hrunning⟩

theorem begin_ok {begun : Begun} (h : begin codec db claim input moment contextId invocationId = .ok (db', begun)) :
    (∃ session ∈ db.sessions, session.id = claim.sessionId ∧ session.ownerId = claim.ownerId) ∧
    Began codec db claim input moment contextId invocationId db' begun := by
  obtain ⟨_, -, h⟩ := bind_ok h
  obtain ⟨session, hsession, h⟩ := bind_ok h
  obtain ⟨_, -, h⟩ := bind_ok h
  obtain ⟨_, -, h⟩ := bind_ok h
  refine ⟨⟨session, claim_ok hsession⟩, ?_⟩
  split at h
  · rename_i existing hexisting
    obtain ⟨answer, hanswer, h⟩ := bind_ok h
    cases h
    obtain ⟨row, hrow, hscrubbed, hcoherent, rfl⟩ := replay_ok hanswer
    exact .replayed existing row (mem_of_find?_eq_some hexisting)
      (by simpa using find?_some hexisting) hrow hscrubbed hcoherent
  · rename_i hnone
    have hnew : ∀ i ∈ db.invocations, i.rootRunId ≠ claim.id := fun i hi => by
      simpa using find?_eq_none.mp hnone i hi
    obtain ⟨⟨chosen, context⟩, hchosen, h⟩ := bind_ok h
    dsimp only at h
    obtain ⟨_, -, h⟩ := bind_ok h
    obtain ⟨_, -, h⟩ := bind_ok h
    cases h
    unfold chooseContext at hchosen
    split at hchosen
    · obtain ⟨found, hfound, hchosen⟩ := bind_ok hchosen
      cases hchosen
      obtain ⟨row, hrow, hscrubbed, hcoherent, rfl, hidle⟩ := reuseContext_ok hfound
      exact .reused row hrow hscrubbed hcoherent hidle hnew
    · obtain ⟨_, hretained, hchosen⟩ := bind_ok hchosen
      obtain ⟨_, -, hchosen⟩ := bind_ok hchosen
      cases hchosen
      exact .created (of_decide_eq_true (check_ok hretained)) hnew

/-! ## Completion and failure -/

/-- The row of an invocation whose completion has been committed. -/
def InvocationRow.completedBy (row : InvocationRow) (codec : Codec) (version : Nat)
    (input : CompleteSpecialistInvocationInput) (now : Nat) : InvocationRow :=
  { row.patched { row.data with
      status := .completed
      contextVersion := version
      report := some input.report
      completedAt := some now } with
    completionSha256 := some (codec.completionHash input) }

def InvocationRow.failedWith (row : InvocationRow) (errorCode : JsString) (now : Nat) :
    InvocationRow :=
  row.patched { row.data with
    status := .failed
    errorCode := some errorCode
    completedAt := some now }

variable {completion : CompleteSpecialistInvocationInput} {view : SpecialistInvocationView}

/-- What `complete` has found when it succeeds. -/
inductive Completed (codec : Codec) (db : Database) (claim : AgentRunClaim)
    (completion : CompleteSpecialistInvocationInput) (moment : Moment) (row : InvocationRow)
    (context : ContextRow) : Database → SpecialistInvocationView → Prop
  | replayed (hstatus : row.status = .completed) : Completed codec db claim completion moment row context db row.data
  | finished (session : RootSession) (hstatus : row.status = .running)
      (hbegun : row.begunBy claim = true) (hversion : context.version = row.contextVersion)
      (hextends : context.data.history <+: completion.history) :
      Completed codec db claim completion moment row context
        { db with
          contexts := Table.replace ContextRow.id
            (context.patched (completedContext context.data row session completion moment.now))
            db.contexts
          invocations := Table.replace InvocationRow.id
            (row.completedBy codec (context.data.version + 1) completion moment.now)
            db.invocations }
        (row.completedBy codec (context.data.version + 1) completion moment.now).data

/-- The rows of an invocation of the claim, and of its context. -/
structure Chosen (db : Database) (claim : AgentRunClaim) (invocationId : Uuid)
    (row : InvocationRow) (context : ContextRow) : Prop where
  invocation : row ∈ db.invocations
  id : row.id = invocationId
  rootRunId : row.rootRunId = claim.id
  coherent : row.Coherent
  stored : context ∈ db.contexts
  contextId : context.id = row.contextId
  contextCoherent : context.Coherent
  scrubbedAt : context.scrubbedAt = none

theorem finish_ok {session : RootSession} {row : InvocationRow} {context : ContextRow}
    (hcontexts : (db.contexts.map ContextRow.id).Nodup) (hinvocations : (db.invocations.map InvocationRow.id).Nodup)
    (hchosen : Chosen db claim invocationId row context) (hstatus : row.status = .running)
    (h : finish codec db claim completion moment session row row.data context.data = .ok (db', view)) :
    Completed codec db claim completion moment row context db' view := by
  obtain ⟨_, hbegun, h⟩ := bind_ok h
  obtain ⟨_, hversion, h⟩ := bind_ok h
  obtain ⟨_, -, h⟩ := bind_ok h
  obtain ⟨_, hextends, h⟩ := bind_ok h
  obtain ⟨_, -, h⟩ := bind_ok h
  obtain ⟨_, hcurrent, h⟩ := bind_ok h
  obtain ⟨_, hpending, h⟩ := bind_ok h
  obtain ⟨_, -, h⟩ := bind_ok h
  obtain ⟨_, -, h⟩ := bind_ok h
  have hcurrent := of_decide_eq_true (check_ok hcurrent)
  have hpending := of_decide_eq_true (check_ok hpending)
  rw [Table.updateWhere_eq_replace_of_updated ContextRow.id hcontexts hchosen.stored hcurrent
      (fun c hc => by
        simp only [Bool.and_eq_true, decide_eq_true_eq] at hc
        exact hc.1.1.1.1.trans hchosen.contextCoherent.id) rfl,
    Table.updateWhere_eq_replace_of_updated InvocationRow.id hinvocations hchosen.invocation hpending
      (fun i hi => by
        simp only [Bool.and_eq_true, decide_eq_true_eq] at hi
        exact hi.1.1) rfl] at h
  cases h
  refine .finished session hstatus (check_ok hbegun) ?_ ?_
  · exact hchosen.contextCoherent.version ▸ of_decide_eq_true (check_ok hversion)
  · exact isPrefixOf_iff_prefix.mp (check_ok hextends)

theorem complete_ok (hcontexts : (db.contexts.map ContextRow.id).Nodup)
    (hinvocations : (db.invocations.map InvocationRow.id).Nodup)
    (h : complete codec db claim invocationId completion moment = .ok (db', view)) : ∃ row context,
    Chosen db claim invocationId row context ∧ Completed codec db claim completion moment row context db' view := by
  obtain ⟨_, -, h⟩ := bind_ok h
  obtain ⟨session, -, h⟩ := bind_ok h
  obtain ⟨row, hrow, h⟩ := bind_ok h
  obtain ⟨invocation, hinvocation, h⟩ := bind_ok h
  obtain ⟨_, hfailed, h⟩ := bind_ok h
  obtain ⟨hmem, hid, hrun⟩ := invocation_ok hrow
  obtain ⟨rfl, hcoherent⟩ := decodeInvocation_ok hinvocation
  split at h
  · cases h
  · rename_i context hcontext
    obtain ⟨_, hlive, h⟩ := bind_ok h
    obtain ⟨data, hdata, h⟩ := bind_ok h
    obtain ⟨_, -, h⟩ := bind_ok h
    obtain ⟨rfl, hccoherent⟩ := decodeContext_ok hdata
    obtain ⟨hcmem, hcid, -⟩ := context_some hcontext
    have hlive := check_ok hlive
    simp only [Bool.and_eq_true, isNone_iff_eq_none] at hlive
    have hchosen : Chosen db claim invocationId row context :=
      ⟨hmem, hid, hrun, hcoherent, hcmem, hcid, hccoherent, hlive.1.1⟩
    refine ⟨row, context, hchosen, ?_⟩
    split at h
    · rename_i hstatus
      obtain ⟨_, -, h⟩ := bind_ok h
      obtain ⟨_, -, h⟩ := bind_ok h
      obtain ⟨_, -, h⟩ := bind_ok h
      cases h
      exact .replayed hstatus
    · rename_i hopen
      refine finish_ok hcontexts hinvocations hchosen ?_ h
      have hfailed := check_ok hfailed
      cases hstatus : row.status with
      | running => rfl
      | completed => exact absurd hstatus hopen
      | failed => simp [hstatus] at hfailed

/-- What `fail` has found when it succeeds. -/
inductive Failed (db : Database) (claim : AgentRunClaim) (invocationId : Uuid)
    (errorCode : JsString) (moment : Moment) : Database → Prop
  | ended : Failed db claim invocationId errorCode moment db
  | failed (row : InvocationRow) (hrow : row ∈ db.invocations) (hid : row.id = invocationId)
      (hrun : row.rootRunId = claim.id) (hstatus : row.status = .running)
      (hbegun : row.begunBy claim = true) :
      Failed db claim invocationId errorCode moment
        { db with
          invocations := Table.replace InvocationRow.id (row.failedWith errorCode moment.now)
            db.invocations }

theorem fail_ok {errorCode : JsString} (hinvocations : (db.invocations.map InvocationRow.id).Nodup)
    (h : fail codec db claim invocationId errorCode moment = .ok db') :
    Failed db claim invocationId errorCode moment db' := by
  obtain ⟨_, -, h⟩ := bind_ok h
  obtain ⟨_, -, h⟩ := bind_ok h
  obtain ⟨row, hrow, h⟩ := bind_ok h
  obtain ⟨invocation, hinvocation, h⟩ := bind_ok h
  obtain ⟨hmem, hid, hrun⟩ := invocation_ok hrow
  obtain ⟨rfl, -⟩ := decodeInvocation_ok hinvocation
  split at h
  · cases h
    exact .ended
  · rename_i hstatus
    have hstatus : row.status = .running := by simpa using hstatus
    obtain ⟨_, hbegun, h⟩ := bind_ok h
    have hbegun := check_ok hbegun
    obtain ⟨_, -, h⟩ := bind_ok h
    have htoken : row.rootLeaseToken = claim.leaseToken := by
      simp only [InvocationRow.begunBy, Bool.and_eq_true, decide_eq_true_eq] at hbegun
      exact hbegun.2
    rw [Table.updateWhere_eq_replace InvocationRow.id hinvocations hmem
      (by simp [hstatus, htoken]) (fun i hi => by
        simp only [Bool.and_eq_true, decide_eq_true_eq] at hi
        exact hi.1.1) rfl] at h
    cases h
    exact .failed row hmem hid hrun hstatus hbegun

/-! ## Expiry -/

/-- The row of a context whose content has been erased. -/
def ContextRow.erased (row : ContextRow) (now : Nat) : ContextRow :=
  { row.patched row.data.scrubbed with scrubbedAt := some now }

/-- The row of a receipt without its report. -/
def InvocationRow.erased (row : InvocationRow) (now : Nat) : InvocationRow :=
  { row.patched { row.data with report := none } with scrubbedAt := some now }

/-- What `expire` does to a context. -/
inductive ContextExpiry (db : Database) (now : Nat) (row : ContextRow) : ContextRow → Prop
  | kept : ContextExpiry db now row row
  | scrubbed (hscrubbed : row.scrubbedAt = none) (hactive : db.active row.id = false)
      (hcoherent : row.Coherent) :
      ContextExpiry db now row (row.erased now)

/-- What `expire` does to an invocation. -/
inductive InvocationExpiry (now : Nat) (row : InvocationRow) : InvocationRow → Prop
  | kept : InvocationExpiry now row row
  | scrubbed (hscrubbed : row.scrubbedAt = none) (hcoherent : row.Coherent) : InvocationExpiry now row (row.erased now)

theorem mem_firstExpired {ρ : Type} {expiresAt : ρ → Nat} {id : ρ → Uuid} {rows : List ρ} {row : ρ}
    (h : row ∈ firstExpired expiresAt id rows) : row ∈ rows :=
  (mem_insertionSort _).mp (mem_of_mem_take h)

/-- What has been done to the contexts during the first loop of `expire`. -/
structure ContextsExpired (db : Database) (now : Nat) (db' : Database) : Prop where
  sessions : db'.sessions = db.sessions
  runs : db'.runs = db.runs
  invocations : db'.invocations = db.invocations
  contexts : List.Forall₂ (ContextExpiry db now) db.contexts db'.contexts

theorem scrubContext_ok {mid : Database} {now : Nat} {row : ContextRow} (hids : (db.contexts.map ContextRow.id).Nodup)
    (hrow : row ∈ db.expiredContexts now) (hmid : ContextsExpired db now mid)
    (h : scrubContext codec now mid row = .ok db') : ContextsExpired db now db' := by
  obtain ⟨data, hdata, h⟩ := bind_ok h
  obtain ⟨_, -, h⟩ := bind_ok h
  cases h
  obtain ⟨rfl, hcoherent⟩ := decodeContext_ok hdata
  obtain ⟨hmem, hexpired⟩ := mem_filter.mp (mem_firstExpired hrow)
  simp only [Bool.and_eq_true, isNone_iff_eq_none, Bool.not_eq_true'] at hexpired
  refine ⟨hmid.sessions, hmid.runs, hmid.invocations,
    Table.forall₂_updateWhere hmid.contexts fun c hc c' hcc' hcurrent => ?_⟩
  simp only [Bool.and_eq_true, decide_eq_true_eq, isNone_iff_eq_none] at hcurrent
  cases hcc' with
  | scrubbed => cases hcurrent.2
  | kept =>
    obtain rfl := inj_on_of_nodup_map hids hc hmem hcurrent.1.1
    exact .scrubbed hexpired.1.1 hexpired.2 hcoherent

theorem scrubInvocation_ok {mid : Database} {now : Nat} {row : InvocationRow}
    (hids : (db.invocations.map InvocationRow.id).Nodup) (hrow : row ∈ db.invocations)
    (hmid : List.Forall₂ (InvocationExpiry now) db.invocations mid.invocations)
    (hscrubbed : row.scrubbedAt = none) (h : scrubInvocation codec now mid row = .ok db') :
    ∃ invocations, db' = { mid with invocations } ∧ List.Forall₂ (InvocationExpiry now) db.invocations invocations := by
  obtain ⟨data, hdata, h⟩ := bind_ok h
  cases h
  obtain ⟨rfl, hcoherent⟩ := decodeInvocation_ok hdata
  refine ⟨_, rfl, Table.forall₂_updateWhere hmid fun i hi i' hii' hcurrent => ?_⟩
  simp only [Bool.and_eq_true, decide_eq_true_eq, isNone_iff_eq_none] at hcurrent
  cases hii' with
  | scrubbed => cases hcurrent.2
  | kept =>
    obtain rfl := inj_on_of_nodup_map hids hi hrow hcurrent.1
    exact .scrubbed hscrubbed hcoherent

/-- What `expire` has done when it succeeds. -/
structure Expired (db : Database) (now : Nat) (db' : Database) : Prop where
  sessions : db'.sessions = db.sessions
  contexts : List.Forall₂ (ContextExpiry db now) db.contexts db'.contexts
  invocations : List.Forall₂ (InvocationExpiry now) db.invocations db'.invocations

theorem expire_ok {now : Nat} (hcontexts : (db.contexts.map ContextRow.id).Nodup)
    (hinvocations : (db.invocations.map InvocationRow.id).Nodup)
    (h : expire codec db now = .ok db') : Expired db now db' := by
  obtain ⟨mid, hmid, h⟩ := bind_ok h
  have hmid : ContextsExpired db now mid :=
    foldlM_ok hmid ⟨rfl, rfl, rfl, forall₂_same.mpr fun _ _ => .kept⟩
      fun row hrow a b hab ha => scrubContext_ok hcontexts hrow ha hab
  have hstart : mid.sessions = db.sessions ∧ mid.contexts = mid.contexts
      ∧ List.Forall₂ (InvocationExpiry now) db.invocations mid.invocations :=
    ⟨hmid.sessions, rfl, hmid.invocations ▸ forall₂_same.mpr fun _ _ => .kept⟩
  have hloop := foldlM_ok (I := fun d => d.sessions = db.sessions
      ∧ d.contexts = mid.contexts
      ∧ List.Forall₂ (InvocationExpiry now) db.invocations d.invocations) h hstart ?_
  · exact ⟨hloop.1, hloop.2.1 ▸ hmid.contexts, hloop.2.2⟩
  · intro row hrow a b hab ha
    obtain ⟨hmem, hexpired⟩ := mem_filter.mp (mem_firstExpired hrow)
    rw [hmid.invocations] at hmem
    simp only [Bool.and_eq_true, isNone_iff_eq_none] at hexpired
    obtain ⟨invocations, rfl, hforall⟩ := scrubInvocation_ok hinvocations hmem ha.2.2 hexpired.1.1 hab
    exact ⟨ha.1, ha.2.1, hforall⟩

/-! ## One step -/

theorem map_fst_ok {α β : Type} {x : Except AgentRepositoryError (α × β)} {a : α}
    (h : x.map Prod.fst = .ok a) : ∃ b, x = .ok (a, b) := by
  cases x with
  | error e => cases h
  | ok answer =>
    cases h
    exact ⟨answer.2, rfl⟩

/-- What a step does: the operation is refused, or its transaction commits. -/
inductive Executed (codec : Codec) (s : State) : Op → State → Prop
  | refused (op : Op) (clock : Nat) (hclock : ∀ owner, enabled owner op s → s.clock ≤ clock) :
      Executed codec s op { s with clock }
  | begun {claim : AgentRunClaim} {input : BeginSpecialistInvocationInput} {moment : Moment}
      {contextId invocationId : Uuid} {db : Database} {begun : Begun}
      (h : begin codec s.db claim input moment contextId invocationId = .ok (db, begun)) :
      Executed codec s (.begin claim input moment contextId invocationId)
        { db
          clock := moment.later
          dispatched := if begun.replayed then s.dispatched else s.dispatched ++ [claim.id] }
  | completed (claim : AgentRunClaim) (input : CompleteSpecialistInvocationInput) (moment : Moment)
      (row : InvocationRow) (context : ContextRow) {invocationId : Uuid} {db : Database}
      {view : SpecialistInvocationView} (hchosen : Chosen s.db claim invocationId row context)
      (h : Completed codec s.db claim input moment row context db view) :
      Executed codec s (.complete claim invocationId input moment) { s with db, clock := moment.later }
  | failed (claim : AgentRunClaim) (errorCode : JsString) (moment : Moment) {invocationId : Uuid} {db : Database}
      (h : Failed s.db claim invocationId errorCode moment db) :
      Executed codec s (.fail claim invocationId errorCode moment) { s with db, clock := moment.later }
  | expired (now : Nat) {db : Database} (h : Expired s.db now db) : Executed codec s (.expire now) { s with db }
  | roots (sessions : List RootSession) (runs : List RootRun) (clock : Nat) :
      Executed codec s (.roots sessions runs clock) { s with db := { s.db with sessions, runs }, clock }

theorem exec_executed (codec : Codec) (op : Op) {s : State} (hcontexts : (s.db.contexts.map ContextRow.id).Nodup)
    (hinvocations : (s.db.invocations.map InvocationRow.id).Nodup) : Executed codec s op (exec codec op s) := by
  cases op with
  | begin claim input moment contextId invocationId =>
    simp only [exec]
    split
    · rename_i hbegin
      exact .begun hbegin
    · exact .refused _ _ fun _ hop => hop.1.2
  | complete claim invocationId input moment =>
    simp only [exec, State.commit]
    split
    · rename_i db hcomplete
      obtain ⟨view, hcomplete⟩ := map_fst_ok hcomplete
      obtain ⟨row, context, hchosen, hcompleted⟩ := complete_ok hcontexts hinvocations hcomplete
      exact .completed claim input moment row context hchosen hcompleted
    · exact .refused _ _ fun _ hop => hop.2
  | fail claim invocationId errorCode moment =>
    simp only [exec, State.commit]
    split
    · rename_i db hfail
      exact .failed claim errorCode moment (fail_ok hinvocations hfail)
    · exact .refused _ _ fun _ hop => hop.2
  | expire now =>
    simp only [exec, State.commit]
    split
    · rename_i db hexpire
      exact .expired now (expire_ok hcontexts hinvocations hexpire)
    · exact .refused _ _ fun _ _ => le_rfl
  | roots sessions runs clock => exact .roots sessions runs clock

end TsEpistle.Specialists
