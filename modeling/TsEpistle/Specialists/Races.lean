import TsEpistle.Specialists.Consistency

/-! Races between the operations. Each step is described row by row, the limit of a session is
kept, and what the store has answered stays true over every run. -/

namespace TsEpistle.Specialists
open Library Agents List

variable {codec : Codec} {owner : Uuid → Int} {s s' : State}

/-! ## One step -/

/-- What an operation does to a stored context. -/
inductive ContextStep (s : State) : Op → ContextRow → ContextRow → Prop
  | same (op : Op) (c : ContextRow) : ContextStep s op c c
  | completed (claim : AgentRunClaim) (input : CompleteSpecialistInvocationInput)
      (moment : Moment) (c : ContextRow) (i : InvocationRow) (session : RootSession)
      (hi : i ∈ s.db.invocations) (hcontext : c.id = i.contextId) (hrunning : i.status = .running)
      (hlease : i.begunBy claim = true) (hscrubbed : c.scrubbedAt = none)
      (hextends : c.data.history <+: input.history) :
      ContextStep s (.complete claim i.id input moment) c
        (c.patched (completedContext c.data i session input moment.now))
  | erased (now : Nat) (c : ContextRow) (hscrubbed : c.scrubbedAt = none)
      (hactive : s.db.active c.id = false) : ContextStep s (.expire now) c (c.erased now)

/-- What an operation does to a stored invocation. -/
inductive InvocationStep (codec : Codec) : Op → InvocationRow → InvocationRow → Prop
  | same (op : Op) (i : InvocationRow) : InvocationStep codec op i i
  | completed (claim : AgentRunClaim) (input : CompleteSpecialistInvocationInput)
      (moment : Moment) (version : Nat) (i : InvocationRow) (hrunning : i.status = .running)
      (hrun : i.rootRunId = claim.id) (hlease : i.begunBy claim = true) :
      InvocationStep codec (.complete claim i.id input moment) i
        (i.completedBy codec version input moment.now)
  | failed (claim : AgentRunClaim) (errorCode : JsString) (moment : Moment) (i : InvocationRow)
      (hrunning : i.status = .running) (hrun : i.rootRunId = claim.id)
      (hlease : i.begunBy claim = true) :
      InvocationStep codec (.fail claim i.id errorCode moment) i
        (i.failedWith errorCode moment.now)
  | erased (now : Nat) (i : InvocationRow) (hscrubbed : i.scrubbedAt = none)
      (hcoherent : i.Coherent) : InvocationStep codec (.expire now) i (i.erased now)

theorem mem_replace_or {ρ : Type} {id : ρ → Uuid} {rows : List ρ} (row : ρ) {r : ρ} (hr : r ∈ rows)
    (hne : id r ≠ id row) : r ∈ Table.replace id row rows :=
  Table.mem_updateWhere.mpr ⟨r, hr, by simp [hne]⟩

theorem mem_replace_self {ρ : Type} {id : ρ → Uuid} {rows : List ρ} {row r : ρ} (hr : r ∈ rows)
    (heq : id r = id row) : row ∈ Table.replace id row rows :=
  Table.mem_updateWhere.mpr ⟨r, hr, by simp [heq]⟩

theorem context_step (codec : Codec) (op : Op) (hs : Consistent owner s) :
    ∀ c ∈ s.db.contexts, ∃ c' ∈ (exec codec op s).db.contexts, ContextStep s op c c' := by
  intro c hc
  have h := exec_executed codec op hs.contextIds hs.invocationIds
  generalize exec codec op s = s' at h ⊢
  cases h with
  | refused | roots => exact ⟨c, hc, .same _ c⟩
  | begun hbegin =>
    refine ⟨c, ?_, .same _ c⟩
    cases (begin_ok hbegin).2 with
    | replayed | reused => exact hc
    | created => exact mem_append_left _ hc
  | completed claim input moment row context hchosen hcompleted =>
    cases hcompleted with
    | replayed => exact ⟨c, hc, .same _ c⟩
    | finished session hstatus hbegun hversion hextends =>
      by_cases heq : c.id = context.id
      · obtain rfl := inj_on_of_nodup_map hs.contextIds hc hchosen.stored heq
        refine ⟨_, mem_replace_self hc rfl, ?_⟩
        rw [← hchosen.id]
        exact .completed claim input moment c row session hchosen.invocation
          hchosen.contextId hstatus hbegun hchosen.scrubbedAt hextends
      · exact ⟨c, mem_replace_or _ hc heq, .same _ c⟩
  | failed claim errorCode moment hfailed =>
    refine ⟨c, ?_, .same _ c⟩
    cases hfailed with
    | ended | failed => exact hc
  | expired now hexpired =>
    obtain ⟨c', hc', hexpiry⟩ := Table.exists_of_mem_left hexpired.contexts c hc
    refine ⟨c', hc', ?_⟩
    cases hexpiry with
    | kept => exact .same _ c
    | scrubbed hscrubbed hactive => exact .erased now c hscrubbed hactive

theorem invocation_step (codec : Codec) (op : Op) (hs : Consistent owner s) :
    ∀ i ∈ s.db.invocations, ∃ i' ∈ (exec codec op s).db.invocations, InvocationStep codec op i i' := by
  intro i hi
  have h := exec_executed codec op hs.contextIds hs.invocationIds
  generalize exec codec op s = s' at h ⊢
  cases h with
  | refused | roots => exact ⟨i, hi, .same _ i⟩
  | begun hbegin =>
    refine ⟨i, ?_, .same _ i⟩
    cases (begin_ok hbegin).2 with
    | replayed => exact hi
    | reused | created => exact mem_append_left _ hi
  | completed claim input moment row context hchosen hcompleted =>
    cases hcompleted with
    | replayed => exact ⟨i, hi, .same _ i⟩
    | finished session hstatus hbegun hversion hextends =>
      by_cases heq : i.id = row.id
      · obtain rfl := inj_on_of_nodup_map hs.invocationIds hi hchosen.invocation heq
        refine ⟨_, mem_replace_self hi rfl, ?_⟩
        rw [← hchosen.id]
        exact .completed claim input moment _ i hstatus hchosen.rootRunId hbegun
      · exact ⟨i, mem_replace_or _ hi heq, .same _ i⟩
  | failed claim errorCode moment hfailed =>
    cases hfailed with
    | ended => exact ⟨i, hi, .same _ i⟩
    | failed row hrow hid hrun hstatus hbegun =>
      by_cases heq : i.id = row.id
      · obtain rfl := inj_on_of_nodup_map hs.invocationIds hi hrow heq
        refine ⟨_, mem_replace_self hi rfl, ?_⟩
        rw [← hid]
        exact .failed claim errorCode moment i hstatus hrun hbegun
      · exact ⟨i, mem_replace_or _ hi heq, .same _ i⟩
  | expired now hexpired =>
    obtain ⟨i', hi', hexpiry⟩ := Table.exists_of_mem_left hexpired.invocations i hi
    refine ⟨i', hi', ?_⟩
    cases hexpiry with
    | kept => exact .same _ i
    | scrubbed hscrubbed hcoherent => exact .erased now i hscrubbed hcoherent

/-! ## Runs -/

/-- The receipt is stored as it is, or only without its report. -/
def Kept (i : InvocationRow) (s : State) : Prop :=
  i ∈ s.db.invocations ∨ (i.scrubbedAt = none ∧ ∃ now,
    { i with data := { i.data with report := none }, scrubbedAt := some now } ∈ s.db.invocations)

theorem InvocationRow.Coherent.erased {i : InvocationRow} (h : i.Coherent) (now : Nat) :
    i.erased now = { i with data := { i.data with report := none }, scrubbedAt := some now } := by
  simp only [InvocationRow.erased, InvocationRow.patched, h.status, h.contextVersion, h.completedAt]

theorem receipt_kept (hs : Consistent owner s) (h : (machine codec owner).Reachable s s') {i : InvocationRow}
    (hi : i ∈ s.db.invocations) (hcompleted : i.status = .completed) : Kept i s' := by
  have hkept := h.invariant_under (I := Consistent owner)
    (J := fun s => i ∈ s.db.invocations
      ∨ (i.scrubbedAt = none ∧ ∃ now, i.erased now ∈ s.db.invocations ∧ i.Coherent)) hs
    (fun op s hop hs => hs.step hop) (.inl hi) ?_
  · rcases hkept with hi | ⟨hscrubbed, now, hi, hcoherent⟩
    · exact .inl hi
    · exact .inr ⟨hscrubbed, now, hcoherent.erased now ▸ hi⟩
  · rintro op s hop hs (hi | ⟨hscrubbed, now, hi, hcoherent⟩)
    · obtain ⟨i', hi', hstep⟩ := invocation_step codec op hs i hi
      cases hstep with
      | same => exact .inl hi'
      | completed claim input moment version _ hrunning => simp [hcompleted] at hrunning
      | failed claim errorCode moment _ hrunning => simp [hcompleted] at hrunning
      | erased now _ hscrubbed hcoherent => exact .inr ⟨hscrubbed, now, hi', hcoherent⟩
    · have hstatus : (i.erased now).status = .completed := hcoherent.status.trans hcompleted
      obtain ⟨i', hi', hstep⟩ := invocation_step codec op hs _ hi
      cases hstep with
      | same => exact .inr ⟨hscrubbed, now, hi', hcoherent⟩
      | completed claim input moment version _ hrunning => simp [hstatus] at hrunning
      | failed claim errorCode moment _ hrunning => simp [hstatus] at hrunning
      | erased later _ hagain => cases hagain

/-- An erased context is never written again. -/
theorem erased_kept (hs : Consistent owner s) (h : (machine codec owner).Reachable s s') {c : ContextRow}
    (hc : c ∈ s.db.contexts) (herased : c.scrubbedAt ≠ none) : c ∈ s'.db.contexts := by
  refine h.invariant_under (I := Consistent owner) (J := fun s => c ∈ s.db.contexts) hs
    (fun op s hop hs => hs.step hop) hc ?_
  intro op s hop hs hc
  obtain ⟨c', hc', hstep⟩ := context_step codec op hs c hc
  cases hstep with
  | same => exact hc'
  | completed claim input moment _ i session _ _ _ _ hscrubbed => exact absurd hscrubbed herased
  | erased now _ hscrubbed => exact absurd hscrubbed herased

/-! ## The limit of a session -/

/-- Every `begin` has the same limit. -/
def Op.limited (maximum : Nat) : Op → Prop
  | .begin _ input _ _ _ => input.maximumContexts = maximum
  | _ => True

theorem unexpired_mono (db : Database) (session : Uuid) {now later : Nat} (hle : now ≤ later) :
    db.unexpired session later ≤ db.unexpired session now := by
  refine countP_mono_left fun c _ hc => ?_
  simp only [Bool.and_eq_true, decide_eq_true_eq] at hc ⊢
  exact ⟨hc.1, by omega⟩

/-- A session that may have one more context has fewer than its limit. -/
theorem unexpired_le_retained (hs : Consistent owner s) {claim : AgentRunClaim} {moment : Moment}
    (howner : claim.ownerId = owner claim.sessionId) (hle : moment.now ≤ moment.later) :
    s.db.unexpired claim.sessionId moment.later ≤ s.db.retained claim moment.now := by
  refine countP_mono_left fun c hc hunexpired => ?_
  simp only [Bool.and_eq_true, decide_eq_true_eq] at hunexpired
  have hclaim : c.ownerId = claim.ownerId := by
    rw [hs.owners c hc, hunexpired.1, howner]
  have hnow : moment.now < c.expiresAt := by omega
  simp [hclaim, hunexpired.1, hnow]

theorem completedContext_expiresAt (context : SpecialistContext) (row : InvocationRow)
    (session : RootSession) (input : CompleteSpecialistInvocationInput) (now : Nat) :
    (completedContext context row session input now).expiresAt ≤ context.expiresAt := by
  simp only [completedContext]
  cases session.expiresAt with
  | none => exact Nat.min_le_left _ _
  | some expiresAt => exact (Nat.min_le_left _ _).trans (Nat.min_le_left _ _)

theorem limit_began (hs : Consistent owner s) {maximum : Nat}
    (hlimit : ∀ session, s.db.unexpired session s.clock ≤ maximum) {claim : AgentRunClaim}
    {input : BeginSpecialistInvocationInput} {moment : Moment} {contextId invocationId : Uuid} {db : Database}
    {begun : Begun} (hmaximum : input.maximumContexts = maximum) (hmoment : moment.within s)
    (h : begin codec s.db claim input moment contextId invocationId = .ok (db, begun)) (session : Uuid) :
    db.unexpired session moment.later ≤ maximum := by
  obtain ⟨⟨found, hfound, hid, howner⟩, hbegan⟩ := begin_ok h
  have hold := (unexpired_mono s.db session hmoment.2).trans (hlimit session)
  cases hbegan with
  | replayed | reused => exact hold
  | created hretained =>
    have hclaim : claim.ownerId = owner claim.sessionId := by
      rw [← howner, hs.sessions found hfound, hid]
    have hle := unexpired_le_retained hs hclaim hmoment.1
    simp only [Database.unexpired, countP_append, countP_singleton, contextRow, newContext] at hold hle ⊢
    by_cases hsession : claim.sessionId = session
    · subst hsession
      split <;> omega
    · simpa [hsession] using hold

theorem limit_step (hs : Consistent owner s) {maximum : Nat} {op : Op} (hop : enabled owner op s)
    (hmaximum : op.limited maximum) (hlimit : ∀ session, s.db.unexpired session s.clock ≤ maximum) : ∀ session,
    (exec codec op s).db.unexpired session (exec codec op s).clock ≤ maximum := by
  intro session
  have hold : ∀ clock, s.clock ≤ clock → s.db.unexpired session clock ≤ maximum := fun clock hle =>
    (unexpired_mono s.db session hle).trans (hlimit session)
  have h := exec_executed codec op hs.contextIds hs.invocationIds
  generalize exec codec op s = s' at h ⊢
  cases h with
  | refused _ clock hclock => exact hold clock (hclock owner hop)
  | begun hbegin => exact limit_began hs hlimit hmaximum hop.1 hbegin session
  | completed claim input moment row context hchosen hcompleted =>
    cases hcompleted with
    | replayed => exact hold _ hop.2
    | finished found =>
      refine le_trans (Table.countP_replace_le ContextRow.id hs.contextIds
        ((Table.get_eq_some_iff ContextRow.id hs.contextIds).mpr ⟨hchosen.stored, rfl⟩) ?_)
        (hold _ hop.2)
      have hexpiry := completedContext_expiresAt context.data row found input moment.now
      rw [hchosen.contextCoherent.expiresAt] at hexpiry
      intro hnew
      rw [Bool.and_eq_true, decide_eq_true_eq, decide_eq_true_eq] at hnew ⊢
      exact ⟨hnew.1, lt_of_lt_of_le hnew.2 hexpiry⟩
  | failed claim errorCode moment hfailed =>
    cases hfailed with
    | ended | failed => exact hold _ hop.2
  | expired now hexpired =>
    have hcount := Table.countP_eq_of_forall₂
      (p := fun c => decide (c.rootSessionId = session) && decide (s.clock < c.expiresAt))
      hexpired.contexts fun c c' hc => by
        cases hc with
        | kept => rfl
        | scrubbed _ _ hcoherent =>
          simp [ContextRow.erased, ContextRow.patched, SpecialistContext.scrubbed, hcoherent.expiresAt]
    exact hcount.le.trans (hlimit session)
  | roots sessions runs clock => exact hold clock hop.2

theorem limit_kept {s₀ : State} {maximum : Nat} (h₀ : Initial owner s₀)
    (h : ((machine codec owner).restrict fun op _ => op.limited maximum).Reachable s₀ s)
    (session : Uuid) : s.db.unexpired session s.clock ≤ maximum := by
  refine h.invariant_under (I := Consistent owner)
    (J := fun s => ∀ session, s.db.unexpired session s.clock ≤ maximum) h₀.consistent
    (fun op s hop hs => hs.step hop.1) ?_ (fun op s hop hs => limit_step hs hop.1 hop.2) session
  intro session
  simp [Database.unexpired, h₀.contexts]

/-! ## Consistency -/

/-- The content of an erased context is gone, and no call answers with the context. -/
theorem erased_unused (hs : Consistent owner s) {c : ContextRow} (hc : c ∈ s.db.contexts)
    (herased : c.scrubbedAt ≠ none) :
    c.data.scrubbed = c.data
    ∧ (∀ claim input moment contextId invocationId db begun,
        contextId ∉ s.db.contexts.map ContextRow.id →
        begin codec s.db claim input moment contextId invocationId = .ok (db, begun) → begun.context.id ≠ c.id)
    ∧ ∀ claim invocationId input moment db view,
        complete codec s.db claim invocationId input moment = .ok (db, view) → view.contextId ≠ c.id := by
  have hlive : ∀ row ∈ s.db.contexts, row.scrubbedAt = none → row.id ≠ c.id := by
    intro row hrow hscrubbed heq
    obtain rfl := inj_on_of_nodup_map hs.contextIds hrow hc heq
    exact herased hscrubbed
  refine ⟨hs.scrubbed c hc herased, ?_, ?_⟩
  · intro claim input moment contextId invocationId db begun hfresh hbegin
    cases (begin_ok hbegin).2 with
    | replayed existing row _ _ hrow hscrubbed hcoherent =>
      exact hcoherent.id ▸ hlive row hrow hscrubbed
    | reused row hrow hscrubbed hcoherent => exact hcoherent.id ▸ hlive row hrow hscrubbed
    | created => exact fun heq => hfresh (mem_map.mpr ⟨c, hc, heq.symm⟩)
  · intro claim invocationId input moment db view hcomplete
    obtain ⟨row, context, hchosen, hcompleted⟩ := complete_ok hs.contextIds hs.invocationIds hcomplete
    have hview : view.contextId = context.id := by
      rw [hchosen.contextId, ← hchosen.coherent.contextId]
      cases hcompleted <;> rfl
    rw [hview]
    exact hlive context hchosen.stored hchosen.scrubbedAt

/-- **Specialist contexts.** In every run: a run has one invocation and a context one running
invocation; a version counts the completed invocations; every step of a row is one of
`ContextStep` and `InvocationStep`; a run is dispatched once and a completed receipt is kept;
one constant limit holds for every session; and an erased context is never used again. -/
theorem specialist_contexts_consistent (codec : Codec) (owner : Uuid → Int) {s₀ s : State}
    (h₀ : Initial owner s₀) (h : (machine codec owner).Reachable s₀ s) :
    ((s.db.contexts.map ContextRow.id).Nodup ∧ (s.db.invocations.map InvocationRow.id).Nodup
      ∧ (s.db.invocations.map InvocationRow.rootRunId).Nodup
      ∧ ∀ contextId, s.db.running contextId ≤ 1)
    ∧ (∀ c ∈ s.db.contexts, c.version = 1 + s.db.completed c.id)
    ∧ (∀ op, (∀ c ∈ s.db.contexts, ∃ c' ∈ (exec codec op s).db.contexts, ContextStep s op c c')
      ∧ ∀ i ∈ s.db.invocations, ∃ i' ∈ (exec codec op s).db.invocations, InvocationStep codec op i i')
    ∧ s.dispatched.Nodup
    ∧ (∀ s', (machine codec owner).Reachable s s' →
        (∀ i ∈ s.db.invocations, i.status = .completed → Kept i s')
        ∧ ∀ c ∈ s.db.contexts, c.scrubbedAt ≠ none → c ∈ s'.db.contexts)
    ∧ (∀ maximum, ((machine codec owner).restrict fun op _ => op.limited maximum).Reachable s₀ s →
        ∀ session, s.db.unexpired session s.clock ≤ maximum)
    ∧ ∀ c ∈ s.db.contexts, c.scrubbedAt ≠ none →
        c.data.scrubbed = c.data
        ∧ (∀ claim input moment contextId invocationId db begun,
            contextId ∉ s.db.contexts.map ContextRow.id →
            begin codec s.db claim input moment contextId invocationId = .ok (db, begun) → begun.context.id ≠ c.id)
        ∧ ∀ claim invocationId input moment db view,
            complete codec s.db claim invocationId input moment = .ok (db, view) → view.contextId ≠ c.id := by
  have hs : Consistent owner s := h.invariant h₀.consistent fun op s hop hs => hs.step hop
  refine ⟨⟨hs.contextIds, hs.invocationIds, hs.runs, hs.running⟩, hs.version, ?_, ?_, ?_, ?_, ?_⟩
  · exact fun op => ⟨context_step codec op hs, invocation_step codec op hs⟩
  · exact hs.dispatched ▸ hs.runs
  · exact fun s' h' => ⟨fun i hi => receipt_kept hs h' hi, fun c hc => erased_kept hs h' hc⟩
  · exact fun maximum hlimited => limit_kept h₀ hlimited
  · exact fun c hc herased => erased_unused hs hc herased

/-! ## A run

Run 1 opens a context and completes its turn, run 2 takes another turn and loses its lease, and
after the second session has been left alone long enough its context is erased. -/

def exampleCodec : Codec where
  contextBytes context := 512 + (context.history.map fun m => 32 + m.content.length).sum
  invocationBytes view := 512 + (view.report.getD []).length
  reportBytes report := report.length
  completionBytes input := 64 + (input.history.map fun m => 32 + m.content.length).sum
  beginHash input := input.scopeSha256 ++ input.taskClass
  completionHash input := input.report

def exampleBinding : SpecialistProviderBinding :=
  ⟨js "profile", js "version", js "model", js "http", js "r1", 1, 1⟩

def exampleProviders : ProviderTables :=
  ⟨[⟨7, true, 1⟩], [⟨js "profile", some (js "version"), 1, js "enabled", true, false, js "all_agent_users"⟩],
    [⟨js "version", js "profile", js "model", js "http", js "r1", true⟩], [], []⟩

def exampleClaim (run token : String) (attempts : Nat) : AgentRunClaim :=
  ⟨js run, 7, js "session", attempts, js "worker", js token⟩

def exampleRun (run token : String) (attempts leaseExpiresAt : Nat) : RootRun :=
  ⟨js run, 7, js "session", .running, attempts, some (js "worker"), some (js token), some leaseExpiresAt, none⟩

def exampleBegin (context : Option (Uuid × Nat)) : BeginSpecialistInvocationInput :=
  ⟨context.map Prod.fst, context.map Prod.snd, exampleBinding, List.replicate 64 48, js "analysis",
    js "simple", 4, 8192, 500⟩

def exampleCompletion (turns : List String) : CompleteSpecialistInvocationInput :=
  ⟨turns.map fun turn => ⟨.user, js turn⟩, none, js "report", none, 8192, 4096⟩

def exampleSessions : List RootSession := [⟨js "session", 7, false, some 1000⟩]

def exampleStart : State :=
  ⟨⟨exampleSessions, [exampleRun "run1" "a" 1 100, exampleRun "run2" "b" 1 300], [], []⟩, 0, []⟩

def exampleOps : List Op :=
  [ .begin (exampleClaim "run1" "a" 1) (exampleBegin none) ⟨10, 11, exampleProviders⟩ (js "c1") (js "i1"),
    .complete (exampleClaim "run1" "a" 1) (js "i1") (exampleCompletion ["one"]) ⟨20, 21, exampleProviders⟩,
    .begin (exampleClaim "run2" "b" 1) (exampleBegin (some (js "c1", 2))) ⟨30, 31, exampleProviders⟩ (js "c2")
      (js "i2"),
    .roots exampleSessions [exampleRun "run1" "a" 1 100, exampleRun "run2" "c" 2 300] 40,
    .complete (exampleClaim "run2" "c" 2) (js "i2") (exampleCompletion ["one", "two"])
      ⟨50, 51, exampleProviders⟩,
    .roots exampleSessions [] 600,
    .expire 600 ]

theorem specialist_contexts_consistent_example :
    let s := (machine exampleCodec fun _ => 7).after exampleOps exampleStart
    s.dispatched = [js "run1", js "run2"]
    ∧ s.db.contexts.map (fun c => (c.version, c.data.history, c.scrubbedAt)) = [(2, [], some 600)]
    ∧ s.dispatched.Nodup := by
  have h : (machine exampleCodec fun _ => 7).Reachable exampleStart
      ((machine exampleCodec fun _ => 7).after exampleOps exampleStart) :=
    ⟨exampleOps, by decide, rfl⟩
  refine ⟨by decide, by decide, ?_⟩
  exact (specialist_contexts_consistent exampleCodec (fun _ => 7) ⟨rfl, rfl, rfl, by decide⟩ h).2.2.2.1

end TsEpistle.Specialists
