import TsEpistle.Agents.Execution

/-! The side-effect fence. A claim decides on the candidate that it has read, and its
update does not look at the fence; where the candidate and the row agree on it, a fenced
run stays with its lease until it ends. -/

namespace TsEpistle.Agents
open Library Checked List

variable {codec : Codec} {s : State} {op : Op}

/-- Claims, heartbeats, fences, terminalizations and maintenance: no run waits for an
approval or is given back. A claim finds the fence of its next candidate as it has read
it. -/
def ReadsFence (op : Op) (s : State) : Prop :=
  match op with
  | .claimNext _ => ∀ candidate ∈ s.next, ∀ row ∈ s.db.run candidate.id,
      candidate.sideEffectsStarted = row.sideEffectsStarted
  | .transition input => ∀ status, input.target ≠ .active status
  | .resumeApproval .. => False
  | .persistContinuation .. => False
  | _ => True

/-! ## Fenced runs -/

/-- A fenced run is running or has ended. -/
def Run.FenceKept (run : Run) : Prop :=
  run.sideEffectsStarted = true → run.status = .running ∨ run.isTerminal = true

/-- How a run may end whose side effects began under the lease. -/
def EndsFenced (log : List LogEntry) (id leaseToken : Uuid) (status : AgentTerminalRunStatus) :
    Prop :=
  status = .recoveryRequired ∨ status = .cancelled ∨ .reported id leaseToken status ∈ log

/-- The run is fenced at the attempt, and has its lease until it ends. -/
structure FencedAt (log : List LogEntry) (runId : Uuid) (attempts : Nat) (leaseToken : Uuid)
    (run : Run) : Prop where
  id : run.id = runId
  fence : run.sideEffectsStarted = true
  attempt : run.attempts = attempts
  status : (run.status = .running ∧ run.leaseToken = some leaseToken)
    ∨ ∃ status, run.status = .terminal status ∧ EndsFenced log runId leaseToken status

theorem FencedAt.mono {log log' : List LogEntry} {id leaseToken : Uuid} {attempts : Nat} {run : Run}
    (h : FencedAt log id attempts leaseToken run) (hlog : ∀ e ∈ log, e ∈ log') :
    FencedAt log' id attempts leaseToken run := by
  refine ⟨h.id, h.fence, h.attempt, h.status.imp (fun hrunning => hrunning) ?_⟩
  rintro ⟨status, hstatus, hends⟩
  exact ⟨status, hstatus, hends.imp (fun h => h) fun hends => hends.imp (fun h => h) (hlog _)⟩

/-- A terminalization that a claim has gathered recovers a fenced run. -/
def Recovers (input : TerminalizeAgentRunInput) (run : Run) : Prop :=
  run.sideEffectsStarted = true → run.isTerminal = false → input.status = .recoveryRequired

structure Fencing (s : State) : Prop where
  claiming : Claiming s
  kept : ∀ run ∈ s.db.runs, run.FenceKept
  gathered : ∀ claim, s.claim = some claim → ∀ input ∈ claim.ended,
    ∃ row, s.db.run input.runId = some row ∧ Recovers input row
  untouched : ∀ claim, s.claim = some claim → claim.candidates = none → claim.ended = []
  distinct : ∀ claim, s.claim = some claim → (claim.ended.map (·.runId) ++ (claim.candidates.getD []).map Run.id).Nodup
  fenced : ∀ id attempts leaseToken, .fenced id attempts leaseToken ∈ s.log →
    ∃ run, s.db.run id = some run ∧ FencedAt s.log id attempts leaseToken run
  granted : s.log.Pairwise fun later earlier => ∀ id attempts leaseToken attempts' leaseToken',
    earlier = .fenced id attempts leaseToken → later ≠ .granted id attempts' leaseToken'

/-! ## Writes -/

theorem no_moves (hreads : ReadsFence op s) {run : Run} {target : ActiveStatus} :
    ¬ (op.origin codec s).moves run target := by
  rintro (⟨input, rfl, htarget⟩ | ⟨lease, now, rfl⟩ | ⟨-, input, now, rfl⟩)
  · exact hreads target htarget
  · exact hreads
  · exact hreads

/-- A claim grants no fenced run. -/
theorem granted_unfenced {options : ClaimAgentRunOptions} {candidate run : Run} {reclaiming : Bool} {leaseToken : Uuid}
    (hreads : ReadsFence op s) (hgrants : Grants codec s op options candidate reclaiming leaseToken)
    (hrow : s.db.run candidate.id = some run) (hfence : grantFence candidate run = true) (hkept : run.FenceKept)
    (hactive : candidate.isTerminal = false) : run.sideEffectsStarted = false := by
  have hnext := hgrants.next
  obtain ⟨rfl, claim, rest, -, -, -, hverdict⟩ := hgrants
  have hside : ¬ (candidate.status = .running ∧ candidate.sideEffectsStarted = true) := by
    cases considerCandidate_ok hverdict with
    | grant _ hside => exact hside
  have hsame : candidate.sideEffectsStarted = run.sideEffectsStarted := hreads candidate hnext run hrow
  simp only [grantFence, Bool.and_eq_true, decide_eq_true_eq] at hfence
  by_contra hfenced
  have hfenced : run.sideEffectsStarted = true := by simpa using hfenced
  rcases hkept hfenced with hrunning | hterminal
  · exact hside ⟨by rw [← hfence.1.1, hrunning], by rw [hsame, hfenced]⟩
  · rw [Run.isTerminal, hfence.1.1, ← Run.isTerminal, hactive] at hterminal
    cases hterminal

variable {daily daily' : List DailyRow}

theorem RowStep.fence_kept {run run' : Run} (hreads : ReadsFence op s)
    (h : RowStep (op.origin codec s) run daily run' daily') (hkept : run.FenceKept) : run'.FenceKept := by
  by_cases hterminal : run.isTerminal = true
  · obtain ⟨reservation, rfl⟩ := h.of_terminal hterminal
    exact hkept
  have hrunning : run.sideEffectsStarted = true → run.status = .running :=
    fun hfence => (hkept hfence).resolve_right hterminal
  cases h with
  | moved input target horigin => exact absurd horigin (no_moves hreads)
  | resumed now horigin => exact absurd horigin (no_moves hreads)
  | suspended checkpoint state now horigin => exact absurd horigin (no_moves hreads)
  | fenced now horigin hstatus => exact fun _ => .inl hstatus
  | raised ownerId target limits expiresAt now run' daily' h =>
    obtain ⟨reservation, rfl⟩ := ensureAgentRunQuota_reservation_only h
    exact hkept
  | requeued now hstatus hfence =>
    intro hfenced
    rw [show (requeuedRun now run).sideEffectsStarted = run.sideEffectsStarted from rfl, hfence] at hfenced
    cases hfenced
  | ended input status run' daily' horigin hid hstatus hexpected h =>
    intro _
    right
    simp [Run.isTerminal, (terminalizeActive_endsAs h).status]
  | settled input current run' daily' hstatus => simp [Run.isTerminal, hstatus] at hterminal
  | released ownerId now run' daily' horigin h =>
    obtain ⟨reservation, rfl⟩ := h.reservation_only
    exact hkept
  | granted options candidate reclaiming leaseToken horigin hid hactive hfence =>
    intro hfenced
    have hrow := horigin.2
    rw [← hid] at hrow
    rw [show (grantedRun options candidate reclaiming leaseToken run).sideEffectsStarted
      = run.sideEffectsStarted from rfl,
      granted_unfenced hreads horigin.1 hrow hfence hkept hactive] at hfenced
    cases hfenced
  | _ => exact hkept

/-- What an operation's terminalizations report to the log. -/
def Reports (s : State) (op : Op) (log : List LogEntry) : Prop :=
  ∀ input, Ends s op input → (∀ claim, s.claim = some claim → input ∉ claim.ended) →
    input.status = .cancelled ∨ input.status = .recoveryRequired
    ∨ ∃ leaseToken, (∃ expected, input.expected = some expected
        ∧ expected.leaseToken = some (some leaseToken))
      ∧ LogEntry.reported input.runId leaseToken input.status ∈ log

theorem checkExpected_leaseToken {run : Run} {status : ActiveStatus} {u : Unit} {expected : TerminalizeAgentRunExpected}
    {leaseToken : Uuid} (h : checkExpected run status (some expected) = .ok u)
    (htoken : expected.leaseToken = some (some leaseToken)) : run.leaseToken = some leaseToken := by
  obtain ⟨-, -, h⟩ := bind_ok h
  obtain ⟨-, -, h⟩ := bind_ok h
  obtain ⟨-, -, h⟩ := bind_ok h
  have hmatches := check_ok h
  simpa [matchesExpected, htoken] using hmatches

/-- The terminalizations that a claim has gathered for the run recover it. -/
def Gathered (s : State) (run : Run) : Prop :=
  ∀ claim, s.claim = some claim → ∀ input ∈ claim.ended, input.runId = run.id →
    run.isTerminal = true ∨ input.status = .recoveryRequired

theorem RowStep.gathered {o : Origin} {run run' : Run} (h : RowStep o run daily run' daily')
    (hrun : Gathered s run) : Gathered s run' := by
  intro claim hclaim input hinput hid
  rw [h.id] at hid
  refine (hrun claim hclaim input hinput hid).imp (fun hterminal => ?_) fun hstatus => hstatus
  obtain ⟨reservation, rfl⟩ := h.of_terminal hterminal
  exact hterminal

/-- **Step.** A write to a fenced run keeps its attempt and its lease, or ends it. -/
theorem RowStep.fencedAt {run run' : Run} {log : List LogEntry} {runId leaseToken : Uuid} {attempts : Nat}
    (hreads : ReadsFence op s) (hreports : Reports s op log) (hgathered : Gathered s run)
    (h : RowStep (op.origin codec s) run daily run' daily') (hrun : FencedAt log runId attempts leaseToken run) :
    FencedAt log runId attempts leaseToken run' := by
  by_cases hterminal : run.isTerminal = true
  · obtain ⟨reservation, rfl⟩ := h.of_terminal hterminal
    exact ⟨hrun.id, hrun.fence, hrun.attempt, hrun.status⟩
  obtain ⟨hstatus, hlease⟩ : run.status = .running ∧ run.leaseToken = some leaseToken := by
    refine hrun.status.resolve_right ?_
    rintro ⟨status, hstatus, -⟩
    simp [Run.isTerminal, hstatus] at hterminal
  -- a write that keeps these columns
  have hkeeps : ∀ run'' : Run, run''.id = run.id →
      run''.sideEffectsStarted = run.sideEffectsStarted → run''.attempts = run.attempts →
      run''.status = run.status → run''.leaseToken = run.leaseToken →
      FencedAt log runId attempts leaseToken run'' := by
    intro run'' h₁ h₂ h₃ h₄ h₅
    exact ⟨h₁.trans hrun.id, h₂.trans hrun.fence, h₃.trans hrun.attempt, .inl ⟨h₄.trans hstatus, h₅.trans hlease⟩⟩
  cases h with
  | moved input target horigin => exact absurd horigin (no_moves hreads)
  | resumed now horigin => exact absurd horigin (no_moves hreads)
  | suspended checkpoint state now horigin => exact absurd horigin (no_moves hreads)
  | fenced now horigin => exact ⟨hrun.id, rfl, hrun.attempt, .inl ⟨hstatus, hlease⟩⟩
  | raised ownerId target limits expiresAt now run' daily' h =>
    obtain ⟨reservation, rfl⟩ := ensureAgentRunQuota_reservation_only h
    exact hkeeps _ rfl rfl rfl rfl rfl
  | released ownerId now run' daily' horigin h =>
    obtain ⟨reservation, rfl⟩ := h.reservation_only
    exact hkeeps _ rfl rfl rfl rfl rfl
  | settled input current run' daily' hcurrent =>
    rw [hcurrent] at hstatus
    cases hstatus
  | requeued now hrunning hfence =>
    rw [hrun.fence] at hfence
    cases hfence
  | unleased now hawaiting =>
    rw [hawaiting] at hstatus
    cases hstatus
  | granted options candidate reclaiming token horigin hid hactive hfence =>
    have hrow := horigin.2
    rw [← hid] at hrow
    have hunfenced := granted_unfenced hreads horigin.1 hrow hfence (fun _ => .inl hstatus) hactive
    rw [hrun.fence] at hunfenced
    cases hunfenced
  | ended input status run' daily' horigin hid hactive hexpected h =>
    have hends := terminalizeActive_endsAs h
    refine ⟨hends.id.trans hrun.id, hends.sideEffectsStarted.trans hrun.fence,
      hends.attempts.trans hrun.attempt, .inr ⟨_, hends.status, ?_⟩⟩
    -- a requested cancellation wins
    unfold terminalStatus
    split
    · by_cases hclaim : ∃ claim, s.claim = some claim ∧ input ∈ claim.ended
      · obtain ⟨claim, hclaim, hinput⟩ := hclaim
        exact .inl ((hgathered claim hclaim input hinput hid).resolve_left hterminal)
      · rcases hreports input horigin fun claim hclaim' hinput => hclaim ⟨claim, hclaim', hinput⟩
          with hcancelled | hrecovery | ⟨token, ⟨expected, hexpected', htoken⟩, hreported⟩
        · exact .inr (.inl hcancelled)
        · exact .inl hrecovery
        · rw [hexpected'] at hexpected
          have hsame := checkExpected_leaseToken hexpected htoken
          rw [hlease] at hsame
          cases hsame
          rw [hid, hrun.id] at hreported
          exact .inr (.inr hreported)
    · exact .inr (.inl rfl)
  | _ => exact hkeeps _ rfl rfl rfl rfl rfl

/-! ## The log -/

/-- A terminalization that a worker has made is in the log. -/
theorem reports (hchanged : exec codec op s ≠ s) : Reports s op (exec codec op s).log := by
  intro input hends hclaim
  cases hends with
  | worker lease status assistant quota runPatch errorCode errorMessage now =>
    refine .inr (.inr ⟨lease.leaseToken, ⟨_, rfl, rfl⟩, ?_⟩)
    simp only [exec] at hchanged ⊢
    split
    · rename_i e he
      simp [he] at hchanged
    · simp [entry, workerOutcome]
  | transition input status htarget =>
    refine .inr (.inr ⟨input.lease.leaseToken, ⟨_, rfl, rfl⟩, ?_⟩)
    simp only [exec] at hchanged ⊢
    split
    · rename_i e he
      simp [he] at hchanged
    · simp [entry, workerOutcome, htarget]
  | claim leaseToken transaction input hclaim' hinput => exact absurd hinput (hclaim _ hclaim')
  | abandoned op input hstatus =>
    rcases hstatus with hstatus | hstatus
    · exact .inl hstatus
    · exact .inr (.inl hstatus)

/-! ## The terminalizations of a claim -/

variable {input : TerminalizeAgentRunInput}

theorem RowStep.recovers {o : Origin} {run run' : Run} (h : RowStep o run daily run' daily')
    (hfences : ¬ o.fences run) (hrun : Recovers input run) : Recovers input run' := by
  by_cases hterminal : run.isTerminal = true
  · obtain ⟨reservation, rfl⟩ := h.of_terminal hterminal
    exact hrun
  have hactive : run.isTerminal = false := by simpa using hterminal
  cases h with
  | fenced now horigin => exact absurd horigin hfences
  | raised ownerId target limits expiresAt now run' daily' h =>
    obtain ⟨reservation, rfl⟩ := ensureAgentRunQuota_reservation_only h
    exact hrun
  | released ownerId now run' daily' horigin h =>
    obtain ⟨reservation, rfl⟩ := h.reservation_only
    exact hrun
  | settled input current run' daily' hcurrent => simp [Run.isTerminal, hcurrent] at hactive
  | ended input status run' daily' horigin hid hstatus hexpected h =>
    intro _ hactive'
    simp [Run.isTerminal, (terminalizeActive_endsAs h).status] at hactive'
  | _ => exact fun hfence _ => hrun hfence hactive

theorem terminalize_run_ne {db db' : Database} {id : Uuid} (h : terminalizeAgentRunInTransaction db input = .ok db')
    (hne : id ≠ input.runId) : db'.run id = db.run id :=
  (terminalize_wrote (o := Origin.ending) trivial h).run_ne hne

theorem terminalizeAll_run_ne {db db' : Database} {inputs : List TerminalizeAgentRunInput} {id : Uuid}
    (h : terminalizeAll db inputs = .ok db') (hne : id ∉ inputs.map (·.runId)) : db'.run id = db.run id :=
  foldlM_ok (I := fun mid => mid.run id = db.run id) h rfl
    fun input hinput _ _ hstep hmid => by
      have hother : id ≠ input.runId := fun heq =>
        hne (mem_map.mpr ⟨input, hinput, heq.symm⟩)
      rw [terminalize_run_ne hstep hother, hmid]

/-- A fenced candidate that a claim ends, it recovers. -/
theorem gathered_recovers {claim : ClaimTransaction} {candidate row : Run} {rest : List Run} {db' : Database}
    (hs : Fencing s) (hread : candidate.sideEffectsStarted = row.sideEffectsStarted) (hclaim : s.claim = some claim)
    (hcandidates : claim.candidates = some (candidate :: rest)) (hrow : s.db.run candidate.id = some row)
    (hverdict : considerCandidate codec s.db claim.options claim.active candidate = .ok (.terminalize input))
    (hall : terminalizeAll s.db (claim.ended ++ [input]) = .ok db') : Recovers input row := by
  intro hfence hactive
  cases considerCandidate_ok hverdict with
  | lost => rfl
  | exhausted hside =>
  exfalso
  have hrunning : row.status = .running := (hs.kept row (run_mem hrow).1 hfence).resolve_right (by simp [hactive])
  -- the terminalization has met the row that is there
  rw [terminalizeAll, foldlM_append] at hall
  obtain ⟨mid, hmid, hall⟩ := bind_ok hall
  rw [foldlM_cons] at hall
  obtain ⟨last, hlast, -⟩ := bind_ok hall
  obtain ⟨run, run', daily', hrun, hterm, -⟩ := terminalize_ok hlast
  have hdistinct := hs.distinct claim hclaim
  rw [hcandidates, Option.getD_some, map_cons, nodup_append] at hdistinct
  have hnotended : candidate.id ∉ claim.ended.map (·.runId) := fun hmem => hdistinct.2.2 _ hmem _ (by simp) rfl
  rw [show (maxAttemptsExceeded candidate claim.options.now).runId = candidate.id from rfl,
    terminalizeAll_run_ne hmid hnotended, hrow] at hrun
  cases hrun
  unfold terminalizeRun at hterm
  rw [hrunning] at hterm
  obtain ⟨u, hcheck, -⟩ := bind_ok hterm
  obtain ⟨u, hcontains, -⟩ := bind_ok hcheck
  have hcontains : candidate.status.asExpected.contains ActiveStatus.running = true := check_ok hcontains
  refine hside ⟨?_, by rw [hread, hfence]⟩
  cases hstatus : candidate.status with
  | terminal status => simp [hstatus, AgentRunStatus.asExpected] at hcontains
  | active status =>
    rw [hstatus] at hcontains
    have hsame : ActiveStatus.running = status := by
      simpa [AgentRunStatus.asExpected] using hcontains
    rw [← hsame]

/-! ## Operations -/

theorem mark_fenced {lease : AgentRunLease} {now : Time} {db db' : Database}
    (h : markAgentRunSideEffectsStarted db lease now = .ok db') : ∃ run run', db.run lease.id = some run ∧
    db'.run lease.id = some run' ∧ run'.id = lease.id ∧ run'.sideEffectsStarted = true ∧ run'.attempts = run.attempts ∧
    run'.status = .running ∧ run'.leaseToken = some lease.leaseToken := by
  have hupdate := changedOrLost_ok h
  obtain ⟨run, hrun, hcond, hrun'⟩ := updateRun_run (by intro _; rfl) hupdate
  simp only [AgentRunLease.holds, Bool.and_eq_true, decide_eq_true_eq] at hcond
  exact ⟨run, _, hrun, hrun', (run_mem hrun).2, rfl, rfl, hcond.1.1, hcond.1.2.2⟩

/-- The run of a fence that is in the log, after the operation. -/
theorem Fencing.carry (hs : Fencing s) (hop : (coordinator codec).enabled op s)
    (hreads : ReadsFence op s) (hchanged : exec codec op s ≠ s) {id leaseToken : Uuid}
    {attempts : Nat} (hfenced : .fenced id attempts leaseToken ∈ s.log) :
    ∃ run, (exec codec op s).db.run id = some run ∧ FencedAt (exec codec op s).log id attempts leaseToken run := by
  obtain ⟨run, hrun, hat⟩ := hs.fenced id attempts leaseToken hfenced
  have hgathered : Gathered s run := by
    intro claim hclaim input hinput hid
    obtain ⟨row, hrow, hrecovers⟩ := hs.gathered claim hclaim input hinput
    rw [hid, hat.id, hrun] at hrow
    cases hrow
    by_cases hterminal : run.isTerminal = true
    · exact .inl hterminal
    · exact .inr (hrecovers hat.fence (by simpa using hterminal))
  obtain ⟨run', hrun', hat', -⟩ := (exec_steps hs.claiming hop).carries
    (P := fun run => FencedAt (exec codec op s).log id attempts leaseToken run ∧ Gathered s run)
    (fun run daily run' daily' hstep hP =>
      ⟨hstep.fencedAt hreads (reports hchanged) hP.2 hP.1, hstep.gathered hP.2⟩)
    hrun ⟨hat.mono (exec_log : Logs codec s op (Agents.exec codec op s).log).grows, hgathered⟩
  exact ⟨run', hrun', hat'⟩

theorem Fencing.fenced_exec (hs : Fencing s) (hop : (coordinator codec).enabled op s)
    (hreads : ReadsFence op s) (hchanged : exec codec op s ≠ s) :
    ∀ id attempts leaseToken, .fenced id attempts leaseToken ∈ (exec codec op s).log →
      ∃ run, (exec codec op s).db.run id = some run ∧ FencedAt (exec codec op s).log id attempts leaseToken run := by
  intro id attempts leaseToken hmem
  have hlog : Logs codec s op (Agents.exec codec op s).log := exec_log
  generalize hnew : (exec codec op s).log = log at hlog hmem ⊢
  cases hlog with
  | same => exact hnew ▸ hs.carry hop hreads hchanged hmem
  | granted claim leaseToken' db' candidate reclaiming hclaimNext hclaim hround =>
    rcases mem_cons.mp hmem with heq | hmem
    · cases heq
    · exact hnew ▸ hs.carry hop hreads hchanged hmem
  | wrote e hentry hok =>
    rcases mem_cons.mp hmem with heq | hmem
    · subst heq
      cases op with
      | markSideEffectsStarted lease now =>
        obtain ⟨run, run', hrun, hrun', hid, hfence, hattempts, hstatus, hlease⟩ := mark_fenced hok
        simp only [entry, hrun, Option.map_some, Option.some.injEq, LogEntry.fenced.injEq]
          at hentry
        obtain ⟨rfl, rfl, rfl⟩ := hentry
        exact ⟨run', hrun', hid, hfence, hattempts, .inl ⟨hstatus, hlease⟩⟩
      | transition input =>
        simp only [entry] at hentry
        split at hentry <;> cases hentry
      | _ => cases hentry
    · exact hnew ▸ hs.carry hop hreads hchanged hmem

theorem Fencing.granted_exec (hs : Fencing s) (hreads : ReadsFence op s) :
    (exec codec op s).log.Pairwise fun later earlier => ∀ id attempts leaseToken attempts' leaseToken',
    earlier = .fenced id attempts leaseToken → later ≠ .granted id attempts' leaseToken' := by
  have hlog : Logs codec s op (Agents.exec codec op s).log := exec_log
  generalize (exec codec op s).log = log at hlog
  cases hlog with
  | same => exact hs.granted
  | granted claim token db' candidate reclaiming hclaimNext hclaim hround =>
    refine pairwise_cons.mpr ⟨?_, hs.granted⟩
    rintro earlier hmem id attempts leaseToken attempts' leaseToken' rfl hlater
    cases hlater
    obtain ⟨run, hrun, hat⟩ := hs.fenced _ _ _ hmem
    cases hround with
    | granted _ rest _ mid _ hcandidates hverdict hall hupdate =>
      obtain ⟨row, hrow, hfence, -⟩ := updateRun_eq_some.mp hupdate
      have hactive := (hs.claiming.candidates claim hclaim _ hcandidates candidate (by simp)).1
      have hrunning : row.isTerminal = false := by
        have hstatus := hfence
        simp only [grantFence, Bool.and_eq_true, decide_eq_true_eq] at hstatus
        rw [Run.isTerminal, hstatus.1.1]
        exact hactive
      have hsame := terminalizeAll_run hall hrow hrunning
      rw [hrun] at hsame
      cases hsame
      have hunfenced := granted_unfenced hreads
        ⟨hclaimNext, claim, rest, hclaim, rfl, hcandidates, hverdict⟩ hrun hfence
        (hs.kept run (run_mem hrun).1) hactive
      rw [hat.fence] at hunfenced
      cases hunfenced
  | wrote e hentry hok =>
    refine pairwise_cons.mpr ⟨?_, hs.granted⟩
    rintro earlier hmem id attempts leaseToken attempts' leaseToken' rfl rfl
    cases op with
    | transition input =>
      simp only [entry] at hentry
      split at hentry <;> cases hentry
    | markSideEffectsStarted lease now =>
      simp only [entry, Option.map_eq_some_iff] at hentry
      obtain ⟨run, -, hentry⟩ := hentry
      cases hentry
    | _ => cases hentry

/-- A claim that stays finds the rows of its terminalizations locked. -/
theorem Fencing.gathered_exec (hs : Fencing s) (hop : (coordinator codec).enabled op s)
    {claim : ClaimTransaction} (hclaim : s.claim = some claim) (hinput : input ∈ claim.ended) :
    ∃ row, (exec codec op s).db.run input.runId = some row ∧ Recovers input row := by
  obtain ⟨row, hrow, hrecovers⟩ := hs.gathered claim hclaim input hinput
  have hlocked : s.locked input.runId = true := by
    simp only [State.locked, hclaim, Option.any_some, any_eq_true, decide_eq_true_eq]
    exact ⟨input, hinput, rfl⟩
  have hstep : ∀ run daily run' daily', RowStep (op.origin codec s) run daily run' daily' →
      (run.id = input.runId ∧ Recovers input run) → run'.id = input.runId ∧ Recovers input run' := by
    rintro run daily run' daily' hstep ⟨hid, hrun⟩
    refine ⟨hstep.id.trans hid, hstep.recovers ?_ hrun⟩
    rintro ⟨lease, now, rfl, hlease⟩
    have hfree := hop.2.1 lease.id rfl
    rw [hlease, hid, hlocked] at hfree
    cases hfree
  obtain ⟨row', hrow', -, hrecovers'⟩ := (exec_steps hs.claiming hop).carries hstep hrow
    ⟨(run_mem hrow).2, hrecovers⟩
  exact ⟨row', hrow', hrecovers'⟩

/-- What a round has gathered behind its claim. -/
theorem Fencing.claimStep (hs : Fencing s) {leaseToken : Uuid} (hreads : ReadsFence (.claimNext leaseToken) s)
    {claim claim' : ClaimTransaction} (hclaim : s.claim = some claim)
    (hclaim' : (Agents.claimStep codec s claim leaseToken).claim = some claim') :
    (∀ input ∈ claim'.ended, ∃ row, (Agents.claimStep codec s claim leaseToken).db.run input.runId = some row
      ∧ Recovers input row)
    ∧ (claim'.candidates = none → claim'.ended = [])
    ∧ (claim'.ended.map (·.runId) ++ (claim'.candidates.getD []).map Run.id).Nodup := by
  unfold Agents.claimStep at hclaim' ⊢
  cases hround : claimRound codec s.db claim leaseToken with
  | error e =>
    rw [hround] at hclaim'
    cases hclaim'
  | ok round =>
    rw [hround] at hclaim'
    have hgathered := hs.gathered claim hclaim
    have hdistinct := hs.distinct claim hclaim
    cases claimRound_ok hround with
    | waiting hnone =>
      obtain rfl : claim = claim' := by simpa [State.claim] using hclaim'
      exact ⟨hgathered, hs.untouched claim hclaim, hdistinct⟩
    | skipped candidate rest hcandidates =>
      obtain rfl : { claim with candidates := some rest } = claim' := by
        simpa [State.claim] using hclaim'
      refine ⟨hgathered, by simp, ?_⟩
      rw [hcandidates] at hdistinct
      refine hdistinct.sublist (Sublist.append_left ?_ _)
      exact (sublist_cons_self candidate rest).map Run.id
    | gathered candidate rest input db' hcandidates hverdict hall =>
      obtain rfl : { claim with
          candidates := some rest, ended := claim.ended ++ [input] } = claim' := by
        simpa [State.claim] using hclaim'
      have hid : input.runId = candidate.id := by
        cases considerCandidate_ok hverdict with
        | lost | exhausted => rfl
      refine ⟨?_, by simp, ?_⟩
      · refine forall_mem_append.mpr ⟨hgathered, forall_mem_singleton.mpr ?_⟩
        obtain ⟨-, row, hrow, -⟩ := hs.claiming.candidates claim hclaim _ hcandidates candidate (by simp)
        refine ⟨row, by rw [hid]; exact hrow, ?_⟩
        exact gathered_recovers hs
          (hreads candidate (by simp [State.next, hclaim, hcandidates]) row hrow)
          hclaim hcandidates hrow hverdict hall
      · rw [hcandidates] at hdistinct
        simpa [hid] using hdistinct
    | finished | granted => cases hclaim'

theorem Fencing.exec (hs : Fencing s) (hop : (coordinator codec).enabled op s)
    (hreads : ReadsFence op s) : Fencing (exec codec op s) := by
  by_cases hchanged : Agents.exec codec op s = s
  · rw [hchanged]
    exact hs
  have hclaims : (∀ claim, (Agents.exec codec op s).claim = some claim →
      (∀ input ∈ claim.ended, ∃ row, (Agents.exec codec op s).db.run input.runId = some row ∧ Recovers input row)
      ∧ (claim.candidates = none → claim.ended = [])
      ∧ (claim.ended.map (·.runId) ++ (claim.candidates.getD []).map Run.id).Nodup) := by
    intro claim' hclaim'
    have hsame : s.claim = some claim' →
        (∀ input ∈ claim'.ended, ∃ row, (Agents.exec codec op s).db.run input.runId = some row ∧ Recovers input row)
        ∧ (claim'.candidates = none → claim'.ended = [])
        ∧ (claim'.ended.map (·.runId) ++ (claim'.candidates.getD []).map Run.id).Nodup :=
      fun hclaim => ⟨fun _ => hs.gathered_exec hop hclaim, hs.untouched claim' hclaim, hs.distinct claim' hclaim⟩
    cases op with
    | beginClaim options =>
      have hnone := hop.1 rfl
      simp only [Agents.exec] at hclaim' ⊢
      split at hclaim'
      · simp [State.claim, hnone] at hclaim'
      · rename_i claim hbegin
        obtain rfl : claim = claim' := by simpa [State.claim] using hclaim'
        unfold Agents.beginClaim at hbegin
        dsimp only at hbegin
        split at hbegin
        · cases hbegin
        · cases hbegin
          simp
    | selectCandidates rows =>
      have hselect : answersSelect s rows := hop.2.2
      simp only [Agents.exec] at hclaim' ⊢
      cases hclaim : s.claim with
      | none => simp [hclaim] at hclaim'
      | some claim =>
        unfold answersSelect at hselect
        rw [hclaim] at hselect hclaim'
        obtain rfl : { claim with candidates := some (rows.take claimLimit) } = claim' := by
          simpa [State.claim] using hclaim'
        have hended := hs.untouched claim hclaim hselect.1
        dsimp only
        rw [hended]
        refine ⟨by simp, by simp, ?_⟩
        have hrows : (rows.map Run.id).Nodup :=
          (hselect.2.1.map Run.id).nodup_iff.mpr
            (hs.claiming.unique.sublist (filter_sublist.map Run.id))
        simpa using hrows.sublist ((take_sublist claimLimit rows).map Run.id)
    | claimNext leaseToken =>
      simp only [Agents.exec] at hclaim' ⊢
      cases hclaim : s.claim with
      | none => simp [hclaim] at hclaim'
      | some claim =>
        rw [hclaim] at hclaim'
        dsimp only at hclaim' ⊢
        exact hs.claimStep hreads hclaim hclaim'
    | tombstone ownerId sessionIds now =>
      have hnone := hop.1 rfl
      simp only [Agents.exec] at hclaim'
      split at hclaim'
      · simp [State.claim, hnone] at hclaim'
      · cases hclaim'
    | finishTombstone =>
      refine hsame ?_
      simp only [Agents.exec] at hclaim'
      split at hclaim'
      · cases hclaim'
      · exact hclaim'
    | _ =>
      refine hsame ?_
      rw [State.claim, exec_holder (by simp) (by simp) (by simp) (by simp) (by simp)] at hclaim'
      exact hclaim'
  refine ⟨hs.claiming.exec hop, ?_, fun claim hclaim => (hclaims claim hclaim).1,
    fun claim hclaim => (hclaims claim hclaim).2.1, fun claim hclaim => (hclaims claim hclaim).2.2,
    hs.fenced_exec hop hreads hchanged, hs.granted_exec hreads⟩
  refine (exec_steps hs.claiming hop).forall_runs
    (fun _ _ _ _ hstep hrun => hstep.fence_kept hreads hrun) ?_ hs.kept
  intro input reservation _ hfence
  cases hfence

theorem Fencing.initial (users : List Int) (sessions : List AgentSession) (clock : Time) :
    Fencing (.initial users sessions clock) where
  claiming := .initial users sessions clock
  kept := by simp [State.initial, Database.initial]
  gathered := by simp [State.initial, State.claim]
  untouched := by simp [State.initial, State.claim]
  distinct := by simp [State.initial, State.claim]
  fenced := by simp [State.initial]
  granted := .nil

/-! ## Runs -/

/-- **Side effects.** Where every claim finds the fence as it has read it, no run is granted at
a larger attempt after its fence, and one that has ended was recovered, cancelled, or ended as
the worker of the fence reported. -/
theorem side_effect_fence {users : List Int} {sessions : List AgentSession} {clock : Time}
    (h : ((coordinator codec).restrict ReadsFence).Reachable (.initial users sessions clock) s) :
    (s.log.Pairwise fun later earlier => ∀ id attempts leaseToken attempts' leaseToken',
      earlier = .fenced id attempts leaseToken → later = .granted id attempts' leaseToken' → attempts' ≤ attempts)
    ∧ ∀ id attempts leaseToken, .fenced id attempts leaseToken ∈ s.log →
      ∀ run, s.db.run id = some run → ∀ status, run.status = .terminal status →
        status = .recoveryRequired ∨ status = .cancelled ∨ .reported id leaseToken status ∈ s.log := by
  have hs : Fencing s := h.invariant (.initial users sessions clock) fun _ _ hop hs => hs.exec hop.1 hop.2
  refine ⟨hs.granted.imp ?_, ?_⟩
  · intro later earlier hno id attempts leaseToken attempts' leaseToken' hearlier hlater
    exact absurd hlater (hno _ _ _ _ _ hearlier)
  · intro id attempts leaseToken hmem run hrun status hstatus
    obtain ⟨run', hrun', hat⟩ := hs.fenced id attempts leaseToken hmem
    rw [hrun] at hrun'
    cases hrun'
    rcases hat.status with ⟨hrunning, -⟩ | ⟨status', hstatus', hends⟩
    · rw [hstatus] at hrunning
      cases hrunning
    · rw [hstatus] at hstatus'
      cases hstatus'
      exact hends

instance (op : Op) (s : State) : Decidable (ReadsFence op s) :=
  match op with
  | .claimNext leaseToken => inferInstanceAs (Decidable (∀ candidate ∈ s.next,
      ∀ row ∈ s.db.run candidate.id, candidate.sideEffectsStarted = row.sideEffectsStarted))
  | .transition input =>
    match htarget : input.target with
    | .terminal status => .isTrue (by simp [ReadsFence, htarget])
    | .active status => .isFalse fun h => h status htarget
  | .resumeApproval .. => .isFalse id
  | .persistContinuation .. => .isFalse id
  | .admitRun .. | .beginClaim .. | .selectCandidates .. | .heartbeat .. | .heartbeatReservation ..
  | .markSideEffectsStarted .. | .requestCancellation .. | .terminalize .. | .ensureQuota ..
  | .persistIntent .. | .persistDispatch .. | .appendPresentation .. | .resetDailyTokenQuota ..
  | .clearContinuation .. | .createProposal .. | .recoverRuns .. | .tombstone .. | .finishTombstone
  | .selectExpired .. | .releaseExpired .. | .tick .. => .isTrue trivial

instance (op : Op) (s : State) :
    Decidable (((coordinator codec).restrict ReadsFence).enabled op s) :=
  inferInstanceAs (Decidable (_ ∧ _))

/-- The fenced run loses its lease and is recovered. -/
def exampleRecovered : List Op :=
  exampleClaimed ++ [.markSideEffectsStarted (exampleLease 1 (js "t1")) 2, .recoverRuns [js "A"] 100]

theorem side_effect_fence_example :
    (((coordinator exampleCodec).after exampleRecovered exampleStart).log.Pairwise
      fun later earlier => ∀ id attempts leaseToken attempts' leaseToken',
        earlier = .fenced id attempts leaseToken → later = .granted id attempts' leaseToken' → attempts' ≤ attempts)
    ∧ ∀ id attempts leaseToken,
      .fenced id attempts leaseToken ∈ ((coordinator exampleCodec).after exampleRecovered exampleStart).log →
      ∀ run, ((coordinator exampleCodec).after exampleRecovered exampleStart).db.run id = some run →
      ∀ status, run.status = .terminal status →
        status = .recoveryRequired ∨ status = .cancelled
          ∨ .reported id leaseToken status ∈ ((coordinator exampleCodec).after exampleRecovered exampleStart).log :=
  have hreachable : ((coordinator exampleCodec).restrict ReadsFence).Reachable exampleStart
      ((coordinator exampleCodec).after exampleRecovered exampleStart) :=
    ⟨exampleRecovered, by decide, rfl⟩
  side_effect_fence hreachable

/-- A second worker has read the run with its expired lease when the first one fences it. -/
def exampleLateFence : List Op :=
  let ops := claimOps exampleCodec (exampleClaim 100) (js "t2")
    ((coordinator exampleCodec).after exampleClaimed exampleStart)
  exampleClaimed ++ ops.take 2 ++ [.markSideEffectsStarted (exampleLease 1 (js "t1")) 101, .claimNext (js "t2")]

/-- The claim grants a second attempt after the side effects of the first have begun. -/
theorem fenced_run_granted :
    (coordinator exampleCodec).Valid exampleLateFence exampleStart
    ∧ ((coordinator exampleCodec).after exampleLateFence exampleStart).log =
      [.granted (js "A") 2 (js "t2"), .fenced (js "A") 1 (js "t1"), .granted (js "A") 1 (js "t1")]
    ∧ (((coordinator exampleCodec).after exampleLateFence exampleStart).db.runs.map fun run =>
        (run.status, run.attempts, run.sideEffectsStarted)) = [(.running, 2, true)] := by
  decide

end TsEpistle.Agents
