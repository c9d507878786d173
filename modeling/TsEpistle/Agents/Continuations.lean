import TsEpistle.Agents.Execution

/-! The stored continuations of runs. A claim raises the attempt of a run that is queued,
and maintenance queues a running one with its checkpoint; where no claim meets such a
run, every checkpoint is of the current attempt. -/

namespace TsEpistle.Agents
open Library Checked

variable {codec : Codec} {s : State} {op : Op}

/-- Where a claim reaches a candidate that it has read as queued or without a checkpoint,
and that awaits no approval, the row has no checkpoint. -/
def RaisesNone (op : Op) (s : State) : Prop :=
  match op with
  | .claimNext _ => ∀ candidate ∈ s.next, candidate.status ≠ .awaitingApproval →
      (candidate.status = .queued ∨ candidate.checkpoint = none) →
      ∀ row ∈ s.db.run candidate.id, row.checkpoint = none
  | _ => True

instance (op : Op) (s : State) : Decidable (RaisesNone op s) :=
  match op with
  | .claimNext _ => inferInstanceAs (Decidable (∀ candidate ∈ s.next,
      candidate.status ≠ .awaitingApproval →
      (candidate.status = .queued ∨ candidate.checkpoint = none) →
      ∀ row ∈ s.db.run candidate.id, row.checkpoint = none))
  | .admitRun .. | .beginClaim .. | .selectCandidates .. | .heartbeat .. | .heartbeatReservation ..
  | .transition .. | .resumeApproval .. | .persistContinuation .. | .markSideEffectsStarted ..
  | .requestCancellation .. | .terminalize .. | .ensureQuota .. | .persistIntent ..
  | .persistDispatch .. | .appendPresentation .. | .resetDailyTokenQuota .. | .clearContinuation ..
  | .createProposal .. | .recoverRuns .. | .tombstone .. | .finishTombstone | .selectExpired ..
  | .releaseExpired .. | .tick .. => .isTrue trivial

instance (op : Op) (s : State) :
    Decidable (((coordinator codec).restrict RaisesNone).enabled op s) :=
  inferInstanceAs (Decidable (_ ∧ _))

/-- A checkpoint of the run is its own, of its attempt, and agrees with the ledger. -/
structure Belongs (db : Database) (run : Run) (checkpoint : AgentApprovalContinuationCheckpoint) :
    Prop where
  runId : checkpoint.runId = run.id
  ownerId : checkpoint.ownerId = run.ownerId
  attempt : checkpoint.attempt = run.attempts
  ledger : ledgerAgrees db checkpoint = true

variable {checkpoint : AgentApprovalContinuationCheckpoint}

theorem ledgerAgrees_append {db : Database} {proposals : List ProposalRow}
    {approvals : List ApprovalRow} (h : ledgerAgrees db checkpoint = true) :
    ledgerAgrees { db with
      proposals := db.proposals ++ proposals, approvals := db.approvals ++ approvals }
      checkpoint = true := by
  unfold ledgerAgrees at h ⊢
  simp only [Bool.and_eq_true, Option.any_eq_true] at h ⊢
  obtain ⟨⟨proposal, hproposal, hp⟩, approval, happroval, ha⟩ := h
  rw [Table.get_append, Table.get_append, hproposal, happroval]
  exact ⟨⟨proposal, rfl, hp⟩, approval, rfl, ha⟩

theorem DbStep.ledger {o : Origin} {db db' : Database} (h : DbStep o db db')
    (hledger : ledgerAgrees db checkpoint = true) : ledgerAgrees db' checkpoint = true := by
  cases h with
  | proposed proposal approval => exact ledgerAgrees_append hledger
  | _ => exact hledger

theorem Steps.ledger {o : Origin} {db db' : Database} (h : Steps o db db')
    (hledger : ledgerAgrees db checkpoint = true) : ledgerAgrees db' checkpoint = true := by
  induction h with
  | refl => exact hledger
  | tail _ hstep ih => exact hstep.ledger ih

theorem runtimeState_ok {stored : Option RuntimeState} {state : RuntimeState}
    (h : runtimeState codec stored = .ok state) : state.continuation = stored.bind (·.continuation) := by
  unfold runtimeState at h
  split at h
  · cases h
    rfl
  · split at h
    · cases h
    · cases h
      rfl

/-- A candidate that goes to another attempt was read as queued or without a checkpoint. -/
theorem raised_candidate {db : Database} {candidate : Run}
    (hreclaim : hasReclaimableActionContinuation codec db candidate = .ok false)
    (hside : ¬ (candidate.status = .running ∧ candidate.sideEffectsStarted = true))
    (hactive : candidate.isTerminal = false) (hawaiting : candidate.status ≠ .awaitingApproval) :
    candidate.status = .queued ∨ candidate.checkpoint = none := by
  by_cases hrunning : candidate.status = .running
  · right
    unfold hasReclaimableActionContinuation at hreclaim
    have hunfenced : candidate.sideEffectsStarted = false := by simpa [hrunning] using hside
    rw [if_neg (by simp [hrunning, hunfenced])] at hreclaim
    obtain ⟨state, hstate, hreclaim⟩ := bind_ok hreclaim
    obtain ⟨checkpoint, hdecode, hreclaim⟩ := bind_ok hreclaim
    cases checkpoint with
    | some checkpoint =>
      dsimp only at hreclaim
      split at hreclaim
      · cases hreclaim
      · obtain ⟨-, -, hreclaim⟩ := bind_ok hreclaim
        cases hreclaim
    | none =>
      exact (runtimeState_ok hstate).symm.trans (decodeActionContinuation_ok hdecode).symm
  · left
    cases hstatus : candidate.status with
    | terminal status => simp [Run.isTerminal, hstatus] at hactive
    | active status =>
      cases status with
      | queued => rfl
      | running => exact absurd hstatus hrunning
      | awaitingApproval => exact absurd hstatus hawaiting

/-- **Step.** -/
theorem RowStep.belongs {run run' : Run} {daily daily' : List DailyRow} (hs : Claiming s)
    (hraises : RaisesNone op s) (h : RowStep (op.origin codec s) run daily run' daily')
    (hrun : ∀ checkpoint, run.checkpoint = some checkpoint → Belongs s.db run checkpoint) :
    ∀ checkpoint, run'.checkpoint = some checkpoint → Belongs s.db run' checkpoint := by
  -- a write that keeps the runtime state, the identity and the attempt
  have hkept : run'.runtimeState = run.runtimeState → run'.attempts = run.attempts →
      ∀ checkpoint, run'.checkpoint = some checkpoint → Belongs s.db run' checkpoint := by
    intro hstate hattempts checkpoint hcheckpoint
    have hold := hrun checkpoint (by rw [← hcheckpoint, Run.checkpoint, Run.checkpoint, hstate])
    obtain ⟨hid, -, howner⟩ := h.identity
    exact ⟨by rw [hid, hold.runId], by rw [howner, hold.ownerId], by rw [hattempts, hold.attempt], hold.ledger⟩
  cases h with
  | raised ownerId target limits expiresAt now run' daily' h =>
    obtain ⟨reservation, rfl⟩ := ensureAgentRunQuota_reservation_only h
    exact hkept rfl rfl
  | settled input current run' daily' hstatus h =>
    obtain ⟨reservation, rfl⟩ := terminalizeAgain_reservation_only h
    exact hkept rfl rfl
  | released ownerId now run' daily' horigin h =>
    obtain ⟨reservation, rfl⟩ := h.reservation_only
    exact hkept rfl rfl
  | ended input status run' daily' horigin hid hstatus hexpected h =>
    intro checkpoint hcheckpoint
    rw [Run.checkpoint, (terminalizeActive_endsAs h).runtimeState] at hcheckpoint
    cases hcheckpoint
  | suspended checkpoint state now horigin hledger hstate hown hstatus hcancel =>
    intro checkpoint' hcheckpoint
    have heq : checkpoint = checkpoint' := by
      simpa [Run.checkpoint, suspendedRun, hstate] using hcheckpoint
    subst heq
    exact ⟨hown.1, hown.2.1, hown.2.2, hledger⟩
  | cleared state now hstate hclaimed =>
    intro checkpoint hcheckpoint
    rw [Run.checkpoint, hstate] at hcheckpoint
    cases hcheckpoint
  | granted options candidate reclaiming leaseToken horigin hid hactive hfence =>
    obtain ⟨hgrants, hrow⟩ := horigin
    rw [← hid] at hrow
    have hattempts := hgrants.attempts hs hrow
    by_cases hkeeps : candidate.status = .awaitingApproval ∨ reclaiming = true
    · refine hkept rfl ?_
      simp [grantedRun, grantedAttempts, hkeeps, hattempts]
    · rw [not_or, Bool.not_eq_true] at hkeeps
      obtain ⟨hawaiting, rfl⟩ := hkeeps
      have hnext := hgrants.next
      obtain ⟨rfl, claim, rest, -, -, -, hverdict⟩ := hgrants
      cases considerCandidate_ok hverdict with
      | grant _ hside hreclaim hslots =>
      have hnone := hraises candidate hnext hawaiting
        (raised_candidate hreclaim hside hactive hawaiting) run hrow
      intro checkpoint hcheckpoint
      rw [show (grantedRun options candidate false leaseToken run).checkpoint = run.checkpoint
        from rfl, hnone] at hcheckpoint
      cases hcheckpoint
  | _ => exact hkept rfl rfl

theorem belongs_exec (hs : Claiming s) (hop : (coordinator codec).enabled op s) (hraises : RaisesNone op s)
    (hruns : ∀ run ∈ s.db.runs, ∀ checkpoint, run.checkpoint = some checkpoint → Belongs s.db run checkpoint) :
    ∀ run ∈ (exec codec op s).db.runs, ∀ checkpoint, run.checkpoint = some checkpoint →
    Belongs (exec codec op s).db run checkpoint := by
  have hsteps := exec_steps hs hop
  intro run hrun checkpoint hcheckpoint
  have hkept := hsteps.forall_runs
    (P := fun run => ∀ checkpoint, run.checkpoint = some checkpoint → Belongs s.db run checkpoint)
    (fun _ _ _ _ hstep => hstep.belongs hs hraises) ?_ hruns run hrun checkpoint hcheckpoint
  · exact { hkept with ledger := hsteps.ledger hkept.ledger }
  · intro input reservation _ checkpoint hnone
    cases hnone

theorem runtimeState_error {stored : Option RuntimeState} {e : AgentRepositoryError}
    (h : runtimeState codec stored = .error e) : e.code ≠ "AGENT_ACTION_CONTINUATION_MISMATCH" := by
  unfold runtimeState at h
  split at h
  · cases h
  · split at h
    · cases h
      decide
    · cases h

theorem decodeActionContinuation_error {state : RuntimeState} {e : AgentRepositoryError}
    (h : decodeActionContinuation codec state = .error e) : e.code ≠ "AGENT_ACTION_CONTINUATION_MISMATCH" := by
  unfold decodeActionContinuation at h
  split at h
  · cases h
  · split at h
    · cases h
    · cases h
      decide

/-- The ways in which a lease holder's read of its continuation fails. -/
theorem readAgentApprovalContinuation_error {lease : AgentRunLease} {e : AgentRepositoryError}
    (hruns : ∀ run ∈ s.db.runs, ∀ checkpoint, run.checkpoint = some checkpoint → Belongs s.db run checkpoint)
    (h : readAgentApprovalContinuation codec s.db lease = .error e) :
    e.code ≠ "AGENT_ACTION_CONTINUATION_MISMATCH" := by
  unfold readAgentApprovalContinuation at h
  split at h
  · cases h
    decide
  · rename_i run hfound
    obtain ⟨howned, hcond⟩ := Option.filter_eq_some_iff.mp hfound
    obtain ⟨hrun, howner⟩ := ownedRun_eq howned
    obtain ⟨hmem, hid⟩ := run_mem hrun
    simp only [Bool.and_eq_true, decide_eq_true_eq] at hcond
    -- what was read is the checkpoint of the row
    cases hstate : runtimeState codec run.runtimeState with
    | error e' =>
      rw [hstate] at h
      cases h
      exact runtimeState_error hstate
    | ok state =>
      rw [hstate] at h
      dsimp only [bind, Except.bind] at h
      cases hdecode : decodeActionContinuation codec state with
      | error e' =>
        rw [hdecode] at h
        cases h
        exact decodeActionContinuation_error hdecode
      | ok checkpoint =>
        rw [hdecode] at h
        dsimp only at h
        have hstored := (decodeActionContinuation_ok hdecode).trans (runtimeState_ok hstate)
        cases checkpoint with
        | none => cases h
        | some checkpoint =>
          have hown := hruns run hmem checkpoint hstored.symm
          have hmatches : (checkpoint.runId ≠ lease.id || checkpoint.ownerId ≠ lease.ownerId
              || checkpoint.attempt ≠ lease.attempts) = false := by
            simp [hown.runId, hid, hown.ownerId, howner, hown.attempt, hcond]
          dsimp only at h
          rw [hmatches, if_neg (by decide), assertContinuationLedger, if_pos hown.ledger] at h
          cases h

/-! ## Runs -/

/-- **Continuations.** Where no claim raises the attempt of a run with a checkpoint, every
stored checkpoint is of the current attempt, and no lease holder finds another one's. -/
theorem continuation_attempt {users : List Int} {sessions : List AgentSession} {clock : Time}
    (h : ((coordinator codec).restrict RaisesNone).Reachable (.initial users sessions clock) s) :
    (∀ run ∈ s.db.runs, run.isTerminal = false → ∀ checkpoint, run.checkpoint = some checkpoint →
      checkpoint.attempt = run.attempts)
    ∧ ∀ lease e, readAgentApprovalContinuation codec s.db lease = .error e →
      e.code ≠ "AGENT_ACTION_CONTINUATION_MISMATCH" := by
  have hruns : ∀ run ∈ s.db.runs, ∀ checkpoint, run.checkpoint = some checkpoint →
      Belongs s.db run checkpoint := by
    refine h.invariant_under
      (J := fun s => ∀ run ∈ s.db.runs, ∀ checkpoint, run.checkpoint = some checkpoint → Belongs s.db run checkpoint)
      (Claiming.initial users sessions clock) (fun _ _ hop hs => hs.exec hop.1) ?_
      fun _ _ hop hs => belongs_exec hs hop.1 hop.2
    intro run hrun
    cases hrun
  refine ⟨fun run hrun _ checkpoint hcheckpoint => (hruns run hrun checkpoint hcheckpoint).attempt, ?_⟩
  exact fun lease e => readAgentApprovalContinuation_error hruns

/-- The ledger rows of the example's action. -/
def exampleProposal : Op :=
  .createProposal
    { id := js "p", isAgent := true, runId := some (js "A"), requesterRequestId := js "A"
      requesterUserId := some 7, actionCallId := js "c", actionName := js "page.update"
      input := some (js "x"), inputHash := List.replicate 64 97, authorityVersion := 1
      authoritySha256 := List.replicate 64 97 }
    { id := js "q", proposalId := js "p", runId := some (js "A"), requesterUserId := some 7
      inputHash := List.replicate 64 97, authorityVersion := 1
      authoritySha256 := List.replicate 64 97 }

def exampleContinuation : PersistAgentApprovalContinuationInput where
  runId := js "A"
  ownerId := 7
  attempt := 1
  leaseToken := js "t1"
  actionCallId := js "c"
  actionName := js "page.update"
  actionInput := js "x"
  proposalId := js "p"
  approvalId := js "q"
  proposalInputHash := List.replicate 64 97
  authorityVersion := 1
  authoritySha256 := List.replicate 64 97

/-- The first run, resumed with its checkpoint after an approval. -/
def exampleResumed : List Op :=
  exampleClaimed ++ [exampleProposal, .persistContinuation exampleContinuation 2,
    .resumeApproval (exampleLease 1 (js "t1")) 3]

/-- Its lease expires and another worker goes on with it. -/
def exampleReclaimed : List Op :=
  exampleResumed ++ claimOps exampleCodec (exampleClaim 100) (js "t2")
    ((coordinator exampleCodec).after exampleResumed exampleStart)

theorem continuation_attempt_example :
    (∀ run ∈ ((coordinator exampleCodec).after exampleReclaimed exampleStart).db.runs,
      run.isTerminal = false → ∀ checkpoint, run.checkpoint = some checkpoint → checkpoint.attempt = run.attempts)
    ∧ ∀ lease e, readAgentApprovalContinuation exampleCodec
        ((coordinator exampleCodec).after exampleReclaimed exampleStart).db lease = .error e →
      e.code ≠ "AGENT_ACTION_CONTINUATION_MISMATCH" :=
  have hreachable : ((coordinator exampleCodec).restrict RaisesNone).Reachable exampleStart
      ((coordinator exampleCodec).after exampleReclaimed exampleStart) :=
    ⟨exampleReclaimed, by decide, rfl⟩
  continuation_attempt hreachable

/-- Its lease expires, maintenance queues it again, and another worker claims it. -/
def exampleRequeued : List Op :=
  let requeued := exampleResumed ++ [.recoverRuns [js "A"] 100]
  requeued ++ claimOps exampleCodec (exampleClaim 101) (js "t2")
    ((coordinator exampleCodec).after requeued exampleStart)

/-- The checkpoint of a requeued run is not of the attempt that finds it. -/
theorem requeued_checkpoint :
    (coordinator exampleCodec).Valid exampleRequeued exampleStart
    ∧ (((coordinator exampleCodec).after exampleRequeued exampleStart).db.runs.map fun run =>
        (run.status, run.attempts, run.checkpoint.map (·.attempt))) = [(.running, 2, some 1)]
    ∧ readAgentApprovalContinuation exampleCodec
        ((coordinator exampleCodec).after exampleRequeued exampleStart).db
        (exampleLease 2 (js "t2"))
      = .error ⟨"AGENT_ACTION_CONTINUATION_MISMATCH",
        "Action continuation does not belong to the claimed run attempt", 409⟩ := by
  decide

end TsEpistle.Agents
