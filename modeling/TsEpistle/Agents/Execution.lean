import TsEpistle.Agents.Writes

/-! What every operation does to the runs, as a sequence of writes, and the transaction
of a claim between its statements: its candidates are runs that had not ended, and no
attempt begins while it is in progress. -/

namespace TsEpistle.Agents
open Library Checked List

/-! ## Sequences of writes -/

section
variable {o : Origin} {db db' : Database}

theorem DbStep.ids (h : DbStep o db db') (hunique : (db.runs.map Run.id).Nodup) : (db'.runs.map Run.id).Nodup := by
  cases h with
  | row run run' daily' hrun h => rwa [put_ids]
  | admitted input reservation daily' hsession hnew hreserve =>
    rw [map_append, nodup_append]
    refine ⟨hunique, by simp, ?_⟩
    intro id hid id' hid' heq
    obtain rfl : id' = input.id := by simpa [queuedRun] using hid'
    subst heq
    obtain ⟨run, hmem, hid⟩ := mem_map.mp hid
    rw [← hid, run_of_mem hunique hmem] at hnew
    cases hnew
  | requested p sessions now hp =>
    have hids := Table.map_updateWhere Run.id (p := p) (f := requestedRun now) (fun _ => rfl) db.runs
    exact hids ▸ hunique
  | credited | proposed => exact hunique

theorem Steps.ids (h : Steps o db db') (hunique : (db.runs.map Run.id).Nodup) : (db'.runs.map Run.id).Nodup := by
  induction h with
  | refl => exact hunique
  | tail _ hstep ih => exact hstep.ids ih

/-- A run stays, and keeps what every write keeps. -/
theorem DbStep.carries {P : Run → Prop} (h : DbStep o db db')
    (hrow : ∀ run daily run' daily', RowStep o run daily run' daily' → P run → P run') {id : Uuid} {run : Run}
    (hrun : db.run id = some run) (hP : P run) : ∃ run', db'.run id = some run' ∧ P run' := by
  cases h with
  | row old new daily' hold hstep =>
    have hid := hstep.id
    rw [← hid] at hold
    rw [put_run hold]
    split
    · rename_i heq
      rw [heq, hold] at hrun
      cases hrun
      exact ⟨new, rfl, hrow _ _ _ _ hstep hP⟩
    · exact ⟨run, hrun, hP⟩
  | admitted input reservation daily' hsession hnew hreserve =>
    refine ⟨run, ?_, hP⟩
    rw [Database.run, Table.get_append]
    rw [show Table.get Run.id db.runs id = some run from hrun]
    rfl
  | requested p sessions now hp =>
    have hget := Table.get_updateWhere Run.id (p := p) (f := requestedRun now) (fun _ => rfl)
      db.runs id
    rw [show Table.get Run.id db.runs id = some run from hrun, Option.map_some] at hget
    split at hget
    · rename_i hmarked
      refine ⟨_, hget, hrow _ [] _ [] (.requested now ?_) hP⟩
      simp [Run.isTerminal, hp run hmarked]
    · exact ⟨run, hget, hP⟩
  | credited | proposed => exact ⟨run, hrun, hP⟩

theorem Steps.carries {P : Run → Prop} (h : Steps o db db')
    (hrow : ∀ run daily run' daily', RowStep o run daily run' daily' → P run → P run') {id : Uuid} {run : Run}
    (hrun : db.run id = some run) (hP : P run) : ∃ run', db'.run id = some run' ∧ P run' := by
  induction h with
  | refl => exact ⟨run, hrun, hP⟩
  | tail _ hstep ih =>
    obtain ⟨mid, hmid, hP⟩ := ih
    exact hstep.carries hrow hmid hP

/-- The reservation is one that an admission of the input makes. -/
def Reserves (input : AdmitAgentRunInput) (reservation : Reservation) : Prop :=
  ∃ daily daily', reserveQuota none daily input.ownerId input.quota input.quotaLimits input.now
    input.reservationExpiresAt = .ok (reservation, daily')

theorem DbStep.forall_runs {P : Run → Prop} (h : DbStep o db db')
    (hrow : ∀ run daily run' daily', RowStep o run daily run' daily' → P run → P run')
    (hlet : ∀ input reservation, Reserves input reservation → P (queuedRun input reservation))
    (hall : ∀ run ∈ db.runs, P run) : ∀ run ∈ db'.runs, P run := by
  cases h with
  | row old new daily' hold hstep =>
    intro run hmem
    rcases mem_put hmem with rfl | ⟨hmem, -⟩
    · exact hrow _ _ _ _ hstep (hall _ (run_mem hold).1)
    · exact hall run hmem
  | admitted input reservation daily' hsession hnew hreserve =>
    exact forall_mem_append.mpr ⟨hall, forall_mem_singleton.mpr (hlet input reservation ⟨db.daily, daily', hreserve⟩)⟩
  | requested p sessions now hp =>
    refine Table.forall_updateWhere (f := requestedRun now) hall fun run hmem hmarked hP => ?_
    refine hrow run [] _ [] (.requested now ?_) hP
    simp [Run.isTerminal, hp run hmarked]
  | credited | proposed => exact hall

theorem Steps.forall_runs {P : Run → Prop} (h : Steps o db db')
    (hrow : ∀ run daily run' daily', RowStep o run daily run' daily' → P run → P run')
    (hlet : ∀ input reservation, Reserves input reservation → P (queuedRun input reservation))
    (hall : ∀ run ∈ db.runs, P run) : ∀ run ∈ db'.runs, P run := by
  induction h with
  | refl => exact hall
  | tail _ hstep ih => exact hstep.forall_runs hrow hlet ih

theorem DbStep.countP_le {w : Run → Bool} {n : Nat} (h : DbStep o db db')
    (hunique : (db.runs.map Run.id).Nodup)
    (hrow : ∀ run daily run' daily', RowStep o run daily run' daily' → w run' = true → w run = true)
    (hlet : ∀ input reservation,
      (db.runs.any fun run => run.sessionId = input.sessionId && !run.isTerminal) = false →
        db.runs.countP w + (if w (queuedRun input reservation) then 1 else 0) ≤ n)
    (hn : db.runs.countP w ≤ n) : db'.runs.countP w ≤ n := by
  cases h with
  | row run run' daily' hrun hstep =>
    have hrun' : db.run run'.id = some run := by rw [hstep.id]; exact hrun
    have hcount := Table.countP_replace Run.id w hunique hrun'
    have hle : (if w run' then 1 else 0) ≤ (if w run then 1 else 0) := by
      by_cases hw : w run' = true
      · rw [if_pos hw, if_pos (hrow _ _ _ _ hstep hw)]
      · rw [if_neg hw]
        exact Nat.zero_le _
    change (Table.replace Run.id run' db.runs).countP w ≤ n
    omega
  | admitted input reservation daily' hsession hnew hreserve =>
    simpa [countP_append, countP_singleton] using hlet input reservation hsession
  | requested p sessions now hp =>
    refine le_trans ?_ hn
    rw [Table.updateWhere, countP_map]
    refine countP_mono_left fun run _ hw => ?_
    simp only [Function.comp_apply] at hw
    split at hw
    · rename_i hmarked
      refine hrow run [] _ [] (.requested now ?_) hw
      simp [Run.isTerminal, hp run hmarked]
    · exact hw
  | credited | proposed => exact hn

/-- **Count rule.** A number of runs that no write raises, and no admission above the bound, is
bounded. -/
theorem Steps.countP_le {w : Run → Bool} {n : Nat} (h : Steps o db db')
    (hunique : (db.runs.map Run.id).Nodup)
    (hrow : ∀ run daily run' daily', RowStep o run daily run' daily' → w run' = true → w run = true)
    (hlet : ∀ (db : Database) input reservation,
      (db.runs.any fun run => run.sessionId = input.sessionId && !run.isTerminal) = false →
        db.runs.countP w ≤ n →
        db.runs.countP w + (if w (queuedRun input reservation) then 1 else 0) ≤ n)
    (hn : db.runs.countP w ≤ n) : db'.runs.countP w ≤ n := by
  induction h with
  | refl => exact hn
  | tail hsteps hstep ih =>
    exact hstep.countP_le (Steps.ids hsteps hunique) hrow
      (fun input reservation hsession => hlet _ input reservation hsession ih) ih

end

/-! ## Operations -/

theorem Ends.of_status {s : State} (op : Op) (input : TerminalizeAgentRunInput)
    (hstatus : input.status = .cancelled ∨ input.status = .recoveryRequired) : Ends s op input :=
  .abandoned op input hstatus

section
variable {codec : Codec} {s : State} {op : Op} {db' : Database}

theorem Wrote.steps {o : Origin} {db : Database} {id : Uuid} (h : db' = db ∨ Wrote o id db db') : Steps o db db' := by
  rcases h with rfl | h
  · exact .refl
  · exact .single h.step

theorem transaction_steps (hfollows : op.follows s) (h : transaction codec s.db op = .ok db') :
    Steps (op.origin codec s) s.db db' := by
  cases op with
  | admitRun input =>
    rcases admit_steps (o := Op.origin codec (.admitRun input) s) h with rfl | hstep
    · exact .refl
    · exact .single hstep
  | transition input =>
    refine .single (transition_wrote ?_ ?_ h).step
    · exact fun _ target htarget => .inl ⟨input, rfl, htarget⟩
    · exact fun status htarget => .transition input status htarget
  | resumeApproval lease now =>
    exact .single (resumeApproval_wrote (fun _ => Or.inr (.inl ⟨lease, now, rfl⟩)) h).step
  | markSideEffectsStarted lease now =>
    refine .single (markSideEffectsStarted_wrote ?_ h).step
    exact fun run hid => ⟨lease, now, rfl, hid.symm⟩
  | requestCancellation ownerId runId now =>
    exact Wrote.steps (requestCancellation_wrote (Ends.of_status _) h)
  | terminalize lease status assistant quota runPatch errorCode errorMessage now =>
    exact .single (terminalize_wrote
      (Ends.worker lease status assistant quota runPatch errorCode errorMessage now) h).step
  | ensureQuota runId ownerId target limits expiresAt now =>
    simp only [transaction] at h
    cases hrun : s.db.run runId with
    | none =>
      rw [hrun] at h
      cases h
    | some run =>
      rw [hrun] at h
      obtain ⟨⟨run', daily'⟩, hraised, h⟩ := bind_ok h
      cases h
      exact .single (ensureQuota_wrote hrun hraised).step
  | persistIntent input =>
    obtain ⟨run', hintent, h⟩ := bind_ok h
    cases h
    cases run' with
    | none => exact .refl
    | some run' => exact .single (persistIntent_wrote hintent).step
  | persistDispatch lease record now =>
    obtain ⟨run', hdispatch, h⟩ := bind_ok h
    cases h
    exact .single (persistDispatch_wrote hdispatch).step
  | appendPresentation lease event now =>
    refine .single (appendPresentation_wrote ?_ h).step
    exact fun run hrun => ⟨lease, event, now, rfl, hrun, rfl⟩
  | resetDailyTokenQuota ownerId now =>
    obtain ⟨daily', hreset, h⟩ := bind_ok h
    cases h
    exact .single (.credited ownerId now daily' hreset)
  | persistContinuation input now =>
    obtain ⟨run', hpersist, h⟩ := bind_ok h
    cases h
    exact .single (persistContinuation_wrote (fun _ => Or.inr (.inr ⟨rfl, input, now, rfl⟩))
      (fun _ hledger => hledger) hpersist).step
  | clearContinuation lease now =>
    obtain ⟨run', hclear, h⟩ := bind_ok h
    cases h
    cases run' with
    | none => exact .refl
    | some run' => exact .single (clearContinuation_wrote hclear).step
  | createProposal proposal approval =>
    cases h
    exact .single (.proposed proposal approval)
  | recoverRuns candidates now => exact recoverRuns_steps hfollows (Ends.of_status _) h
  | releaseExpired runId ownerId now =>
    refine Wrote.steps (releaseExpired_wrote ?_ h)
    intro run hrun
    obtain ⟨-, rfl⟩ := run_mem hrun
    exact ⟨ownerId, now, rfl, hrun⟩
  | _ =>
    cases h
    exact .refl

/-- The transaction of a claim in progress: its candidates had not ended, and none of them
is at another attempt by now. -/
structure Claiming (s : State) : Prop where
  unique : (s.db.runs.map Run.id).Nodup
  candidates : ∀ claim, s.claim = some claim → ∀ candidates, claim.candidates = some candidates →
    ∀ candidate ∈ candidates, candidate.isTerminal = false
      ∧ ∃ row, s.db.run candidate.id = some row ∧ row.attempts = candidate.attempts ∧ row.ownerId = candidate.ownerId

/-- What a round of a claim did where it did not throw. -/
inductive RoundStep (codec : Codec) (db : Database) (claim : ClaimTransaction) (leaseToken : Uuid) :
    ClaimRound → Prop
  | waiting (hcandidates : claim.candidates = none) : RoundStep codec db claim leaseToken (.next claim)
  | finished (db' : Database) (hcandidates : claim.candidates = some [])
      (hall : terminalizeAll db claim.ended = .ok db') :
      RoundStep codec db claim leaseToken (.ended db')
  | skipped (candidate : Run) (rest : List Run)
      (hcandidates : claim.candidates = some (candidate :: rest)) :
      RoundStep codec db claim leaseToken (.next { claim with candidates := some rest })
  | gathered (candidate : Run) (rest : List Run) (input : TerminalizeAgentRunInput) (db' : Database)
      (hcandidates : claim.candidates = some (candidate :: rest))
      (hverdict : considerCandidate codec db claim.options claim.active candidate = .ok (.terminalize input))
      (hall : terminalizeAll db (claim.ended ++ [input]) = .ok db') :
      RoundStep codec db claim leaseToken
        (.next { claim with candidates := some rest, ended := claim.ended ++ [input] })
  | granted (candidate : Run) (rest : List Run) (reclaiming : Bool) (mid db' : Database)
      (hcandidates : claim.candidates = some (candidate :: rest))
      (hverdict : considerCandidate codec db claim.options claim.active candidate = .ok (.grant reclaiming))
      (hall : terminalizeAll db claim.ended = .ok mid)
      (hupdate : mid.updateRun candidate.id (grantFence candidate)
        (grantedRun claim.options candidate reclaiming leaseToken) = some db') :
      RoundStep codec db claim leaseToken (.granted db' candidate reclaiming)

variable {leaseToken : Uuid}

theorem claimRound_ok {db : Database} {claim : ClaimTransaction} {round : ClaimRound}
    (h : claimRound codec db claim leaseToken = .ok round) : RoundStep codec db claim leaseToken round := by
  unfold claimRound at h
  cases hcandidates : claim.candidates with
  | none =>
    rw [hcandidates] at h
    cases h
    exact .waiting hcandidates
  | some candidates =>
    rw [hcandidates] at h
    cases candidates with
    | nil =>
      dsimp only at h
      cases hall : terminalizeAll db claim.ended with
      | error e =>
        rw [hall] at h
        cases h
      | ok db' =>
        rw [hall] at h
        cases h
        exact .finished db' hcandidates hall
    | cons candidate rest =>
      dsimp only at h
      obtain ⟨verdict, hverdict, h⟩ := bind_ok h
      cases verdict with
      | skip =>
        cases h
        exact .skipped candidate rest hcandidates
      | terminalize input =>
        dsimp only at h
        obtain ⟨db', hall, h⟩ := bind_ok h
        cases h
        exact .gathered candidate rest input db' hcandidates hverdict hall
      | grant reclaiming =>
        dsimp only at h
        obtain ⟨mid, hall, h⟩ := bind_ok h
        cases hupdate : mid.updateRun candidate.id (grantFence candidate)
            (grantedRun claim.options candidate reclaiming leaseToken) with
        | none =>
          rw [hupdate] at h
          cases h
          exact .skipped candidate rest hcandidates
        | some db' =>
          rw [hupdate] at h
          cases h
          exact .granted candidate rest reclaiming mid db' hcandidates hverdict hall hupdate

theorem RoundStep.steps {claim : ClaimTransaction} {round : ClaimRound}
    (h : RoundStep codec s.db claim leaseToken round) (hs : Claiming s)
    (hclaim : s.claim = some claim) :
    match round with
    | .next _ => True
    | .ended db' => Steps (Op.origin codec (.claimNext leaseToken) s) s.db db'
    | .granted db' _ _ => Steps (Op.origin codec (.claimNext leaseToken) s) s.db db' := by
  have hends : ∀ input ∈ claim.ended, (Op.origin codec (.claimNext leaseToken) s).ends input :=
    fun input hinput => .claim leaseToken claim input hclaim hinput
  cases h with
  | waiting | skipped | gathered => trivial
  | finished db' hcandidates hall => exact terminalizeAll_steps hends hall
  | granted candidate rest reclaiming mid db' hcandidates hverdict hall hupdate =>
    refine (terminalizeAll_steps hends hall).tail (updateRun_wrote hupdate ?_).step
    intro run hrun hfence
    have hactive := (hs.candidates claim hclaim _ hcandidates candidate (by simp)).1
    have hrunning : run.isTerminal = false := by
      simp only [grantFence, Bool.and_eq_true, decide_eq_true_eq] at hfence
      rw [Run.isTerminal, hfence.1.1]
      exact hactive
    have hid := (run_mem hrun).2
    refine .granted claim.options candidate reclaiming leaseToken
      ⟨⟨rfl, claim, rest, hclaim, rfl, hcandidates, hverdict⟩, ?_⟩ hid.symm hactive hfence
    rw [hid]
    exact terminalizeAll_run hall hrun hrunning

/-- **Execution.** -/
theorem exec_steps (hs : Claiming s) (hop : (coordinator codec).enabled op s) :
    Steps (op.origin codec s) s.db (exec codec op s).db := by
  obtain ⟨hlock, -, hfollows⟩ := hop
  cases op with
  | beginClaim | selectCandidates =>
    simp only [exec]
    split
    · exact .refl
    · exact .refl
  | claimNext leaseToken =>
    simp only [exec]
    split
    · exact .refl
    · rename_i claim hclaim
      unfold claimStep
      split
      · exact .refl
      · exact .refl
      · rename_i db' hround
        exact (claimRound_ok hround).steps hs hclaim
      · rename_i db' candidate reclaiming hround
        exact (claimRound_ok hround).steps hs hclaim
  | heartbeat lease leaseMilliseconds now =>
    simp only [exec]
    split
    · exact .refl
    · rename_i db' hheartbeat
      refine .single (heartbeat_wrote ?_ hheartbeat).step
      exact fun run hrun => ⟨lease, leaseMilliseconds, now, rfl, hrun⟩
  | heartbeatReservation runId expiresAt now =>
    simp only [exec]
    cases hheartbeat : heartbeatReservation s.db runId expiresAt now with
    | none => exact .refl
    | some db' => exact .single (heartbeatReservation_wrote hheartbeat).step
  | tombstone ownerId sessionIds now =>
    simp only [exec]
    split
    · exact .refl
    · rename_i db' htombstone
      exact tombstoneWaiting_steps hs.unique (Ends.of_status _) htombstone
  | finishTombstone =>
    simp only [exec]
    split
    · rename_i ownerId sessionIds now hholder
      refine .single (.requested (fun run => ofSessions ownerId sessionIds run && run.status = .running) _ now ?_)
      intro run hrun
      simp only [Bool.and_eq_true, decide_eq_true_eq] at hrun
      exact hrun.2
    · exact .refl
  | selectExpired runId now =>
    simp only [exec]
    split
    · exact .refl
    · exact .refl
  | tick time => exact .refl
  | _ =>
    simp only [exec]
    split
    · exact .refl
    · rename_i db' htransaction
      exact transaction_steps hfollows htransaction

/-! ## The candidates of a claim -/

theorem RowStep.attempts {o : Origin} {run run' : Run} {daily daily' : List DailyRow}
    (h : RowStep o run daily run' daily')
    (hgrants : ∀ options candidate reclaiming leaseToken,
      ¬ o.grants options candidate reclaiming leaseToken run) : run'.attempts = run.attempts := by
  cases h with
  | raised ownerId target limits expiresAt now run' daily' h =>
    obtain ⟨reservation, rfl⟩ := ensureAgentRunQuota_reservation_only h
    rfl
  | ended input status run' daily' horigin hid hstatus hexpected h =>
    exact (terminalizeActive_endsAs h).attempts
  | settled input current run' daily' hstatus h =>
    obtain ⟨reservation, rfl⟩ := terminalizeAgain_reservation_only h
    rfl
  | released ownerId now run' daily' horigin h =>
    obtain ⟨reservation, rfl⟩ := h.reservation_only
    rfl
  | granted options candidate reclaiming leaseToken horigin hid hactive hfence =>
    exact absurd horigin (hgrants _ _ _ _)
  | _ => rfl

variable {options : ClaimAgentRunOptions}

theorem grants_claimNext {candidate run : Run} {reclaiming : Bool}
    (h : (op.origin codec s).grants options candidate reclaiming leaseToken run) : op = .claimNext leaseToken :=
  h.1.1

theorem Run.claimable_active {run : Run} {now : Time} (h : run.claimable now = true) : run.isTerminal = false := by
  cases hstatus : run.status with
  | active status => simp [Run.isTerminal, hstatus]
  | terminal status =>
    simp [Run.claimable, Run.isClaimed, hstatus] at h

theorem exec_holder (h : ∀ options, op ≠ .beginClaim options) (h₁ : ∀ rows, op ≠ .selectCandidates rows)
    (h₂ : ∀ leaseToken, op ≠ .claimNext leaseToken)
    (h₃ : ∀ ownerId sessionIds now, op ≠ .tombstone ownerId sessionIds now)
    (h₄ : op ≠ .finishTombstone) : (exec codec op s).holder = s.holder := by
  cases op with
  | beginClaim options => exact absurd rfl (h options)
  | selectCandidates rows => exact absurd rfl (h₁ rows)
  | claimNext leaseToken => exact absurd rfl (h₂ leaseToken)
  | tombstone ownerId sessionIds now => exact absurd rfl (h₃ ownerId sessionIds now)
  | finishTombstone => exact absurd rfl h₄
  | _ =>
    simp only [exec]
    try split
    all_goals rfl

/-- A round reads no candidates that were not read before. -/
theorem Claiming.claimStep_candidates (hs : Claiming s) {claim : ClaimTransaction} (hclaim : s.claim = some claim) :
    ∀ claim', (claimStep codec s claim leaseToken).claim = some claim' → ∀ candidates,
    claim'.candidates = some candidates → ∀ candidate ∈ candidates, candidate.isTerminal = false ∧ ∃ row,
    (claimStep codec s claim leaseToken).db.run candidate.id = some row ∧ row.attempts = candidate.attempts ∧
    row.ownerId = candidate.ownerId := by
  unfold claimStep
  have hcandidates := hs.candidates claim hclaim
  split
  · intro claim' hclaim'
    cases hclaim'
  · rename_i claim' hround
    intro claim'' hclaim''
    obtain rfl : claim' = claim'' := by simpa [State.claim] using hclaim''
    cases claimRound_ok hround with
    | waiting => exact hcandidates
    | skipped candidate rest hrest =>
      intro candidates heq candidate' hmem
      cases heq
      exact hcandidates _ hrest candidate' (by simp [hmem])
    | gathered candidate rest input db' hrest hverdict hall =>
      intro candidates heq candidate' hmem
      cases heq
      exact hcandidates _ hrest candidate' (by simp [hmem])
  · intro claim' hclaim'
    cases hclaim'
  · intro claim' hclaim'
    cases hclaim'

theorem Claiming.exec (hs : Claiming s) (hop : (coordinator codec).enabled op s) : Claiming (exec codec op s) := by
  have hsteps := exec_steps hs hop
  refine ⟨hsteps.ids hs.unique, ?_⟩
  -- a claim that stays finds its candidates at the attempts it has read
  have hkept : (∀ leaseToken, op ≠ .claimNext leaseToken) → ∀ claim, s.claim = some claim →
      ∀ candidates, claim.candidates = some candidates → ∀ candidate ∈ candidates,
        candidate.isTerminal = false ∧ ∃ row, (Agents.exec codec op s).db.run candidate.id = some row
          ∧ row.attempts = candidate.attempts ∧ row.ownerId = candidate.ownerId := by
    intro hother claim hclaim candidates hcandidates candidate hmem
    obtain ⟨hactive, row, hrow, hread⟩ := hs.candidates claim hclaim _ hcandidates candidate hmem
    refine ⟨hactive, hsteps.carries ?_ hrow hread⟩
    rintro run daily run' daily' hstep ⟨hattempts, howner⟩
    refine ⟨?_, hstep.identity.2.2.trans howner⟩
    rw [hstep.attempts fun options candidate reclaiming leaseToken hgrant =>
      hother leaseToken (grants_claimNext hgrant), hattempts]
  cases op with
  | beginClaim options =>
    have hnone := hop.1 rfl
    simp only [Agents.exec]
    split
    · intro claim hclaim
      simp [State.claim, hnone] at hclaim
    · rename_i claim hbegin
      intro claim' hclaim' candidates hcandidates
      obtain rfl : claim = claim' := by simpa [State.claim] using hclaim'
      unfold Agents.beginClaim at hbegin
      dsimp only at hbegin
      split at hbegin
      · cases hbegin
      · cases hbegin
        cases hcandidates
  | selectCandidates rows =>
    have hselect : answersSelect s rows := hop.2.2
    simp only [Agents.exec]
    cases hclaim : s.claim with
    | none =>
      intro claim hclaim'
      simp [hclaim] at hclaim'
    | some claim =>
      unfold answersSelect at hselect
      rw [hclaim] at hselect
      intro claim' hclaim' candidates hcandidates candidate hmem
      obtain rfl : { claim with candidates := some (rows.take claimLimit) } = claim' := by
        simpa [State.claim] using hclaim'
      cases hcandidates
      have hrow := mem_filter.mp (hselect.2.1.subset (mem_of_mem_take hmem))
      have hclaimable : candidate.claimable claim.options.now = true := by
        have hquery := hrow.2
        simp only [candidateQuery, Bool.and_eq_true] at hquery
        exact hquery.1
      exact ⟨Run.claimable_active hclaimable, candidate, run_of_mem hs.unique hrow.1, rfl, rfl⟩
  | claimNext leaseToken =>
    simp only [Agents.exec]
    cases hclaim : s.claim with
    | none =>
      intro claim hclaim'
      simp [hclaim] at hclaim'
    | some claim =>
      exact hs.claimStep_candidates hclaim
  | tombstone ownerId sessionIds now =>
    have hnone := hop.1 rfl
    simp only [Agents.exec]
    split
    · intro claim hclaim
      simp [State.claim, hnone] at hclaim
    · intro claim hclaim
      cases hclaim
  | finishTombstone =>
    simp only [Agents.exec]
    split
    · intro claim hclaim
      cases hclaim
    · rename_i hholder
      simpa [Agents.exec, hholder] using hkept (by simp)
  | _ =>
    intro claim hclaim
    refine hkept (by simp) claim ?_
    rw [State.claim, exec_holder (by simp) (by simp) (by simp) (by simp) (by simp)] at hclaim
    exact hclaim

theorem Claiming.initial (users : List Int) (sessions : List AgentSession) (clock : Time) :
    Claiming (.initial users sessions clock) := by
  refine ⟨by simp [State.initial, Database.initial], ?_⟩
  intro claim hclaim
  cases hclaim

theorem Claiming.of_reachable {users : List Int} {sessions : List AgentSession} {clock : Time}
    (h : (coordinator codec).Reachable (.initial users sessions clock) s) : Claiming s :=
  h.invariant (.initial users sessions clock) fun _ _ hop hs => hs.exec hop

/-- The candidate that a claim in progress reaches next. -/
def State.next (s : State) : Option Run :=
  s.claim.bind fun claim => claim.candidates.bind List.head?

theorem Grants.next {candidate : Run} {reclaiming : Bool}
    (h : Grants codec s op options candidate reclaiming leaseToken) : s.next = some candidate := by
  obtain ⟨-, claim, rest, hclaim, -, hcandidates, -⟩ := h
  simp [State.next, hclaim, hcandidates]

/-- The row of a granted candidate is at the attempt that the claim has read. -/
theorem Grants.attempts {candidate run : Run} {reclaiming : Bool}
    (h : Grants codec s op options candidate reclaiming leaseToken) (hs : Claiming s)
    (hrun : s.db.run candidate.id = some run) : run.attempts = candidate.attempts := by
  obtain ⟨-, claim, rest, hclaim, -, hcandidates, -⟩ := h
  obtain ⟨-, row, hrow, hattempts, -⟩ := hs.candidates claim hclaim _ hcandidates candidate (by simp)
  rw [hrun] at hrow
  cases hrow
  exact hattempts

/-- What a claim decides on a candidate. -/
inductive Considers (codec : Codec) (db : Database) (options : ClaimAgentRunOptions)
    (active : ActiveLeaseCounts) (candidate : Run) : Verdict → Prop
  | skip : Considers codec db options active candidate .skip
  | lost (hfence : candidate.status = .running ∧ candidate.sideEffectsStarted = true) :
      Considers codec db options active candidate
        (.terminalize (lostSideEffect candidate options.now))
  | exhausted (hfence : ¬ (candidate.status = .running ∧ candidate.sideEffectsStarted = true)) :
      Considers codec db options active candidate
        (.terminalize (maxAttemptsExceeded candidate options.now))
  | grant (reclaiming : Bool)
      (hfence : ¬ (candidate.status = .running ∧ candidate.sideEffectsStarted = true))
      (hreclaiming : hasReclaimableActionContinuation codec db candidate = .ok reclaiming)
      (hslots : candidate.status ≠ .awaitingApproval → active.ofOwner candidate.ownerId < options.perUser) :
      Considers codec db options active candidate (.grant reclaiming)

theorem considerCandidate_ok {db : Database} {active : ActiveLeaseCounts} {candidate : Run}
    {verdict : Verdict} (h : considerCandidate codec db options active candidate = .ok verdict) :
    Considers codec db options active candidate verdict := by
  unfold considerCandidate at h
  -- the part after the intent has been read
  have hrest : ∀ intent : Option Amount,
      (if positiveSettlement intent = true then .ok .skip
        else if (candidate.status = .running && candidate.sideEffectsStarted) = true then
          .ok (.terminalize (lostSideEffect candidate options.now))
        else hasReclaimableActionContinuation codec db candidate >>= fun reclaimingContinuation =>
          if (candidate.status ≠ .awaitingApproval
              && options.perUser ≤ active.ofOwner candidate.ownerId) = true then .ok .skip
          else if (candidate.maxAttempts ≤ candidate.attempts
              && candidate.status ≠ .awaitingApproval && !reclaimingContinuation) = true then
            .ok (.terminalize (maxAttemptsExceeded candidate options.now))
          else .ok (.grant reclaimingContinuation)) = .ok verdict →
      Considers codec db options active candidate verdict := by
    intro intent hintent
    split at hintent
    · cases hintent
      exact .skip
    · split at hintent
      · rename_i hfence
        cases hintent
        exact .lost (by simpa using hfence)
      · rename_i hfence
        simp only [Bool.and_eq_true, decide_eq_true_eq] at hfence
        obtain ⟨reclaiming, hreclaiming, hintent⟩ := bind_ok hintent
        split at hintent
        · cases hintent
          exact .skip
        · rename_i hslots
          simp only [Bool.and_eq_true, decide_eq_true_eq] at hslots
          split at hintent
          · cases hintent
            exact .exhausted hfence
          · cases hintent
            refine .grant reclaiming hfence hreclaiming fun hstatus => ?_
            exact Nat.lt_of_not_le fun hle => hslots ⟨hstatus, hle⟩
  cases hrow : db.run candidate.id with
  | none =>
    rw [hrow] at h
    exact hrest none h
  | some row =>
    rw [hrow] at h
    dsimp only at h
    obtain ⟨intent, -, h⟩ := bind_ok h
    exact hrest intent h

/-! ## The log -/

/-- What an operation adds to the log. -/
inductive Logs (codec : Codec) (s : State) (op : Op) : List LogEntry → Prop
  | same : Logs codec s op s.log
  | granted (claim : ClaimTransaction) (leaseToken : Uuid) (db' : Database) (candidate : Run)
      (reclaiming : Bool) (hop : op = .claimNext leaseToken) (hclaim : s.claim = some claim)
      (hround : RoundStep codec s.db claim leaseToken (.granted db' candidate reclaiming)) :
      Logs codec s op
        (.granted candidate.id (grantedAttempts candidate reclaiming) leaseToken :: s.log)
  | wrote (e : LogEntry) (hentry : entry s.db op = some e)
      (hok : transaction codec s.db op = .ok (exec codec op s).db) : Logs codec s op (e :: s.log)

/-- The operations that are one transaction. -/
def Op.single : Op → Bool
  | .beginClaim _ | .selectCandidates _ | .claimNext _ | .heartbeat .. | .heartbeatReservation ..
  | .tombstone .. | .finishTombstone | .selectExpired .. | .tick _ => false
  | _ => true

theorem exec_single (hop : op.single = true) : exec codec op s =
    (transaction codec s.db op).toOption.elim s
      fun db => { s with db, log := (entry s.db op).toList ++ s.log } := by
  cases op with
  | beginClaim | selectCandidates | claimNext | heartbeat | heartbeatReservation | tombstone
  | finishTombstone | selectExpired | tick => cases hop
  | _ =>
    simp only [exec]
    split
    · rename_i htransaction
      rw [htransaction]
      rfl
    · rename_i htransaction
      rw [htransaction]
      rfl

theorem exec_log : Logs codec s op (exec codec op s).log := by
  by_cases hsingle : op.single = true
  · cases htransaction : transaction codec s.db op with
    | error e =>
      rw [exec_single hsingle, htransaction]
      exact .same
    | ok db' =>
      have hexec := @exec_single codec s op hsingle
      rw [htransaction] at hexec
      cases hentry : entry s.db op with
      | none =>
        rw [hexec, hentry]
        exact .same
      | some e =>
        rw [show (exec codec op s).log = e :: s.log by rw [hexec, hentry]; rfl]
        exact .wrote e hentry (by rw [htransaction, hexec]; rfl)
  · cases op with
    | claimNext leaseToken =>
      simp only [exec]
      split
      · exact .same
      · rename_i claim hclaim
        unfold claimStep
        split
        · exact .same
        · exact .same
        · exact .same
        · rename_i db' candidate reclaiming hround
          exact .granted claim leaseToken db' candidate reclaiming rfl hclaim (claimRound_ok hround)
    | beginClaim | selectCandidates | heartbeat | tombstone | finishTombstone | selectExpired =>
      simp only [exec]
      split
      · exact .same
      · exact .same
    | heartbeatReservation => exact .same
    | tick => exact .same
    | _ => exact absurd rfl hsingle

theorem Logs.grows {log : List LogEntry} (h : Logs codec s op log) : ∀ e ∈ s.log, e ∈ log := by
  cases h with
  | same => exact fun _ he => he
  | granted | wrote => exact fun _ he => mem_cons_of_mem _ he

end

/-! ## A small installation -/

section
variable (codec : Codec)

/-- The operations of a claim that takes the rows in their order. -/
def claimOps (options : ClaimAgentRunOptions) (leaseToken : Uuid) (s : State) : List Op :=
  [.beginClaim options,
    .selectCandidates ((exec codec (.beginClaim options) s).claim.elim [] fun claim =>
      s.db.runs.filter (candidateQuery claim.options claim.active)),
    .claimNext leaseToken]

end

/-- A codec whose hashes are constant. -/
def exampleCodec : Codec where
  sha256 _ := List.replicate 64 97
  checkpointHash _ := List.replicate 64 97
  checkpointBytes _ := 100
  stateBytes _ := 100

def exampleStart : State :=
  .initial [7] [⟨js "s", 7, 1, false, none⟩, ⟨js "t", 7, 1, false, none⟩] 0

def exampleAdmission (runId sessionId : Uuid) : AdmitAgentRunInput where
  id := runId
  ownerId := 7
  sessionId := sessionId
  clientRequestId := runId
  clientPayloadSha256 := none
  refusal := none
  expectedSessionVersion := 1
  profileResolutionSha256 := List.replicate 64 97
  content := js "hello"
  goalId := none
  goalContinuation := none
  admissionSha256 := List.replicate 64 97
  googleSearchEnabled := false
  quota := ⟨100, 10⟩
  quotaLimits := ⟨1000, 1000⟩
  maxAttempts := none
  reservationExpiresAt := 50
  now := 0

def exampleClaim (now : Time) : ClaimAgentRunOptions := ⟨js "w", 1, 1, 60, now⟩

def exampleLease (attempts : Nat) (leaseToken : Uuid) : AgentRunLease :=
  ⟨js "A", 7, attempts, js "w", leaseToken⟩

/-- The first run, admitted and claimed. -/
def exampleClaimed : List Op :=
  let admitted := [.admitRun (exampleAdmission (js "A") (js "s"))]
  admitted ++ claimOps exampleCodec (exampleClaim 1) (js "t1")
    ((coordinator exampleCodec).after admitted exampleStart)

end TsEpistle.Agents
