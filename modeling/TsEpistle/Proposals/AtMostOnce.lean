import TsEpistle.Proposals.Transitions

/-! # Approved proposals are executed at most once

Every operation of the system moves each entry by steps that keep proposal and
execution in agreement. The unique execution row of a proposal is what makes its
claimer, and so its `mutate` call, unique. -/

namespace TsEpistle.Proposals
open Library List Function

variable {Value : Type} {codec : Codec Value}

/-! ## The invariant -/

/-- The execution a caller acts on. -/
def Stage.executionId : Stage Value → Option Uuid
  | .loading prior => some prior.id
  | .reconciling prior _ => some prior.id
  | .marking prior => some prior.id
  | .committing executionId _ => some executionId
  | .dispatching executionId _ => some executionId
  | .mutating executionId _ => some executionId
  | .completing executionId _ _ => some executionId
  | .rescuing executionId _ => some executionId
  | .failing executionId _ => some executionId
  | _ => none

/-- The caller has its claim and has not called `mutate`. -/
def Stage.waits : Stage Value → Bool
  | .dispatching _ _ => true
  | _ => false

structure Invariant (codec : Codec Value) (s : System Value) : Prop where
  ledger : LedgerInvariant codec s.accepted s.ledger
  owns : ∀ i c executionId, s.callers i = some c → c.stage.executionId = some executionId →
    Owns s.ledger c.input.proposalId executionId
  undispatched : ∀ i c, s.callers i = some c → c.stage.waits = true → c.input.proposalId ∉ s.dispatched
  single : ∀ i j c d, s.callers i = some c → s.callers j = some d → c.stage.waits = true →
    d.stage.waits = true → c.input.proposalId = d.input.proposalId → i = j
  once : ∀ id, s.dispatched.count id ≤ 1
  claimed : ∀ id ∈ s.dispatched, ∃ executionId, Owns s.ledger id executionId

theorem Invariant.empty : Invariant codec .empty := by
  refine ⟨⟨by simp [System.empty], by simp [System.empty], by simp [System.empty]⟩, ?_, ?_, ?_, ?_,
    ?_⟩ <;> simp [System.empty]

theorem Stage.waits_executionId {stage : Stage Value} (h : stage.waits = true) :
    ∃ executionId, stage.executionId = some executionId := by
  cases stage <;> first | exact ⟨_, rfl⟩ | cases h

/-- How the ledger of one state stems from that of another. -/
def Stems (codec : Codec Value) (accepted : List Accepted) (ledger ledger' : Ledger) : Prop :=
  ∀ id x, find ledger id = some x →
    ∃ x', find ledger' id = some x' ∧ Relation.ReflTransGen (EntryStep codec accepted) x x'

variable {accepted : List Accepted} {ledger ledger' : Ledger}

theorem Moves.stems (h : Moves codec accepted ledger ledger') : Stems codec accepted ledger ledger' := by
  intro id x hx
  obtain ⟨x', hx', hstep⟩ := h.find hx
  exact ⟨x', hx', .single hstep⟩

theorem Evolves.stems (h : Evolves codec accepted ledger ledger') : Stems codec accepted ledger ledger' := by
  intro id x hx
  induction h with
  | refl => exact ⟨x, hx, .refl⟩
  | tail _ hm ih =>
    obtain ⟨x', hx', hsteps⟩ := ih
    obtain ⟨x'', hx'', hstep⟩ := hm.find hx'
    exact ⟨x'', hx'', hsteps.tail hstep⟩

theorem Stems.owns (h : Stems codec accepted ledger ledger') {proposalId executionId : Uuid}
    (howns : Owns ledger proposalId executionId) : Owns ledger' proposalId executionId := by
  obtain ⟨x, e, hx, he, hid⟩ := howns
  obtain ⟨x', hx', hsteps⟩ := h _ x hx
  have hexec : ∃ e', x'.execution = some e' ∧ e'.id = executionId := by
    clear hx'
    induction hsteps with
    | refl => exact ⟨e, he, hid⟩
    | tail _ hstep ih =>
      obtain ⟨e', he', hid'⟩ := ih
      obtain ⟨e'', he'', hid''⟩ := hstep.keeps.2 e' he'
      exact ⟨e'', he'', hid''.trans hid'⟩
  obtain ⟨e', he', hid'⟩ := hexec
  exact ⟨x', e', hx', he', hid'⟩

/-! ## Preservation -/

variable {s : System Value}

/-- Operations that touch the ledger and no caller. -/
theorem Invariant.of_ledger (hs : Invariant codec s) {ledger : Ledger}
    (hinv : LedgerInvariant codec accepted ledger) (hstems : Stems codec accepted s.ledger ledger) :
    Invariant codec { s with ledger := ledger, accepted := accepted } := by
  refine ⟨hinv, ?_, hs.undispatched, hs.single, hs.once, ?_⟩
  · intro i c executionId hc he
    exact hstems.owns (hs.owns i c executionId hc he)
  · intro id hid
    obtain ⟨executionId, howns⟩ := hs.claimed id hid
    exact ⟨executionId, hstems.owns howns⟩

variable {input : ApplyProposalInput}

/-- A caller moves on, with or without a transaction. -/
theorem Invariant.goto (hs : Invariant codec s) {i : Nat} {stage : Stage Value}
    (howns : ∀ executionId, stage.executionId = some executionId → Owns s.ledger input.proposalId executionId)
    (hwaits : stage.waits = true → input.proposalId ∉ s.dispatched ∧
      ∀ j d, s.callers j = some d → j ≠ i → d.stage.waits = true → d.input.proposalId ≠ input.proposalId) :
    Invariant codec (s.goto i input stage) := by
  have hcallers : ∀ j c, (s.goto i input stage).callers j = some c →
      (j = i ∧ c = ⟨input, stage⟩) ∨ (j ≠ i ∧ s.callers j = some c) := by
    intro j c hc
    by_cases hj : j = i
    · subst hj
      simp only [System.goto, update_self, Option.some.injEq] at hc
      exact .inl ⟨rfl, hc.symm⟩
    · simp only [System.goto, update_of_ne hj] at hc
      exact .inr ⟨hj, hc⟩
  refine ⟨hs.ledger, ?_, ?_, ?_, hs.once, hs.claimed⟩
  · intro j c executionId hc he
    rcases hcallers j c hc with ⟨-, rfl⟩ | ⟨-, hc⟩
    · exact howns executionId he
    · exact hs.owns j c executionId hc he
  · intro j c hc hw
    rcases hcallers j c hc with ⟨-, rfl⟩ | ⟨-, hc⟩
    · exact (hwaits hw).1
    · exact hs.undispatched j c hc hw
  · intro j k c d hc hd hwc hwd hsame
    rcases hcallers j c hc with ⟨rfl, rfl⟩ | ⟨hj, hcj⟩
    · rcases hcallers k d hd with ⟨rfl, rfl⟩ | ⟨hk, hdk⟩
      · rfl
      · exact absurd hsame.symm ((hwaits hwc).2 k d hdk hk hwd)
    · rcases hcallers k d hd with ⟨rfl, rfl⟩ | ⟨hk, hdk⟩
      · exact absurd hsame ((hwaits hwd).2 j c hcj hj hwc)
      · exact hs.single j k c d hcj hdk hwc hwd hsame

/-- The waiting caller calls `mutate`. -/
theorem Invariant.dispatch (hs : Invariant codec s) {i : Nat} {executionId : Uuid}
    {proposal : ProposalRecord} (hc : s.callers i = some ⟨input, .dispatching executionId proposal⟩) :
    Invariant codec ({ s with dispatched := input.proposalId :: s.dispatched }.goto i input
      (.mutating executionId proposal)) := by
  have howns := hs.owns i _ executionId hc rfl
  have hnot := hs.undispatched i _ hc rfl
  have hleft : Invariant codec (s.goto i input (.mutating executionId proposal)) :=
    hs.goto (fun e he => by cases he; exact howns) (by simp [Stage.waits])
  refine ⟨hleft.ledger, hleft.owns, ?_, hleft.single, ?_, ?_⟩
  · intro j c hj hw
    have hji : j ≠ i := by
      rintro rfl
      simp only [System.goto, update_self, Option.some.injEq] at hj
      subst hj
      cases hw
    simp only [System.goto, update_of_ne hji] at hj
    show c.input.proposalId ∉ input.proposalId :: s.dispatched
    rw [mem_cons, not_or]
    refine ⟨fun hsame => hji ?_, hs.undispatched j c hj hw⟩
    exact hs.single j i c _ hj hc hw rfl hsame
  · intro id
    show (input.proposalId :: s.dispatched).count id ≤ 1
    by_cases hid : input.proposalId = id
    · subst hid
      rw [count_cons_self, count_eq_zero.mpr hnot]
    · rw [count_cons_of_ne hid]
      exact hs.once id
  · intro id hid
    rcases mem_cons.mp hid with rfl | hid
    · exact ⟨executionId, howns⟩
    · exact hs.claimed id hid

/-- The caller whose claim is committed is the only one that waits on the proposal. -/
theorem Invariant.claim (hs : Invariant codec s) {i : Nat} {executionId : Uuid} {now : Time} {aborted : Bool}
    {reauthorize : Except Failure Unit} {ledger' : Ledger} {proposal : ProposalRecord}
    (hclaim : claimExecution codec s.ledger input executionId now aborted reauthorize = .ok (ledger', proposal)) :
    Invariant codec ({ s with ledger := ledger' }.goto i input (.dispatching executionId proposal)) := by
  obtain ⟨x, approver, hx, happroved, hnone, hfresh, hledger⟩ := claimExecution_ok hs.ledger hclaim
  obtain ⟨hm, hinv⟩ := claimExecution_moves hs.ledger hclaim
  have hunclaimed : ∀ e, ¬ Owns s.ledger input.proposalId e := by
    rintro e ⟨y, f, hy, hf, -⟩
    rw [hx] at hy
    cases hy
    simp [hnone] at hf
  refine (hs.of_ledger hinv hm.stems).goto ?_ ?_
  · intro e he
    cases he
    obtain ⟨x', hx', -⟩ := hm.find hx
    obtain ⟨hx'mem, hx'id⟩ := find_some hx'
    have hexec : ∃ f, x'.execution = some f ∧ f.id = executionId := by
      rw [hledger] at hx'mem
      obtain ⟨y, hy, rfl⟩ := mem_map.mp hx'mem
      by_cases hid : y.proposal.id = input.proposalId
      · rw [if_pos hid]
        exact ⟨_, rfl, rfl⟩
      · rw [if_neg hid] at hx'id
        exact absurd hx'id hid
    obtain ⟨f, hf, hfid⟩ := hexec
    exact ⟨x', f, hx', hf, hfid⟩
  · intro _
    refine ⟨fun hin => ?_, fun j d hd _ hw hsame => ?_⟩
    · obtain ⟨e, howns⟩ := hs.claimed _ hin
      exact hunclaimed e howns
    · obtain ⟨e, he⟩ := Stage.waits_executionId hw
      exact hunclaimed e (hsame ▸ hs.owns j d e hd he)

/-- **Caller rule.** -/
theorem callerStep_invariant (hs : Invariant codec s) {i : Nat} {stage : Stage Value}
    (hc : s.callers i = some ⟨input, stage⟩) (op : Op Value) : Invariant codec (callerStep codec s i input stage op) ∧
    (callerStep codec s i input stage op).accepted = s.accepted ∧
    Stems codec s.accepted s.ledger (callerStep codec s i input stage op).ledger := by
  have hown : ∀ executionId, stage.executionId = some executionId →
      Owns s.ledger input.proposalId executionId := fun e he => hs.owns i _ e hc he
  have hrefl : Stems codec s.accepted s.ledger s.ledger := (Moves.refl s.ledger).stems
  -- a move of the caller alone
  have hgo : ∀ stage' : Stage Value, stage'.waits = false →
      (∀ e, stage'.executionId = some e → Owns s.ledger input.proposalId e) →
      Invariant codec (s.goto i input stage') ∧ (s.goto i input stage').accepted = s.accepted ∧
        Stems codec s.accepted s.ledger (s.goto i input stage').ledger :=
    fun stage' hw he => ⟨hs.goto he (by simp [hw]), rfl, hrefl⟩
  -- a transaction after which the caller is done
  have htx : ∀ ledger', Moves codec s.accepted s.ledger ledger' →
      LedgerInvariant codec s.accepted ledger' →
      Invariant codec ({ s with ledger := ledger' }.goto i input .done) ∧
        ({ s with ledger := ledger' }.goto i input .done).accepted = s.accepted ∧
        Stems codec s.accepted s.ledger ({ s with ledger := ledger' }.goto i input .done).ledger :=
    fun ledger' hm hinv =>
      ⟨(hs.of_ledger hinv hm.stems).goto (by simp [Stage.executionId]) (by simp [Stage.waits]), rfl, hm.stems⟩
  unfold callerStep
  split
  · -- reading
    split
    · exact hgo _ rfl (by simp [Stage.executionId])
    · rename_i prior hprior
      obtain ⟨x, hx, hexec⟩ := Option.bind_eq_some_iff.mp hprior
      split
      · exact hgo _ rfl (by simp [Stage.executionId])
      · refine hgo _ rfl fun e he => ?_
        cases he
        exact ⟨x, prior, hx, hexec, rfl⟩
  · -- loading
    split
    · exact hgo _ rfl hown
    · exact hgo _ rfl (by simp [Stage.executionId])
  · -- reconciling
    split
    · exact hgo _ rfl (by simp [Stage.executionId])
    · exact hgo _ rfl hown
    · split
      · exact hgo _ rfl hown
      · exact hgo _ rfl (by simp [Stage.executionId])
  · -- marking
    have hm := requireRecovery_moves hs.ledger (hown _ rfl)
    exact htx _ hm (hm.invariant_of_executions hs.ledger (leaveApplying_ids _ _ _ _ _ fun _ => rfl))
  · -- committing
    rename_i executionId rawResult _ now
    cases hcommit : commitResult codec s.ledger input.proposalId executionId rawResult now with
    | error failure => exact htx _ (.refl _) hs.ledger
    | ok ledger' =>
      obtain ⟨hm, hinv⟩ := commitResult_moves hs.ledger hcommit
      exact htx _ hm hinv
  · -- claiming
    rename_i executionId now aborted reauthorize
    split
    · rename_i ledger' proposal hclaim
      exact ⟨hs.claim hclaim, rfl, (claimExecution_moves hs.ledger hclaim).1.stems⟩
    · exact hgo _ rfl (by simp [Stage.executionId])
  · -- dispatching
    split
    · exact hgo _ rfl hown
    · exact ⟨hs.dispatch hc, rfl, hrefl⟩
  · -- mutating
    split
    · exact hgo _ rfl hown
    · exact hgo _ rfl hown
  · -- completing
    split
    · rename_i ledger' hcommit
      obtain ⟨hm, hinv⟩ := commitResult_moves hs.ledger hcommit
      exact htx _ hm hinv
    · exact hgo _ rfl hown
  · -- rescuing
    split
    · exact hgo _ rfl (by simp [Stage.executionId])
    · exact hgo _ rfl hown
    · exact hgo _ rfl hown
  · -- failing
    have hm := fun required now => failExecution_moves hs.ledger (hown _ rfl) required now
    exact htx _ (hm _ _) ((hm _ _).invariant_of_executions hs.ledger (leaveApplying_ids _ _ _ _ _ fun _ => rfl))
  · exact ⟨hs, rfl, hrefl⟩

theorem LedgerInvariant.mono {accepted accepted' : List Accepted} {ledger : Ledger}
    (h : LedgerInvariant codec accepted ledger) (hsub : accepted ⊆ accepted') :
    LedgerInvariant codec accepted' ledger :=
  ⟨h.ids, fun x hx => (h.consistent x hx).mono hsub, h.executionIds⟩

theorem updateStatuses_ids {proposalId approvalId : Uuid} {fromProposal : ProposalStatus}
    {fromApproval : ApprovalStatus} {proposalPatch : ProposalRecord → ProposalRecord}
    {approvalPatch : ApprovalRecord → ApprovalRecord}
    (h : updateStatuses ledger proposalId approvalId fromProposal fromApproval proposalPatch
      approvalPatch = .ok ledger') (hpatch : ∀ p, (proposalPatch p).id = p.id) :
    ledger'.map (fun x => (x.proposal.id, x.execution.map (·.id))) =
      ledger.map fun x => (x.proposal.id, x.execution.map (·.id)) := by
  simp only [updateStatuses] at h
  split at h
  · cases h
  · cases h
    rw [updateProposals_ids _ _ hpatch, updateApprovals_ids]

theorem commitWith_ids {ledger : Ledger} {result : Except Failure Ledger}
    {answer : Except Failure Unit}
    (h : ∀ ledger', result = .ok ledger' →
      ledger'.map (fun x => (x.proposal.id, x.execution.map (·.id))) =
        ledger.map fun x => (x.proposal.id, x.execution.map (·.id))) :
    (commitWith ledger result answer).1.map (fun x => (x.proposal.id, x.execution.map (·.id))) =
      ledger.map fun x => (x.proposal.id, x.execution.map (·.id)) := by
  cases result with
  | ok ledger' => exact h ledger' rfl
  | error failure => rfl

theorem decideProposal_ids (ledger : Ledger) (input : DecideProposalInput) (now : Time)
    (authorize : Except Failure Unit) :
    (decideProposal codec ledger input now authorize).1.map
        (fun x => (x.proposal.id, x.execution.map (·.id))) =
      ledger.map fun x => (x.proposal.id, x.execution.map (·.id)) := by
  cases hlock : lockProposal codec ledger input.proposalId input.approvalId with
  | error failure => simp [decideProposal, hlock]
  | ok locked =>
    simp only [decideProposal, hlock]
    split
    · rfl
    split
    · exact commitWith_ids fun ledger' h => updateStatuses_ids h fun _ => rfl
    split
    · rfl
    split
    · rfl
    split
    · rfl
    · exact commitWith_ids fun ledger' h => updateStatuses_ids h fun _ => rfl

/-- A decision that goes through was let through by `authorize`. -/
theorem decideProposal_authorized {ledger : Ledger} {input : DecideProposalInput} {now : Time}
    {authorize : Except Failure Unit}
    (h : (decideProposal codec ledger input now authorize).2 = .ok ()) : authorize = .ok () := by
  cases authorize with
  | ok _ => rfl
  | error failure =>
    have hrefuse : ∀ code message status,
        (refuse code message status : Except Failure Unit) ≠ .ok () := by
      intro code message status
      simp [refuse]
    cases hlock : lockProposal codec ledger input.proposalId input.approvalId with
    | error failure => simp [decideProposal, hlock] at h
    | ok locked =>
      simp only [decideProposal, hlock] at h
      split at h
      · exact absurd h (hrefuse _ _ _)
      split at h
      · unfold commitWith at h
        split at h
        · exact absurd h (hrefuse _ _ _)
        · cases h
      split at h
      · exact absurd h (hrefuse _ _ _)
      split at h
      · exact absurd h (hrefuse _ _ _)
      · cases h

theorem sweep_ids (ledger : Ledger) (proposalWhere : ProposalRecord → Bool)
    (approvalWhere : ApprovalRecord → Bool) (set : ApprovalRecord → ApprovalRecord)
    (status : ProposalStatus) :
    (updateApprovals approvalWhere set (updateProposals proposalWhere
        (fun proposal => { proposal with status := status }) ledger)).map
          (fun x => (x.proposal.id, x.execution.map (·.id))) =
      ledger.map fun x => (x.proposal.id, x.execution.map (·.id)) := by
  rw [updateApprovals_ids, updateProposals_ids]
  exact fun _ => rfl

theorem expireApprovals_ids (ledger : Ledger) (now : Time) (batchSize : Nat) :
    (expireApprovals ledger now batchSize).map (fun x => (x.proposal.id, x.execution.map (·.id))) =
      ledger.map fun x => (x.proposal.id, x.execution.map (·.id)) := by
  unfold expireApprovals
  exact sweep_ids _ _ _ _ _

theorem cancelSessionProposals_ids (ledger : Ledger) (sessionIds : List Uuid) (now : Time) :
    (cancelSessionProposals ledger sessionIds now).map
        (fun x => (x.proposal.id, x.execution.map (·.id))) =
      ledger.map fun x => (x.proposal.id, x.execution.map (·.id)) := by
  unfold cancelSessionProposals
  exact sweep_ids _ _ _ _ _

/-- A decision moves the ledger, with the acceptance that it adds. -/
theorem Invariant.decided (hs : Invariant codec s) (input : DecideProposalInput) (now : Time)
    (authorize : Except Failure Unit) (accepted' : List Accepted) (hsub : s.accepted ⊆ accepted')
    (hacc : (decideProposal codec s.ledger input now authorize).2 = .ok () →
      input.decision = .approved → ⟨input.proposalId, input.userId, now⟩ ∈ accepted') :
    Invariant codec { s with
        ledger := (decideProposal codec s.ledger input now authorize).1
        accepted := accepted' } ∧
      Stems codec accepted' s.ledger (decideProposal codec s.ledger input now authorize).1 := by
  have hinv := hs.ledger.mono hsub
  have hm := decideProposal_moves hinv input now authorize hacc
  exact ⟨hs.of_ledger (hm.invariant_of_executions hinv (decideProposal_ids _ _ _ _)) hm.stems, hm.stems⟩

/-- **Step rule.** -/
theorem Invariant.step (op : Op Value) (hs : Invariant codec s) :
    Invariant codec (exec codec op s) ∧ Stems codec (exec codec op s).accepted s.ledger (exec codec op s).ledger := by
  have hcaller : ∀ i caller, s.callers i = some caller →
      Invariant codec (callerStep codec s i caller.input caller.stage op) ∧
        Stems codec (callerStep codec s i caller.input caller.stage op).accepted s.ledger
          (callerStep codec s i caller.input caller.stage op).ledger := by
    intro i caller hc
    obtain ⟨hinv, hacc, hstems⟩ := callerStep_invariant hs hc op
    exact ⟨hinv, by rw [hacc]; exact hstems⟩
  have hidle : Invariant codec s ∧ Stems codec s.accepted s.ledger s.ledger := ⟨hs, (Moves.refl s.ledger).stems⟩
  have hrun : ∀ i, op.caller = some i →
      Invariant codec (callerMove codec op s) ∧
        Stems codec (callerMove codec op s).accepted s.ledger (callerMove codec op s).ledger := by
    intro i hi
    cases hc : s.callers i with
    | none => simpa [callerMove, hi, hc] using hidle
    | some caller => simpa [callerMove, hi, hc] using hcaller i caller hc
  cases op with
  | persist draft resumed proposalId approvalId now =>
    simp only [exec]
    cases hp : persistProposal codec s.ledger draft resumed proposalId approvalId now with
    | error failure => exact hidle
    | ok ledger' =>
      rcases persistProposal_ok hp with rfl | ⟨input, operation, hfresh, rfl⟩
      · exact hidle
      · have hstems : Stems codec s.accepted s.ledger (s.ledger ++
            [draftEntry codec draft input operation proposalId approvalId now]) := by
          intro id x hx
          refine ⟨x, ?_, .refl⟩
          rw [Proposals.find, Table.get_append, show Table.get _ s.ledger id = some x from hx]
          rfl
        exact ⟨hs.of_ledger (persist_invariant hs.ledger hfresh) hstems, hstems⟩
  | decide input now authorize =>
    have hkey := hs.decided input now authorize
    cases hd : decideProposal codec s.ledger input now authorize with
    | mk ledger' answer =>
      simp only [hd] at hkey
      cases answer with
      | error failure =>
        simp only [exec, hd]
        exact hkey s.accepted (fun _ h => h) fun h => by cases h
      | ok _ =>
        simp only [exec, hd]
        split
        · exact hkey _ (fun _ h => mem_cons_of_mem _ h) fun _ _ => by simp
        · rename_i hdeny
          exact hkey _ (fun _ h => h) fun _ happ => absurd (by simp [happ]) hdeny
  | expireApprovals now batchSize =>
    have hm := expireApprovals_moves hs.ledger now batchSize
    exact ⟨hs.of_ledger (hm.invariant_of_executions hs.ledger (expireApprovals_ids _ _ _)) hm.stems, hm.stems⟩
  | recoverProposalExecutions now batchSize =>
    simp only [exec]
    cases hr : recoverProposalExecutions s.ledger now batchSize with
    | error failure => exact hidle
    | ok ledger' =>
      obtain ⟨he, hinv⟩ := recoverProposalExecutions_evolves hs.ledger hr
      exact ⟨hs.of_ledger hinv he.stems, he.stems⟩
  | deleteSessions sessionIds now =>
    have hm := cancelSessionProposals_moves hs.ledger sessionIds now
    exact ⟨hs.of_ledger (hm.invariant_of_executions hs.ledger (cancelSessionProposals_ids _ _ _)) hm.stems, hm.stems⟩
  | apply i input aborted =>
    simp only [exec]
    split
    · refine ⟨hs.goto ?_ ?_, (Moves.refl s.ledger).stems⟩
      · intro e he
        cases aborted <;> cases he
      · intro hw
        cases aborted <;> cases hw
    · exact hidle
  | readPrior i => exact hrun i rfl
  | loadRecovery i => exact hrun i rfl
  | reconcile i answer => exact hrun i rfl
  | requireRecovery i => exact hrun i rfl
  | commit i now => exact hrun i rfl
  | claim i executionId now aborted reauthorize => exact hrun i rfl
  | dispatch i aborted => exact hrun i rfl
  | mutate i answer => exact hrun i rfl
  | rescue i answer => exact hrun i rfl
  | fail i now => exact hrun i rfl

theorem Invariant.of_reachable (h : Reachable codec s) : Invariant codec s :=
  Machine.Reachable.invariant h .empty fun op _ _ hs => (Invariant.step op hs).1

/-! ## Consequences -/

/-- The entry of a proposal whose fate is decided stays as it is. -/
theorem final_run {s s' : System Value} (hs : Invariant codec s)
    (hrun : (proposals codec).Reachable s s') {id : Uuid} {x : Entry}
    (hx : find s.ledger id = some x)
    (hfinal : x.proposal.status = .applied ∨ x.proposal.status = .denied ∨
      x.proposal.status = .expired ∨ x.proposal.status = .cancelled ∨ x.proposal.status = .failed) :
    find s'.ledger id = some x := by
  refine hrun.invariant_under (I := Invariant codec) (J := fun s => find s.ledger id = some x)
    hs (fun op _ _ h => (Invariant.step op h).1) hx ?_
  intro op s _ hs hx
  obtain ⟨x', hx', hsteps⟩ := (Invariant.step op hs).2 id x hx
  have hsame : x' = x := by
    clear hx'
    induction hsteps with
    | refl => rfl
    | tail _ hstep ih =>
      subst ih
      exact hstep.final hfinal
  rw [hsame] at hx'
  exact hx'

theorem Consistent.status_iff {x : Entry} (hx : Consistent codec accepted x) {status : ProposalStatus}
    {execution : ExecutionStatus} (hpair : ∀ other, executionOf other = some execution ↔ other = status) :
    x.proposal.status = status ↔ ∃ e, x.execution = some e ∧ e.status = execution := by
  rw [← hpair, ← hx.status, Option.map_eq_some_iff]

/-- **At most once.** In every reachable state `mutate` was called at most once for a
proposal, and only after `authorize` let a timely approval through; proposal and
execution agree; results match and are final; a denied, expired or cancelled proposal
has no execution, now or later; and what comes after an approval has one. -/
theorem proposals_applied_once {s : System Value} (hs : Reachable codec s) :
    (∀ id, s.dispatched.count id ≤ 1) ∧
    (∀ id ∈ s.dispatched, ∃ x, find s.ledger id = some x ∧ ∃ decision ∈ s.accepted, Approves x decision) ∧
    (∀ input now authorize, (exec codec (.decide input now authorize) s).accepted ≠ s.accepted →
      authorize = .ok () ∧ input.decision = .approved ∧
        (exec codec (.decide input now authorize) s).accepted = ⟨input.proposalId, input.userId, now⟩ :: s.accepted) ∧
    (∀ id x, find s.ledger id = some x →
      (x.proposal.status = .applied ↔ ∃ e, x.execution = some e ∧ e.status = .committed) ∧
      (x.proposal.status = .applying ↔ ∃ e, x.execution = some e ∧ e.status = .applying) ∧
      (x.proposal.status = .recoveryRequired ↔ ∃ e, x.execution = some e ∧ e.status = .recoveryRequired) ∧
      (x.proposal.status = .applied →
        (∃ e result, x.execution = some e ∧ e.result = some result ∧
          x.proposal.applyResult = some result ∧
          ∀ hash, x.proposal.resultCanonicalSha256 = some hash → codec.sha256 result = hash) ∧
        ∀ s', (proposals codec).Reachable s s' → find s'.ledger id = some x) ∧
      (x.proposal.status = .denied ∨ x.proposal.status = .expired ∨
          x.proposal.status = .cancelled →
        x.execution = none ∧ ∀ s', (proposals codec).Reachable s s' → find s'.ledger id = some x) ∧
      (x.proposal.status = .approved ∨ x.proposal.status = .applying ∨
          x.proposal.status = .applied ∨ x.proposal.status = .failed ∨
          x.proposal.status = .recoveryRequired →
        x.approval.status = .approved ∧ x.approval.approvedByUserId.isSome ∧
          ∃ decision ∈ s.accepted, Approves x decision)) := by
  have hinv := Invariant.of_reachable hs
  refine ⟨hinv.once, ?_, ?_, ?_⟩
  · intro id hid
    obtain ⟨executionId, x, e, hx, he, -⟩ := hinv.claimed id hid
    have hcons := hinv.ledger.consistent x (find_some hx).1
    have hcleared : Cleared x.proposal.status := by
      right
      rw [← hcons.status, he]
      rfl
    exact ⟨x, hx, (hcons.approved hcleared).2⟩
  · intro input now authorize hne
    have hok : (decideProposal codec s.ledger input now authorize).2 = .ok () ∧
        input.decision = .approved ∧ (exec codec (.decide input now authorize) s).accepted =
          ⟨input.proposalId, input.userId, now⟩ :: s.accepted := by
      cases hd : decideProposal codec s.ledger input now authorize with
      | mk ledger' answer =>
        cases answer with
        | error failure => simp [exec, hd] at hne
        | ok _ =>
          simp only [exec, hd] at hne ⊢
          split at hne
          · rename_i happ
            have happ' : input.decision = .approved := by simpa using happ
            exact ⟨trivial, happ', if_pos happ⟩
          · exact absurd rfl hne
    exact ⟨decideProposal_authorized hok.1, hok.2⟩
  · intro id x hx
    have hcons := hinv.ledger.consistent x (find_some hx).1
    have happlied : x.proposal.status = .applied ↔
        ∃ e, x.execution = some e ∧ e.status = .committed :=
      hcons.status_iff fun other => by cases other <;> simp [executionOf]
    have happlying : x.proposal.status = .applying ↔
        ∃ e, x.execution = some e ∧ e.status = .applying :=
      hcons.status_iff fun other => by cases other <;> simp [executionOf]
    have hrecovery : x.proposal.status = .recoveryRequired ↔
        ∃ e, x.execution = some e ∧ e.status = .recoveryRequired :=
      hcons.status_iff fun other => by cases other <;> simp [executionOf]
    refine ⟨happlied, happlying, hrecovery, ?_, ?_, ?_⟩
    · intro hstatus
      obtain ⟨e, he, -⟩ := happlied.mp hstatus
      obtain ⟨result, hresult, happly, hhash⟩ := hcons.result hstatus e he
      exact ⟨⟨e, result, he, hresult, happly, hhash⟩, fun s' hrun => final_run hinv hrun hx (.inl hstatus)⟩
    · intro hclosed
      refine ⟨?_, fun s' hrun => final_run hinv hrun hx ?_⟩
      · have hstatus := hcons.status
        rcases hclosed with hc | hc | hc <;> rw [hc] at hstatus <;>
          simpa [executionOf] using hstatus
      · rcases hclosed with hc | hc | hc <;> simp [hc]
    · intro hopen
      have hcleared : Cleared x.proposal.status := by
        rcases hopen with ho | ho | ho | ho | ho <;> simp [Cleared, ho, executionOf]
      obtain ⟨hstatus, decision, hmem, happ⟩ := hcons.approved hcleared
      exact ⟨hstatus, by simp [happ.user], decision, hmem, happ⟩

/-- A codec on texts, for examples. -/
def plainCodec : Codec JsString where
  sha256 text := text
  canonicalJson text := some text
  parse text := some text
  envelope draft := draft.summary
  claimKey proposalId _ _ := proposalId

def exampleAuthority (actionName : JsString) : ActionAuthority :=
  ⟨1, actionName, .agent, .user 7, js "request", js "authority"⟩

def exampleDraft : ProposalDraft JsString where
  toProposalBaseContract :=
    ⟨none, none, none, none, none, none, none, none, none, none, none, none, none, none, none, none⟩
  runId := some (js "run")
  sessionId := some (js "session")
  authority := exampleAuthority (js "pages.prepareUpdate")
  actionCallId := js "call"
  destructive := false
  input := js "input"
  operation := js "operation"
  summary := js "summary"
  ttlMs := none

/-- A proposal is approved by its owner and applied by one caller. -/
def exampleOps : List (Op JsString) :=
  [.persist exampleDraft false (js "p") (js "a") 0,
    .decide ⟨js "p", js "a", 7, .approved, none⟩ 10 (.ok ()),
    .apply 0 ⟨js "p", js "a", exampleAuthority (js "pages.applyProposal"), none⟩ false,
    .readPrior 0, .claim 0 (js "e") 20 false (.ok ()), .dispatch 0 false,
    .mutate 0 (some (js "result")), .commit 0 30]

theorem proposals_applied_once_example :
    let s := (proposals plainCodec).after exampleOps .empty
    (∀ id, s.dispatched.count id ≤ 1) ∧ ∃ x, find s.ledger (js "p") = some x ∧
      x.proposal.status = .applied ∧ x.proposal.applyResult = some (js "result") ∧
      (∃ decision ∈ s.accepted, Approves x decision) ∧
      ∀ s', (proposals plainCodec).Reachable s s' → find s'.ledger (js "p") = some x := by
  intro s
  have hs : Reachable plainCodec s := ⟨exampleOps, by simp [Machine.Valid, exampleOps, proposals], rfl⟩
  obtain ⟨honce, -, -, hrows⟩ := proposals_applied_once hs
  have hfound : ((find s.ledger (js "p")).map fun x => (x.proposal.status, x.proposal.applyResult)) =
      some (.applied, some (js "result")) := by
    decide
  obtain ⟨x, hx, hstatus⟩ := Option.map_eq_some_iff.mp hfound
  obtain ⟨happlied, hresult⟩ := Prod.mk.inj hstatus
  obtain ⟨-, -, -, hfinal, -, happroved⟩ := hrows _ x hx
  exact ⟨honce, x, hx, happlied, hresult, (happroved (.inr (.inr (.inl happlied)))).2.2, (hfinal happlied).2⟩

end TsEpistle.Proposals
