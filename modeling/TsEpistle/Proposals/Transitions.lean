import TsEpistle.Proposals.Callers

/-! What one transaction does to the entry of one proposal. Every transaction of the
ledger maps each entry to an `EntryStep` of it or appends a new entry. -/

namespace TsEpistle.Proposals
open Library List Option

variable {Value : Type} (codec : Codec Value)

/-! ## Consistent entries -/

/-- The status of the execution that goes with the status of a proposal. -/
def executionOf : ProposalStatus → Option ExecutionStatus
  | .applying => some .applying
  | .applied => some .committed
  | .failed => some .failed
  | .recoveryRequired => some .recoveryRequired
  | _ => none

/-- The statuses that come after an approval. -/
def Cleared (status : ProposalStatus) : Prop :=
  status = .approved ∨ (executionOf status).isSome

/-- `decision` approved the proposal of `entry` before it expired. -/
structure Approves (entry : Entry) (decision : Accepted) : Prop where
  proposal : decision.proposalId = entry.proposal.id
  early : decision.decidedAt < entry.proposal.expiresAt
  early' : decision.decidedAt < entry.approval.expiresAt
  owner : entry.proposal.sourceKind = .agent → entry.proposal.requesterUserId = some decision.userId
  user : entry.approval.approvedByUserId = some decision.userId

structure Consistent (accepted : List Accepted) (entry : Entry) : Prop where
  linked : entry.approval.proposalId = entry.proposal.id
  claim : ∀ e, entry.execution = some e → e.proposalId = entry.proposal.id ∧ e.inputHash = entry.proposal.inputHash
  status : entry.execution.map (·.status) = executionOf entry.proposal.status
  approved : Cleared entry.proposal.status → entry.approval.status = .approved ∧
    ∃ decision ∈ accepted, Approves entry decision
  result : entry.proposal.status = .applied → ∀ e, entry.execution = some e →
    ∃ result, e.result = some result ∧ entry.proposal.applyResult = some result ∧
      ∀ hash, entry.proposal.resultCanonicalSha256 = some hash → codec.sha256 result = hash

/-! ## Steps of an entry -/

def decidedEntry (entry : Entry) (input : DecideProposalInput) (now : Time) : Entry :=
  { entry with
    proposal := { entry.proposal with status := input.decision.proposalStatus }
    approval := { entry.approval with
      status := input.decision.approvalStatus
      decidedAt := some now
      approvedByUserId := if input.decision == .approved then some input.userId else none
      decisionNote := input.decisionNote } }

def committedEntry (entry : Entry) (execution : ExecutionRow) (result : JsString) (now : Time) :
    Entry :=
  { entry with
    proposal := { entry.proposal with
      status := .applied
      appliedAt := some now
      applyResult := some result }
    execution := some { execution with
      status := .committed
      completedAt := some now
      result := some result
      error := none } }

/-- What a transaction may do to an entry. `accepted` are the approvals on record
after it. -/
inductive EntryStep (accepted : List Accepted) : Entry → Entry → Prop
  | same (x) : EntryStep accepted x x
  | decided {x} (input : DecideProposalInput) (now : Time) :
      x.proposal.status = .pending → now < x.proposal.expiresAt → now < x.approval.expiresAt →
      (x.proposal.sourceKind = .agent → x.proposal.requesterUserId = some input.userId) →
      (input.decision = .approved → ⟨x.proposal.id, input.userId, now⟩ ∈ accepted) →
      EntryStep accepted x (decidedEntry x input now)
  | closed {x x' status} :
      undecided x.proposal = true → status = .expired ∨ status = .cancelled →
      x'.proposal = { x.proposal with status := status } → x'.execution = x.execution →
      x'.approval.proposalId = x.approval.proposalId → EntryStep accepted x x'
  | claimed {x} (approver executionId leaseToken now) :
      x.proposal.status = .approved → x.execution = none →
      EntryStep accepted x
        { x with
          proposal := { x.proposal with status := .applying }
          execution := some (claimedExecution codec x approver executionId leaseToken now) }
  | committed {x execution} (result now) :
      x.execution = some execution →
      x.proposal.status = .applying ∨ x.proposal.status = .recoveryRequired →
      (∀ hash, x.proposal.resultCanonicalSha256 = some hash → codec.sha256 result = hash) →
      EntryStep accepted x (committedEntry x execution result now)
  | left {x execution execution' status} :
      x.execution = some execution → x.proposal.status = .applying →
      some execution'.status = executionOf status → status = .recoveryRequired ∨ status = .failed →
      execution'.id = execution.id → execution'.proposalId = execution.proposalId →
      execution'.inputHash = execution.inputHash →
      EntryStep accepted x
        { x with proposal := { x.proposal with status := status }, execution := some execution' }

variable {codec} {accepted : List Accepted}

theorem undecided_iff (proposal : ProposalRecord) :
    undecided proposal = true ↔ proposal.status = .pending ∨ proposal.status = .approved := by
  simp [undecided]

/-- No transaction rewrites the payload of a proposal or the identity of a claim. -/
theorem EntryStep.keeps {x x' : Entry} (h : EntryStep codec accepted x x') :
    x'.proposal.id = x.proposal.id ∧ ∀ e, x.execution = some e → ∃ e', x'.execution = some e' ∧ e'.id = e.id := by
  cases h with
  | same | decided => exact ⟨rfl, fun e he => ⟨e, he, rfl⟩⟩
  | closed _ _ hproposal hexecution _ =>
    exact ⟨by rw [hproposal], fun e he => ⟨e, by rw [hexecution, he], rfl⟩⟩
  | claimed approver executionId leaseToken now _ hnone =>
    exact ⟨rfl, fun e he => by simp [hnone] at he⟩
  | committed result now hexec =>
    refine ⟨rfl, fun e he => ?_⟩
    rw [hexec] at he
    cases he
    exact ⟨_, rfl, rfl⟩
  | left hexec _ _ _ hid =>
    refine ⟨rfl, fun e he => ?_⟩
    rw [hexec] at he
    cases he
    exact ⟨_, rfl, hid⟩

variable {x : Entry}

theorem Consistent.mono {accepted' : List Accepted} (h : Consistent codec accepted x)
    (hsub : accepted ⊆ accepted') : Consistent codec accepted' x := by
  refine ⟨h.linked, h.claim, h.status, ?_, h.result⟩
  intro hcleared
  obtain ⟨hstatus, decision, hmem, happ⟩ := h.approved hcleared
  exact ⟨hstatus, decision, hsub hmem, happ⟩

/-- **Entry rule.** A transaction keeps the two ledgers of a proposal in agreement. -/
theorem Consistent.step {x x' : Entry} (hx : Consistent codec accepted x)
    (h : EntryStep codec accepted x x') : Consistent codec accepted x' := by
  cases h with
  | same => exact hx
  | decided input now hpending hearly hearly' howner haccept =>
    have hnone : x.execution = none := by
      have := hx.status
      rw [hpending] at this
      simpa [executionOf] using this
    have hdec : ∀ status, input.decision.proposalStatus = status →
        executionOf status = none := by
      rintro status rfl
      cases input.decision <;> rfl
    refine ⟨hx.linked, ?_, ?_, ?_, ?_⟩
    · intro e he
      exact hx.claim e he
    · simp [decidedEntry, hnone, hdec _ rfl]
    · intro hcleared
      cases hd : input.decision with
      | approved =>
        refine ⟨by simp [decidedEntry, hd, Decision.approvalStatus], _, haccept hd, ?_⟩
        exact ⟨rfl, hearly, hearly', howner, by simp [decidedEntry, hd]⟩
      | denied =>
        simp [decidedEntry, hd, Decision.proposalStatus, Cleared, executionOf] at hcleared
    · intro happlied
      cases hd : input.decision <;> simp [decidedEntry, hd, Decision.proposalStatus] at happlied
  | @closed _ status hundecided hstatus hproposal hexecution happroval =>
    have hnone : x.execution = none := by
      have := hx.status
      rcases (undecided_iff _).mp hundecided with hp | hp <;> rw [hp] at this <;>
        simpa [executionOf] using this
    have hx' : x'.proposal.status = status := by rw [hproposal]
    refine ⟨by rw [happroval, hproposal]; exact hx.linked, ?_, ?_, ?_, ?_⟩
    · intro e he
      rw [hexecution, hnone] at he
      cases he
    · rw [hexecution, hnone, hx']
      rcases hstatus with rfl | rfl <;> rfl
    · intro hcleared
      rw [hx'] at hcleared
      rcases hstatus with rfl | rfl <;> simp [Cleared, executionOf] at hcleared
    · intro happlied
      rw [hx'] at happlied
      rcases hstatus with rfl | rfl <;> cases happlied
  | claimed approver executionId leaseToken now happroved hnone =>
    obtain ⟨hstatus, decision, hmem, happ⟩ := hx.approved (.inl happroved)
    refine ⟨hx.linked, ?_, rfl, ?_, by simp⟩
    · intro e he
      cases he
      exact ⟨rfl, rfl⟩
    · intro _
      exact ⟨hstatus, decision, hmem, ⟨happ.proposal, happ.early, happ.early', happ.owner, happ.user⟩⟩
  | committed result now hexec hstatus hhash =>
    have hcleared : Cleared x.proposal.status := by
      rcases hstatus with hs | hs <;> simp [Cleared, hs, executionOf]
    obtain ⟨hstatus', decision, hmem, happ⟩ := hx.approved hcleared
    refine ⟨hx.linked, ?_, rfl, ?_, ?_⟩
    · intro e he
      cases he
      obtain ⟨hproposalId, hinputHash⟩ := hx.claim _ hexec
      exact ⟨hproposalId, hinputHash⟩
    · intro _
      exact ⟨hstatus', decision, hmem, ⟨happ.proposal, happ.early, happ.early', happ.owner, happ.user⟩⟩
    · intro _ e he
      cases he
      exact ⟨result, rfl, rfl, hhash⟩
  | left hexec happlying hexecStatus hstatus hid hproposalId hhash =>
    have hcleared : Cleared x.proposal.status := by simp [Cleared, happlying, executionOf]
    obtain ⟨hstatus', decision, hmem, happ⟩ := hx.approved hcleared
    refine ⟨hx.linked, ?_, by simpa using hexecStatus, ?_, ?_⟩
    · intro e he
      cases he
      rw [hproposalId, hhash]
      exact hx.claim _ hexec
    · intro _
      exact ⟨hstatus', decision, hmem, ⟨happ.proposal, happ.early, happ.early', happ.owner, happ.user⟩⟩
    · intro happlied
      rcases hstatus with rfl | rfl <;> cases happlied

/-- A decided fate is final. -/
theorem EntryStep.final {x x' : Entry} (h : EntryStep codec accepted x x')
    (hfinal : x.proposal.status = .applied ∨ x.proposal.status = .denied ∨
      x.proposal.status = .expired ∨ x.proposal.status = .cancelled ∨ x.proposal.status = .failed) :
    x' = x := by
  cases h with
  | same => rfl
  | decided input now hpending => simp [hpending] at hfinal
  | closed hundecided =>
    rcases (undecided_iff _).mp hundecided with hp | hp <;> simp [hp] at hfinal
  | claimed _ _ _ _ happroved => simp [happroved] at hfinal
  | committed _ _ _ hstatus => rcases hstatus with hs | hs <;> simp [hs] at hfinal
  | left _ happlying => simp [happlying] at hfinal

/-! ## Ledgers -/

structure LedgerInvariant (codec : Codec Value) (accepted : List Accepted) (ledger : Ledger) :
    Prop where
  ids : (ledger.map fun x => x.proposal.id).Nodup
  consistent : ∀ x ∈ ledger, Consistent codec accepted x
  executionIds : ∀ x ∈ ledger, ∀ y ∈ ledger, ∀ e f, x.execution = some e → y.execution = some f → e.id = f.id → x = y

/-- Every entry makes a step. -/
def Moves (codec : Codec Value) (accepted : List Accepted) (ledger ledger' : Ledger) : Prop :=
  ∃ f, ledger' = ledger.map f ∧ ∀ x ∈ ledger, EntryStep codec accepted x (f x)

theorem Moves.refl (ledger : Ledger) : Moves codec accepted ledger ledger := ⟨id, by simp, fun x _ => .same x⟩

theorem find_some {ledger : Ledger} {id : Uuid} (h : find ledger id = some x) : x ∈ ledger ∧ x.proposal.id = id :=
  Table.get_mem _ h

theorem LedgerInvariant.find_iff {ledger : Ledger} (h : LedgerInvariant codec accepted ledger)
    {id : Uuid} : find ledger id = some x ↔ x ∈ ledger ∧ x.proposal.id = id :=
  Table.get_eq_some_iff _ h.ids

theorem LedgerInvariant.same {ledger : Ledger} (h : LedgerInvariant codec accepted ledger) {x y : Entry}
    (hx : x ∈ ledger) (hy : y ∈ ledger) (hid : x.proposal.id = y.proposal.id) : x = y :=
  inj_on_of_nodup_map h.ids hx hy hid

variable {ledger ledger' : Ledger}

/-- The entry of a proposal makes a step, too. -/
theorem Moves.find (h : Moves codec accepted ledger ledger') {id : Uuid} (hx : find ledger id = some x) : ∃ x',
    find ledger' id = some x' ∧ EntryStep codec accepted x x' := by
  obtain ⟨f, rfl, hf⟩ := h
  have hkeep : ∀ l : Ledger, (∀ x ∈ l, EntryStep codec accepted x (f x)) →
      Proposals.find (l.map f) id = (Proposals.find l id).map f := by
    intro l hl
    induction l with
    | nil => rfl
    | cons a l ih =>
      have hid : (f a).proposal.id = a.proposal.id := (hl a (by simp)).keeps.1
      have htail := ih fun y hy => hl y (mem_cons_of_mem _ hy)
      simp only [Proposals.find, Table.get, map_cons, find?_cons, hid] at htail ⊢
      by_cases ha : a.proposal.id = id
      · simp [ha]
      · simp only [ha, decide_false]
        exact htail
  exact ⟨f x, by rw [hkeep ledger hf, hx, map_some], hf x (find_some hx).1⟩

theorem Moves.ids (h : Moves codec accepted ledger ledger') :
    ledger'.map (fun x => x.proposal.id) = ledger.map fun x => x.proposal.id := by
  obtain ⟨f, rfl, hf⟩ := h
  rw [List.map_map]
  exact map_congr_left fun x hx => (hf x hx).keeps.1

theorem Moves.invariant (hm : Moves codec accepted ledger ledger')
    (h : LedgerInvariant codec accepted ledger)
    (hids : ∀ x ∈ ledger', ∀ y ∈ ledger', ∀ e f, x.execution = some e → y.execution = some f →
      e.id = f.id → x.proposal.id = y.proposal.id) :
    LedgerInvariant codec accepted ledger' := by
  have hnodup : (ledger'.map fun x => x.proposal.id).Nodup := by
    rw [hm.ids]
    exact h.ids
  refine ⟨hnodup, ?_, ?_⟩
  · obtain ⟨f, rfl, hf⟩ := hm
    intro x' hx'
    obtain ⟨x, hx, rfl⟩ := List.mem_map.mp hx'
    exact (h.consistent x hx).step (hf x hx)
  · intro x hx y hy e f he hf heq
    exact inj_on_of_nodup_map hnodup hx hy (hids x hx y hy e f he hf heq)

/-- Where no claim is made the identities of the executions stay. -/
theorem Moves.invariant_of_keep (hm : Moves codec accepted ledger ledger')
    (h : LedgerInvariant codec accepted ledger)
    (hkeep : ∀ x' ∈ ledger', ∀ e', x'.execution = some e' → ∃ x ∈ ledger, ∃ e,
      x.execution = some e ∧ e.id = e'.id ∧ x.proposal.id = x'.proposal.id) :
    LedgerInvariant codec accepted ledger' := by
  refine hm.invariant h fun x hx y hy e f he hf heq => ?_
  obtain ⟨x₀, hx₀, e₀, he₀, hid, hpx⟩ := hkeep x hx e he
  obtain ⟨y₀, hy₀, f₀, hf₀, hid', hpy⟩ := hkeep y hy f hf
  have hsame := h.executionIds x₀ hx₀ y₀ hy₀ e₀ f₀ he₀ hf₀ (by rw [hid, hid', heq])
  rw [← hpx, ← hpy, hsame]

/-! ## Transactions -/

theorem updateWhere_comp {ρ : Type} (p q : ρ → Bool) (f g : ρ → ρ) (rows : List ρ) :
    Table.updateWhere p f (Table.updateWhere q g rows) =
      rows.map fun r => (fun r => if p r then f r else r) (if q r then g r else r) := by
  simp [Table.updateWhere, List.map_map, Function.comp_def]

variable {proposalId approvalId : Uuid}

theorem lockProposal_ok {ledger : Ledger} {input : Value}
    (h : lockProposal codec ledger proposalId approvalId = .ok (x, input)) :
    find ledger proposalId = some x ∧ x.approval.id = approvalId := by
  have hlock : lockProposalLedger codec ledger proposalId approvalId = .ok x := by
    simp only [lockProposal, bind, Except.bind] at h
    split at h
    · cases h
    · rename_i y hy
      split at h
      · cases h
      · cases h
        exact hy
  simp only [lockProposalLedger] at hlock
  split at hlock
  · cases hlock
  · rename_i y hy
    split at hlock
    · cases hlock
    · cases hlock
      obtain ⟨hfind, happ⟩ := filter_eq_some_iff.mp hy
      exact ⟨hfind, by simpa using happ⟩

/-- The two updates of a decision fall on one entry. -/
theorem updateStatuses_ok {fromProposal : ProposalStatus} {fromApproval : ApprovalStatus}
    {proposalPatch : ProposalRecord → ProposalRecord}
    {approvalPatch : ApprovalRecord → ApprovalRecord} (hinv : LedgerInvariant codec accepted ledger)
    (h : updateStatuses ledger proposalId approvalId fromProposal fromApproval proposalPatch
      approvalPatch = .ok ledger') (hx : find ledger proposalId = some x)
    (happroval : x.approval.id = approvalId) (hfromP : x.proposal.status = fromProposal)
    (hfromA : x.approval.status = fromApproval) :
    ledger' = ledger.map fun y => if y.proposal.id = proposalId then
      { y with proposal := proposalPatch y.proposal, approval := approvalPatch y.approval }
      else y := by
  simp only [updateStatuses] at h
  split at h
  · cases h
  · cases h
    obtain ⟨hxmem, hxid⟩ := find_some hx
    have hlinked := (hinv.consistent x hxmem).linked
    rw [updateProposals, updateApprovals, updateWhere_comp]
    refine map_congr_left fun y hy => ?_
    by_cases hid : y.proposal.id = proposalId
    · have hsame := hinv.same hy hxmem (hid.trans hxid.symm)
      subst hsame
      simp [hid, happroval, hfromP, hfromA, hlinked]
    · have hother : y.approval.proposalId ≠ proposalId := by
        rw [(hinv.consistent y hy).linked]
        exact hid
      simp [hid, hother]

theorem decideProposal_moves {ledger : Ledger} (hinv : LedgerInvariant codec accepted ledger)
    (input : DecideProposalInput) (now : Time) (authorize : Except Failure Unit)
    {accepted' : List Accepted}
    (haccepted : (decideProposal codec ledger input now authorize).2 = .ok () →
      input.decision = .approved → ⟨input.proposalId, input.userId, now⟩ ∈ accepted') :
    Moves codec accepted' ledger (decideProposal codec ledger input now authorize).1 := by
  cases hlock : lockProposal codec ledger input.proposalId input.approvalId with
  | error failure =>
    simp only [decideProposal, hlock]
    exact .refl _
  | ok locked =>
    obtain ⟨x, value⟩ := locked
    obtain ⟨hx, happroval⟩ := lockProposal_ok hlock
    obtain ⟨hxmem, hxid⟩ := find_some hx
    simp only [decideProposal, hlock] at haccepted ⊢
    split
    · exact .refl _
    rename_i hpending
    rw [if_neg hpending] at haccepted
    simp only [bne_iff_ne, ne_eq, Bool.or_eq_true, not_or, not_not] at hpending
    split
    · -- the expiry is committed although the call reports an error
      unfold commitWith
      split
      · rename_i ledger' hok
        rw [updateStatuses_ok hinv hok hx happroval hpending.1 hpending.2]
        refine ⟨_, rfl, fun y hy => ?_⟩
        split
        · rename_i hid
          have hsame := hinv.same hy hxmem (hid.trans hxid.symm)
          subst hsame
          exact .closed (by simp [undecided, hpending.1]) (.inl rfl) rfl rfl rfl
        · exact .same y
      · exact .refl _
    rename_i hearly
    rw [if_neg hearly] at haccepted
    simp only [Bool.or_eq_true, decide_eq_true_eq, not_or, not_le] at hearly
    split
    · exact .refl _
    rename_i howner
    rw [if_neg howner] at haccepted
    split
    · exact .refl _
    rename_i hnote
    rw [if_neg hnote] at haccepted
    cases authorize with
    | error failure => exact .refl _
    | ok _ =>
      simp only [commitWith] at haccepted ⊢
      split
      · rename_i ledger' hok
        simp only [hok, forall_const] at haccepted
        rw [updateStatuses_ok hinv hok hx happroval hpending.1 hpending.2]
        refine ⟨_, rfl, fun y hy => ?_⟩
        split
        · rename_i hid
          have hsame := hinv.same hy hxmem (hid.trans hxid.symm)
          subst hsame
          refine EntryStep.decided input now hpending.1 hearly.1 hearly.2 ?_ ?_
          · intro hagent
            simpa [hagent] using howner
          · intro happ
            rw [hxid]
            exact haccepted happ
        · exact .same y
      · exact .refl _

/-- Sweeps close undecided proposals and touch approvals that are still pending. -/
theorem close_moves {ledger : Ledger} (hinv : LedgerInvariant codec accepted ledger)
    (proposalIds : List Uuid) (status : ProposalStatus)
    (hstatus : status = .expired ∨ status = .cancelled)
    (proposalWhere : ProposalRecord → Bool) (approvalWhere : ApprovalRecord → Bool)
    (set : ApprovalRecord → ApprovalRecord) (hset : ∀ a, (set a).proposalId = a.proposalId)
    (hproposal : ∀ x ∈ ledger, proposalWhere x.proposal = proposalIds.contains x.proposal.id)
    (happroval : ∀ a, approvalWhere a = true → a.proposalId ∈ proposalIds)
    (hids : ∀ x ∈ ledger, x.proposal.id ∈ proposalIds → undecided x.proposal = true) :
    Moves codec accepted ledger (updateApprovals approvalWhere set
      (updateProposals proposalWhere (fun proposal => { proposal with status := status }) ledger)) := by
  refine ⟨_, updateWhere_comp _ _ _ _ _, fun x hx => ?_⟩
  by_cases hid : x.proposal.id ∈ proposalIds
  · have hcond : proposalWhere x.proposal = true := by simp [hproposal x hx, hid]
    simp only [hcond, if_true]
    split
    · exact .closed (hids x hx hid) hstatus rfl rfl (hset _)
    · exact .closed (hids x hx hid) hstatus rfl rfl rfl
  · have hcond : proposalWhere x.proposal = false := by simp [hproposal x hx, hid]
    have hother : approvalWhere x.approval = false := by
      by_contra hne
      have := happroval x.approval (by simpa using hne)
      rw [(hinv.consistent x hx).linked] at this
      exact hid this
    simp only [hcond, hother, Bool.false_eq_true, if_false]
    exact .same x

theorem expireApprovals_moves {ledger : Ledger} (hinv : LedgerInvariant codec accepted ledger) (now : Time)
    (batchSize : Nat) : Moves codec accepted ledger (expireApprovals ledger now batchSize) := by
  have hids : ∀ x ∈ ledger, x.proposal.id ∈ (((((ledger.map (·.proposal)).filter fun proposal =>
      undecided proposal && proposal.expiresAt ≤ now).insertionSort
        fun a b => a.expiresAt ≤ b.expiresAt).take batchSize).map (·.id)) →
      undecided x.proposal = true := by
    intro x hx hid
    obtain ⟨proposal, hproposal, heq⟩ := List.mem_map.mp hid
    have hsorted := mem_of_mem_take hproposal
    rw [mem_insertionSort] at hsorted
    obtain ⟨hmem, hdue⟩ := mem_filter.mp hsorted
    obtain ⟨y, hy, rfl⟩ := List.mem_map.mp hmem
    rw [hinv.same hx hy heq.symm]
    simp only [Bool.and_eq_true] at hdue
    exact hdue.1
  unfold expireApprovals
  refine close_moves hinv _ .expired (.inl rfl) _ _ _ (fun _ => rfl) ?_ ?_ hids
  · intro x hx
    rw [Bool.eq_iff_iff, Bool.and_eq_true]
    constructor
    · exact fun h => h.1
    · exact fun h => ⟨h, hids x hx (by simpa using h)⟩
  · intro a ha
    simp only [Bool.and_eq_true, contains_iff_mem] at ha
    exact ha.1

theorem cancelSessionProposals_moves {ledger : Ledger}
    (hinv : LedgerInvariant codec accepted ledger) (sessionIds : List Uuid) (now : Time) :
    Moves codec accepted ledger (cancelSessionProposals ledger sessionIds now) := by
  unfold cancelSessionProposals
  refine close_moves hinv _ .cancelled (.inr rfl) _ _ _ (fun _ => rfl) (fun _ _ => rfl) ?_ ?_
  · intro a ha
    simp only [Bool.and_eq_true, contains_iff_mem] at ha
    exact ha.1
  · intro x hx hid
    obtain ⟨proposal, hproposal, heq⟩ := List.mem_map.mp hid
    obtain ⟨hmem, hdue⟩ := mem_filter.mp hproposal
    obtain ⟨y, hy, rfl⟩ := List.mem_map.mp hmem
    rw [hinv.same hx hy heq.symm]
    simp only [Bool.and_eq_true] at hdue
    exact hdue.2

/-- The entry a claim takes, and what the claim makes of it. -/
theorem claimExecution_ok {input : ApplyProposalInput} {executionId : Uuid} {now : Time}
    {aborted : Bool} {reauthorize : Except Failure Unit} {proposal : ProposalRecord}
    (hinv : LedgerInvariant codec accepted ledger)
    (h : claimExecution codec ledger input executionId now aborted reauthorize = .ok (ledger', proposal)) :
    ∃ x approver, find ledger input.proposalId = some x ∧ x.proposal.status = .approved ∧
      x.execution = none ∧
      (∀ y ∈ ledger, ∀ e, y.execution = some e → e.id ≠ executionId) ∧
      ledger' = ledger.map fun y => if y.proposal.id = input.proposalId then
        { y with
          proposal := { y.proposal with status := .applying }
          execution := some (claimedExecution codec x approver executionId input.leaseToken now) }
        else y := by
  unfold claimExecution at h
  cases hlock : lockProposal codec ledger input.proposalId input.approvalId with
  | error failure => simp [hlock, bind, Except.bind] at h
  | ok locked =>
    obtain ⟨x, value⟩ := locked
    obtain ⟨hx, -⟩ := lockProposal_ok hlock
    obtain ⟨hxmem, hxid⟩ := find_some hx
    simp only [hlock, bind, Except.bind] at h
    split at h
    · cases h
    split at h
    · cases h
    rename_i approver happrover
    split at h
    · cases h
    rename_i hstatus
    simp only [bne_iff_ne, ne_eq, Bool.or_eq_true, not_or, not_not] at hstatus
    split at h
    · cases h
    split at h
    · cases h
    split at h
    · cases h
    split at h
    · cases h
    rename_i hnone
    split at h
    · cases h
    rename_i hfresh
    split at h
    · cases h
    simp only [pure, Except.pure, Except.ok.injEq, Prod.mk.injEq] at h
    refine ⟨x, approver, hx, hstatus.1, by simpa using hnone, ?_, ?_⟩
    · intro y hy e he heq
      refine hfresh (List.any_eq_true.mpr ⟨y, hy, ?_⟩)
      simp [he, heq]
    · rw [← h.1, updateProposals, updateWhere_comp]
      refine map_congr_left fun y hy => ?_
      by_cases hid : y.proposal.id = input.proposalId
      · have hsame := hinv.same hy hxmem (hid.trans hxid.symm)
        subst hsame
        simp [hid, hstatus.1]
      · have hother : y.proposal.id ≠ x.proposal.id := by rwa [hxid]
        simp [hid, hother]

theorem claimExecution_moves {input : ApplyProposalInput} {executionId : Uuid} {now : Time} {aborted : Bool}
    {reauthorize : Except Failure Unit} {proposal : ProposalRecord} (hinv : LedgerInvariant codec accepted ledger)
    (h : claimExecution codec ledger input executionId now aborted reauthorize = .ok (ledger', proposal)) :
    Moves codec accepted ledger ledger' ∧ LedgerInvariant codec accepted ledger' := by
  obtain ⟨x, approver, hx, happroved, hnone, hfresh, rfl⟩ := claimExecution_ok hinv h
  obtain ⟨hxmem, hxid⟩ := find_some hx
  have hmoves : Moves codec accepted ledger (ledger.map fun y =>
      if y.proposal.id = input.proposalId then
        { y with
          proposal := { y.proposal with status := .applying }
          execution := some (claimedExecution codec x approver executionId input.leaseToken now) }
        else y) := by
    refine ⟨_, rfl, fun y hy => ?_⟩
    split
    · rename_i hid
      have hsame := hinv.same hy hxmem (hid.trans hxid.symm)
      subst hsame
      exact .claimed _ _ _ _ happroved hnone
    · exact .same y
  refine ⟨hmoves, hmoves.invariant hinv ?_⟩
  -- the claimed entry is the only one that has the new identity
  have hrow : ∀ y ∈ ledger.map (fun y => if y.proposal.id = input.proposalId then
        { y with
          proposal := { y.proposal with status := .applying }
          execution := some (claimedExecution codec x approver executionId input.leaseToken now) }
        else y), ∀ e, y.execution = some e →
      (e.id = executionId ∧ y.proposal.id = input.proposalId) ∨ (e.id ≠ executionId ∧ y ∈ ledger) := by
    intro y' hy' e he
    obtain ⟨y, hy, rfl⟩ := List.mem_map.mp hy'
    by_cases hid : y.proposal.id = input.proposalId
    · simp only [hid, if_true, Option.some.injEq] at he
      subst he
      exact .inl ⟨rfl, by simp [hid]⟩
    · rw [if_neg hid] at he ⊢
      exact .inr ⟨hfresh y hy e he, hy⟩
  intro y hy z hz e f he hf heq
  rcases hrow y hy e he with ⟨hye, hyid⟩ | ⟨hye, hy'⟩
  · rcases hrow z hz f hf with ⟨-, hzid⟩ | ⟨hzf, -⟩
    · rw [hyid, hzid]
    · exact absurd (heq ▸ hye) hzf
  · rcases hrow z hz f hf with ⟨hzf, -⟩ | ⟨-, hz'⟩
    · exact absurd (heq.trans hzf) hye
    · rw [hinv.executionIds y hy' z hz' e f he hf heq]

/-- The execution `executionId` belongs to the proposal. -/
def Owns (ledger : Ledger) (proposalId executionId : Uuid) : Prop :=
  ∃ x e, find ledger proposalId = some x ∧ x.execution = some e ∧ e.id = executionId

theorem Owns.moves {proposalId executionId : Uuid} (h : Owns ledger proposalId executionId)
    (hm : Moves codec accepted ledger ledger') : Owns ledger' proposalId executionId := by
  obtain ⟨x, e, hx, he, rfl⟩ := h
  obtain ⟨x', hx', hstep⟩ := hm.find hx
  obtain ⟨e', he', hid⟩ := hstep.keeps.2 e he
  exact ⟨x', e', hx', he', hid⟩

/-- An execution with the identity of an owned one is in the entry of its proposal. -/
theorem Owns.entry {ledger : Ledger} {proposalId executionId : Uuid} (h : Owns ledger proposalId executionId)
    (hinv : LedgerInvariant codec accepted ledger) {y : Entry} (hy : y ∈ ledger) {f : ExecutionRow}
    (hf : y.execution = some f) (hid : f.id = executionId) : y.proposal.id = proposalId := by
  obtain ⟨x, e, hx, he, heid⟩ := h
  obtain ⟨hxmem, hxid⟩ := find_some hx
  rw [hinv.executionIds y hy x hxmem f e hf he (by rw [hid, heid]), hxid]

theorem executionOf_applying {status : ProposalStatus} (h : executionOf status = some .applying) :
    status = .applying := by
  cases status <;> simp_all [executionOf]

/-- Both rows of an owned execution leave `applying` together, or neither does. -/
theorem leaveApplying_moves {ledger : Ledger} (hinv : LedgerInvariant codec accepted ledger)
    {executionId proposalId : Uuid} (howns : Owns ledger proposalId executionId)
    (set : ExecutionRow → ExecutionRow) (status : ProposalStatus)
    (hstatus : status = .recoveryRequired ∨ status = .failed)
    (hset : ∀ e, some (set e).status = executionOf status ∧ (set e).id = e.id ∧
      (set e).proposalId = e.proposalId ∧ (set e).inputHash = e.inputHash) :
    Moves codec accepted ledger (leaveApplying ledger executionId proposalId set status) := by
  refine ⟨_, updateWhere_comp _ _ _ _ _, fun y hy => ?_⟩
  have hcons := hinv.consistent y hy
  by_cases happlying : y.proposal.status = .applying
  · obtain ⟨e, he, hest⟩ : ∃ e, y.execution = some e ∧ e.status = .applying := by
      have := hcons.status
      rw [happlying] at this
      exact map_eq_some_iff.mp this
    by_cases hid : y.proposal.id = proposalId
    · have heid : e.id = executionId := by
        obtain ⟨x, f, hx, hf, hfid⟩ := howns
        obtain ⟨hxmem, hxid⟩ := find_some hx
        have hsame := hinv.same hy hxmem (hid.trans hxid.symm)
        subst hsame
        rw [he] at hf
        cases hf
        exact hfid
      obtain ⟨hs, hsid, hsp, hsh⟩ := hset e
      have hproposal : (y.proposal.id == proposalId && y.proposal.status == .applying) = true := by
        simp [hid, happlying]
      have hexec : (y.execution.any fun row => row.id == executionId && row.status == .applying) =
          true := by simp [he, heid, hest]
      simp only [hexec, if_true, hproposal]
      rw [he, map_some]
      exact .left he happlying hs hstatus hsid hsp hsh
    · have heid : e.id ≠ executionId := fun heq => hid (howns.entry hinv hy he heq)
      simp only [he, any_some, beq_eq_false_iff_ne.mpr heid, Bool.false_and,
        Bool.false_eq_true, if_false, beq_eq_false_iff_ne.mpr hid]
      exact .same y
  · have hexec : (y.execution.any fun row => row.id == executionId && row.status == .applying) =
        false := by
      by_contra hne
      obtain ⟨e, he, hcond⟩ := (Option.any_eq_true _ _).mp (by simpa using hne)
      have := hcons.status
      simp only [Bool.and_eq_true, beq_iff_eq] at hcond
      rw [he, map_some, hcond.2] at this
      exact happlying (executionOf_applying this.symm)
    simp only [hexec, Bool.false_eq_true, if_false, beq_eq_false_iff_ne.mpr happlying, Bool.and_false]
    exact .same y

theorem requireRecovery_moves {ledger : Ledger} (hinv : LedgerInvariant codec accepted ledger)
    {executionId proposalId : Uuid} (howns : Owns ledger proposalId executionId) :
    Moves codec accepted ledger (requireRecovery ledger executionId proposalId) :=
  leaveApplying_moves hinv howns _ _ (.inl rfl) fun _ => ⟨rfl, rfl, rfl, rfl⟩

theorem failExecution_moves {ledger : Ledger} (hinv : LedgerInvariant codec accepted ledger)
    {executionId proposalId : Uuid} (howns : Owns ledger proposalId executionId) (recoveryRequired : Bool)
    (now : Time) : Moves codec accepted ledger (failExecution ledger executionId proposalId recoveryRequired now) := by
  refine leaveApplying_moves hinv howns _ _ ?_ fun _ => ⟨?_, rfl, rfl, rfl⟩
  · cases recoveryRequired <;> simp
  · cases recoveryRequired <;> rfl

/-- The identities of the executions stay where no entry is claimed. -/
theorem Moves.invariant_of_executions (hm : Moves codec accepted ledger ledger')
    (h : LedgerInvariant codec accepted ledger)
    (hexec : ledger'.map (fun x => (x.proposal.id, x.execution.map (·.id))) =
      ledger.map fun x => (x.proposal.id, x.execution.map (·.id))) :
    LedgerInvariant codec accepted ledger' := by
  refine hm.invariant_of_keep h fun x' hx' e' he' => ?_
  have hmem : (x'.proposal.id, x'.execution.map (·.id)) ∈
      ledger.map fun x => (x.proposal.id, x.execution.map (·.id)) := by
    rw [← hexec]
    exact List.mem_map.mpr ⟨x', hx', rfl⟩
  obtain ⟨x, hx, heq⟩ := List.mem_map.mp hmem
  rw [he', map_some, Prod.mk.injEq] at heq
  obtain ⟨e, he, hid⟩ := map_eq_some_iff.mp heq.2
  exact ⟨x, hx, e, he, hid, heq.1⟩

theorem updateExecutions_ids (cond : ExecutionRow → Bool) (set : ExecutionRow → ExecutionRow)
    (hset : ∀ e, (set e).id = e.id) (ledger : Ledger) :
    (updateExecutions cond set ledger).map (fun x => (x.proposal.id, x.execution.map (·.id))) =
      ledger.map fun x => (x.proposal.id, x.execution.map (·.id)) := by
  refine Table.map_updateWhere _ (fun x => ?_) ledger
  cases hx : x.execution <;> simp [hset]

theorem updateProposals_ids (cond : ProposalRecord → Bool) (set : ProposalRecord → ProposalRecord)
    (hset : ∀ p, (set p).id = p.id) (ledger : Ledger) :
    (updateProposals cond set ledger).map (fun x => (x.proposal.id, x.execution.map (·.id))) =
      ledger.map fun x => (x.proposal.id, x.execution.map (·.id)) :=
  Table.map_updateWhere _ (fun x => by simp [hset]) ledger

theorem updateApprovals_ids (cond : ApprovalRecord → Bool) (set : ApprovalRecord → ApprovalRecord)
    (ledger : Ledger) :
    (updateApprovals cond set ledger).map (fun x => (x.proposal.id, x.execution.map (·.id))) =
      ledger.map fun x => (x.proposal.id, x.execution.map (·.id)) := by
  simp [updateApprovals, Table.updateWhere, apply_ite]

theorem leaveApplying_ids (ledger : Ledger) (executionId proposalId : Uuid)
    (set : ExecutionRow → ExecutionRow) (status : ProposalStatus) (hset : ∀ e, (set e).id = e.id) :
    (leaveApplying ledger executionId proposalId set status).map
        (fun x => (x.proposal.id, x.execution.map (·.id))) =
      ledger.map fun x => (x.proposal.id, x.execution.map (·.id)) := by
  rw [leaveApplying, updateProposals_ids, updateExecutions_ids _ _ hset]
  exact fun _ => rfl

/-! ## Committing a result -/

/-- Where the proposal may still be applied, its execution is committed and no other entry is touched. -/
theorem committed_moves {ledger : Ledger} {execution : ExecutionRow} {result : JsString}
    (now : Time) (hinv : LedgerInvariant codec accepted ledger) (hxmem : x ∈ ledger)
    (hexec : x.execution = some execution)
    (hlive : x.proposal.status = .applying ∨ x.proposal.status = .recoveryRequired)
    (hhash : ∀ hash, x.proposal.resultCanonicalSha256 = some hash → codec.sha256 result = hash) :
    Moves codec accepted ledger (updateProposals
      (fun row => row.id == x.proposal.id && row.inputHash == x.proposal.inputHash &&
        (row.status == .applying || row.status == .recoveryRequired))
      (fun row => { row with status := .applied, appliedAt := some now, applyResult := some result })
      (updateExecutions
        (fun row => row.id == execution.id && row.inputHash == x.proposal.inputHash &&
          (row.status == .applying || row.status == .recoveryRequired))
        (fun row => { row with
          status := .committed
          completedAt := some now
          result := some result
          error := none }) ledger)) := by
  have hcons := hinv.consistent x hxmem
  refine ⟨_, updateWhere_comp _ _ _ _ _, fun y hy => ?_⟩
  by_cases hid : y.proposal.id = x.proposal.id
  · have hsame := hinv.same hy hxmem hid
    subst hsame
    have hproposal : (y.proposal.id == y.proposal.id &&
        y.proposal.inputHash == y.proposal.inputHash &&
        (y.proposal.status == .applying || y.proposal.status == .recoveryRequired)) = true := by
      simpa using hlive
    have hexecution : (y.execution.any fun row => row.id == execution.id &&
        row.inputHash == y.proposal.inputHash &&
        (row.status == .applying || row.status == .recoveryRequired)) = true := by
      have hs := hcons.status
      rw [hexec, map_some] at hs
      rw [hexec, any_some, (hcons.claim execution hexec).2]
      rcases hlive with hl | hl <;> rw [hl] at hs <;> simp only [executionOf, Option.some.injEq] at hs <;>
        simp [hs]
    simp only [hexecution, if_true, hproposal]
    rw [hexec, map_some]
    exact .committed result now hexec hlive hhash
  · have hexecution : (y.execution.any fun row => row.id == execution.id &&
        row.inputHash == x.proposal.inputHash &&
        (row.status == .applying || row.status == .recoveryRequired)) = false := by
      by_contra hne
      obtain ⟨f, hf, hcond⟩ := (Option.any_eq_true _ _).mp (by simpa using hne)
      simp only [Bool.and_eq_true, beq_iff_eq] at hcond
      exact hid (by rw [hinv.executionIds y hy x hxmem f execution hf hexec hcond.1.1])
    simp only [hexecution, Bool.false_eq_true, if_false, beq_eq_false_iff_ne.mpr hid, Bool.false_and]
    exact .same y

theorem commitResult_moves {proposalId executionId : Uuid} {rawResult : Value} {now : Time}
    (hinv : LedgerInvariant codec accepted ledger)
    (h : commitResult codec ledger proposalId executionId rawResult now = .ok ledger') :
    Moves codec accepted ledger ledger' ∧ LedgerInvariant codec accepted ledger' := by
  unfold commitResult at h
  split at h
  · cases h
  rename_i proposal execution hfound
  obtain ⟨x, hx, hpair⟩ := bind_eq_some_iff.mp hfound
  obtain ⟨e, he, heq⟩ := map_eq_some_iff.mp hpair
  obtain ⟨hexec, -⟩ := filter_eq_some_iff.mp he
  cases heq
  obtain ⟨hxmem, hxid⟩ := find_some hx
  split at h
  · split at h
    · cases h
      exact ⟨.refl _, hinv⟩
    · cases h
  split at h
  · cases h
  split at h
  · cases h
  rename_i hstatus
  split at h
  · cases h
  rename_i result hresult
  split at h
  · cases h
  rename_i hhash
  dsimp only at h
  split at h
  · cases h
  cases h
  have hlive : x.proposal.status = .applying ∨ x.proposal.status = .recoveryRequired := by
    simp only [Bool.and_eq_true, bne_iff_ne, ne_eq, not_and, not_not] at hstatus
    by_cases happ : x.proposal.status = .applying
    · exact .inl happ
    · exact .inr (hstatus happ)
  have hhash' : ∀ hash, x.proposal.resultCanonicalSha256 = some hash →
      codec.sha256 result = hash := by
    intro hash hh
    simpa [hh] using hhash
  have hmoves := committed_moves now hinv hxmem hexec hlive hhash'
  refine ⟨hmoves, hmoves.invariant_of_executions hinv ?_⟩
  rw [updateProposals_ids _ _ (by simp), updateExecutions_ids _ _ (by simp)]

/-! ## Recovery sweep -/

/-- Several transactions, or rounds of a loop, one after the other. -/
def Evolves (codec : Codec Value) (accepted : List Accepted) : Ledger → Ledger → Prop :=
  Relation.ReflTransGen (Moves codec accepted)

theorem recoverExecution_moves {row : ExecutionRow} (hinv : LedgerInvariant codec accepted ledger)
    (howns : Owns ledger row.proposalId row.id) (h : recoverExecution ledger row = .ok ledger') :
    Moves codec accepted ledger ledger' ∧ LedgerInvariant codec accepted ledger' := by
  unfold recoverExecution at h
  dsimp only at h
  split at h
  · cases h
    exact ⟨.refl _, hinv⟩
  · split at h
    · cases h
    · cases h
      have hmoves := leaveApplying_moves hinv howns
        (fun other => { other with status := .recoveryRequired }) .recoveryRequired (.inl rfl)
        fun _ => ⟨rfl, rfl, rfl, rfl⟩
      exact ⟨hmoves, hmoves.invariant_of_executions hinv (leaveApplying_ids _ _ _ _ _ fun _ => rfl)⟩

theorem foldlM_recoverExecution {rows : List ExecutionRow} (hinv : LedgerInvariant codec accepted ledger)
    (howns : ∀ row ∈ rows, Owns ledger row.proposalId row.id) (h : rows.foldlM recoverExecution ledger = .ok ledger') :
    Evolves codec accepted ledger ledger' ∧ LedgerInvariant codec accepted ledger' := by
  induction rows generalizing ledger with
  | nil =>
    cases h
    exact ⟨.refl, hinv⟩
  | cons row rows ih =>
    rw [foldlM_cons] at h
    cases hrow : recoverExecution ledger row with
    | error failure => simp [hrow, bind, Except.bind] at h
    | ok middle =>
      simp only [hrow, bind, Except.bind] at h
      obtain ⟨hm, hinv'⟩ := recoverExecution_moves hinv (howns row (by simp)) hrow
      obtain ⟨he, hinv''⟩ := ih hinv'
        (fun r hr => (howns r (mem_cons_of_mem _ hr)).moves hm) h
      exact ⟨.head hm he, hinv''⟩

theorem recoverProposalExecutions_evolves {now : Time} {batchSize : Nat} (hinv : LedgerInvariant codec accepted ledger)
    (h : recoverProposalExecutions ledger now batchSize = .ok ledger') : Evolves codec accepted ledger ledger' ∧
    LedgerInvariant codec accepted ledger' := by
  refine foldlM_recoverExecution hinv (fun row hrow => ?_) h
  have hsorted := mem_of_mem_take hrow
  rw [mem_insertionSort] at hsorted
  obtain ⟨x, hx, hexec⟩ := mem_filterMap.mp (mem_filter.mp hsorted).1
  refine ⟨x, row, hinv.find_iff.mpr ⟨hx, ?_⟩, hexec, rfl⟩
  exact ((hinv.consistent x hx).claim row hexec).1.symm

/-! ## Persisting -/

theorem persistProposal_ok {draft : ProposalDraft Value} {resumed : Bool} {now : Time}
    (h : persistProposal codec ledger draft resumed proposalId approvalId now = .ok ledger') :
    ledger' = ledger ∨ ∃ input operation, find ledger proposalId = none ∧
      ledger' = ledger ++ [draftEntry codec draft input operation proposalId approvalId now] := by
  simp only [persistProposal, bind, Except.bind] at h
  split at h
  · cases h
  split at h
  · cases h
  split at h
  · cases h
    exact .inl rfl
  split at h
  · rename_i input operation _ _
    split at h
    · cases h
    split at h
    · cases h
      exact .inl rfl
    split at h
    · cases h
    rename_i hfresh
    split at h
    · cases h
    cases h
    exact .inr ⟨input, operation, by simpa using hfresh, rfl⟩
  · cases h

theorem draftEntry_consistent (draft : ProposalDraft Value) (input operation : JsString) (proposalId approvalId : Uuid)
    (now : Time) : Consistent codec accepted (draftEntry codec draft input operation proposalId approvalId now) := by
  have hstatus : (draftEntry codec draft input operation proposalId approvalId now).proposal.status = .pending := rfl
  have hexecution : (draftEntry codec draft input operation proposalId approvalId now).execution = none := rfl
  refine ⟨rfl, ?_, ?_, ?_, ?_⟩
  · intro e he
    rw [hexecution] at he
    cases he
  · rw [hexecution, hstatus]
    rfl
  · intro hcleared
    rw [hstatus] at hcleared
    simp [Cleared, executionOf] at hcleared
  · intro happlied
    rw [hstatus] at happlied
    cases happlied

theorem persist_invariant {ledger : Ledger} (hinv : LedgerInvariant codec accepted ledger) {draft : ProposalDraft Value}
    {input operation : JsString} {now : Time} (hfresh : find ledger proposalId = none) :
    LedgerInvariant codec accepted (ledger ++ [draftEntry codec draft input operation proposalId approvalId now]) := by
  have hmem : ∀ x ∈ ledger ++ [draftEntry codec draft input operation proposalId approvalId now],
      ∀ e, x.execution = some e → x ∈ ledger := by
    intro x hx e he
    rcases mem_append.mp hx with hx | hx
    · exact hx
    · rw [mem_singleton.mp hx] at he
      cases he
  refine ⟨?_, ?_, ?_⟩
  · rw [map_append]
    refine nodup_append.mpr ⟨hinv.ids, by simp, ?_⟩
    rintro a ha b hb rfl
    have hid : a = proposalId := mem_singleton.mp hb
    obtain ⟨x, hx, hxid⟩ := List.mem_map.mp ha
    rw [hinv.find_iff.mpr ⟨hx, hxid.trans hid⟩] at hfresh
    cases hfresh
  · exact forall_mem_append.mpr ⟨hinv.consistent, forall_mem_singleton.mpr (draftEntry_consistent _ _ _ _ _ _)⟩
  · intro x hx y hy e f he hf heq
    exact hinv.executionIds x (hmem x hx e he) y (hmem y hy f hf) e f he hf heq

end TsEpistle.Proposals
