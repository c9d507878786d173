import TsEpistle.Jobs.LeaseSafety

/-! # Attempt accounting of durable jobs

`attempts` counts the claims since the last retry of a job and stays within
`maxAttempts`; for retained storage mutations it is capped instead, and refunded by
a contention deferral from the value the candidate had. The ledger that ties the
refund to the row runs through the four statements of a claim. -/

namespace TsEpistle.Jobs
open Library List Option

/-! ## Counting claims -/

def isClaimOf (id : Uuid) : Event → Bool
  | .claimed id' _ _ => id' == id
  | _ => false

/-- The claims of a job in a stretch of the record. -/
def handovers (id : Uuid) (log : List Event) : Nat := log.countP (isClaimOf id)

/-- The record is newest first, so this is the part after the last retry. -/
def sinceRetry (id : Uuid) (log : List Event) : List Event := log.takeWhile (· ≠ .retried id)

theorem handovers_cons (id : Uuid) (e : Event) (log : List Event) :
    handovers id (e :: log) = handovers id log + if isClaimOf id e then 1 else 0 := by
  simp [handovers, countP_cons]

theorem handovers_prefix_le {id : Uuid} {seg log : List Event} (h : seg <+: log) (hretry : Event.retried id ∉ seg) :
    handovers id seg ≤ handovers id (sinceRetry id log) := by
  induction seg generalizing log with
  | nil => simp [handovers]
  | cons e seg ih =>
    obtain ⟨rest, rfl⟩ := h
    have hne : e ≠ .retried id := fun heq => hretry (by simp [heq])
    have htail := ih (prefix_append seg rest) (fun hin => hretry (by simp [hin]))
    rw [cons_append, sinceRetry, takeWhile_cons]
    simp only [ne_eq, hne, not_false_eq_true, decide_true, if_true]
    rw [handovers_cons, handovers_cons]
    exact Nat.add_le_add_right htail _

theorem handovers_eq_zero {id : Uuid} {log : List Event} (h : ∀ e ∈ log, e.job ≠ id) : handovers id log = 0 := by
  refine countP_eq_zero.mpr fun e he hclaim => ?_
  cases e with
  | claimed id' t before => exact h _ he (by simpa [isClaimOf, Event.job] using hclaim)
  | settled | retried => simp [isClaimOf] at hclaim

theorem handovers_other {id : Uuid} {e : Event} (log : List Event) (h : e.job ≠ id) :
    handovers id (sinceRetry id (e :: log)) = handovers id (sinceRetry id log) := by
  have hne : e ≠ .retried id := by rintro rfl; exact h rfl
  have hclaim : isClaimOf id e = false := by
    cases e with
    | claimed id' t before => simpa [isClaimOf, Event.job] using h
    | settled | retried => rfl
  rw [sinceRetry, takeWhile_cons]
  simp only [ne_eq, hne, not_false_eq_true, decide_true, if_true]
  rw [handovers_cons, hclaim]
  simp [sinceRetry]

/-! ## The account of one row -/

/-- `attempts` after a claim that found `before`. -/
def afterClaim (row : DurableJobRow) (before : Int) : Int :=
  if row.retained && before ≥ row.maxAttempts then row.maxAttempts else before + 1

structure Account (log : List Event) (clocks : List Time) (row : DurableJobRow) : Prop where
  nonneg : 0 ≤ row.attempts
  bounded : row.attempts ≤ row.maxAttempts
  counted : row.retained = false → (handovers row.id (sinceRetry row.id log) : Int) = row.attempts
  stretches : row.retained = false → ∀ seg, seg <:+: log → Event.retried row.id ∉ seg →
    (handovers row.id seg : Int) ≤ row.maxAttempts
  started : row.state = .running → ∃ t ∈ clocks, row.nextRunAt ≤ t
  expires : row.state = .running → ∃ e, row.leaseExpiresAt = some e
  leased : ∀ t, row.leaseToken = some t → ∃ before, Event.claimed row.id t before ∈ log ∧
    0 ≤ before ∧ before ≤ row.maxAttempts ∧ row.attempts = afterClaim row before

variable {row : DurableJobRow}

/-- A stretch of the longer record is one of the shorter record or is counted. -/
theorem stretches_of {log log' : List Event} (hlog : log' = log ∨ ∃ e, log' = e :: log)
    (hcount : (handovers row.id (sinceRetry row.id log') : Int) = row.attempts)
    (hbound : row.attempts ≤ row.maxAttempts)
    (h : ∀ seg, seg <:+: log → Event.retried row.id ∉ seg → (handovers row.id seg : Int) ≤ row.maxAttempts) :
    ∀ seg, seg <:+: log' → Event.retried row.id ∉ seg → (handovers row.id seg : Int) ≤ row.maxAttempts := by
  intro seg hseg hretry
  rcases hlog with rfl | ⟨e, rfl⟩
  · exact h seg hseg hretry
  · rcases infix_cons_iff.mp hseg with hpre | hin
    · have := handovers_prefix_le hpre hretry
      omega
    · exact h seg hin hretry

theorem Account.keep {log log' : List Event} {clocks clocks' : List Time}
    (h : Account log clocks row) (hclocks : clocks ⊆ clocks')
    (hlog : log' = log ∨ ∃ e, e.job ≠ row.id ∧ log' = e :: log) : Account log' clocks' row := by
  have hsub : ∀ e, e ∈ log → e ∈ log' := by
    rcases hlog with rfl | ⟨e, -, rfl⟩
    · exact fun _ he => he
    · exact fun _ he => mem_cons_of_mem _ he
  have hcount : handovers row.id (sinceRetry row.id log') =
      handovers row.id (sinceRetry row.id log) := by
    rcases hlog with rfl | ⟨e, he, rfl⟩
    · rfl
    · exact handovers_other log he
  refine ⟨h.nonneg, h.bounded, ?_, ?_, ?_, h.expires, ?_⟩
  · intro hret
    rw [hcount]
    exact h.counted hret
  · intro hret
    refine stretches_of (hlog.imp_right fun ⟨e, _, he⟩ => ⟨e, he⟩) ?_ h.bounded (h.stretches hret)
    rw [hcount]
    exact h.counted hret
  · intro hrun
    obtain ⟨t, ht, hle⟩ := h.started hrun
    exact ⟨t, hclocks ht, hle⟩
  · intro t ht
    obtain ⟨before, hmem, hrest⟩ := h.leased t ht
    exact ⟨before, hsub _ hmem, hrest⟩

theorem Account.fresh {log : List Event} {clocks : List Time} {input : EnqueueDurableJob}
    {id : Uuid} {now : Time} (hlog : ∀ e ∈ log, e.job ≠ id) (hpos : 1 ≤ input.maxAttempts.getD 5) :
    Account log clocks (enqueueRow input id now) := by
  have hzero : ∀ seg, seg <:+: log → handovers id seg = 0 := fun seg hseg =>
    handovers_eq_zero fun e he => hlog e (hseg.subset he)
  refine ⟨le_rfl, ?_, ?_, ?_, ?_, ?_, ?_⟩
  · show 0 ≤ input.maxAttempts.getD 5
    omega
  · intro _
    show (handovers id (sinceRetry id log) : Int) = 0
    rw [hzero (sinceRetry id log) (List.takeWhile_prefix _).isInfix]
    rfl
  · intro _ seg hseg _
    show (handovers id seg : Int) ≤ input.maxAttempts.getD 5
    rw [hzero seg hseg]
    omega
  · intro hrun; cases hrun
  · intro hrun; cases hrun
  · intro t ht; cases ht

/-! ## What calls and held jobs remember -/

/-- The table has a row for the candidate, of its type and version. -/
def Known (s : System) (candidate : Candidate) : Prop :=
  ∃ row, s.job candidate.id = some row ∧ row.type = candidate.type ∧ row.version = candidate.version

variable {s : System} {candidate : Candidate}

theorem Known.retained (h : Known s candidate) (hrow : s.job candidate.id = some row) :
    row.retained = isRetainedStorageMutation candidate.type candidate.version := by
  obtain ⟨row', hrow', htype, hversion⟩ := h
  rw [hrow] at hrow'
  cases hrow'
  rw [DurableJobRow.retained, htype, hversion]

theorem Known.exec (op : Op) (h : Known s candidate) : Known (durableJobs.exec op s) candidate := by
  obtain ⟨row, hrow, htype, hversion⟩ := h
  obtain ⟨row', hrow', rfl | hch⟩ := job_exec op hrow
  · exact ⟨row', hrow', htype, hversion⟩
  · exact ⟨row', hrow', hch.keeps.2.1.trans htype, hch.keeps.2.2.1.trans hversion⟩

structure CallAccount (s : System) (call : ClaimCall) : Prop where
  now : call.input.now ∈ s.clocks
  candidates : ∀ cs, call.candidates = some cs → ∀ c ∈ cs, Known s c
  fetching : ∀ c t, call.fetching = some (c, t) → Known s c ∧
    ∃ before, Event.claimed c.id t before ∈ s.log ∧
      (isRetainedStorageMutation c.type c.version = true → before = c.attempts)
  claimed : ∀ job ∈ call.claimed, ∃ t before, job.leaseToken = some t ∧
    Event.claimed job.id t before ∈ s.log ∧ job.attempts = afterClaim job.toDurableJobRow before ∧
    before ≤ job.maxAttempts ∧ 0 ≤ before ∧
    (job.retained = true → job.attemptsBeforeClaim = some before)
  claimed_known : ∀ job ∈ call.claimed, Known s (candidateOf job.toDurableJobRow)

structure AttemptInvariant (s : System) : Prop where
  known : ∀ e ∈ s.log, ∃ row, s.job e.job = some row
  account : ∀ id row, s.job id = some row → Account s.log s.clocks row
  claimed_issued : ∀ id t before, Event.claimed id t before ∈ s.log → t ∈ s.issued
  claimed_once : ∀ id t before before', Event.claimed id t before ∈ s.log →
    Event.claimed id t before' ∈ s.log → before = before'
  calls : ∀ call ∈ s.calls, CallAccount s call

theorem AttemptInvariant.empty : AttemptInvariant .empty := by
  constructor <;> simp [System.empty, System.job, Table.get]

theorem log_subset (op : Op) : s.log ⊆ (durableJobs.exec op s).log := fun _ h => mem_append_right _ h

theorem clocks_subset (op : Op) : s.clocks ⊆ (durableJobs.exec op s).clocks := fun _ h => mem_append_right _ h

theorem ClaimCall.next_some {call : ClaimCall} {rest : List Candidate}
    (h : call.next = some (candidate, rest)) : call.candidates = some (candidate :: rest) := by
  unfold ClaimCall.next at h
  split at h
  · rename_i c cs _ hcs
    split at h
    · cases h
    · cases h
      exact hcs
  · cases h

/-! ## A change keeps the account -/

/-- What the fence of a settling or renewing operation says about the row. -/
theorem Account.of_cleared {log log' : List Event} {clocks clocks' : List Time}
    {row row' : DurableJobRow} (h : Account log clocks row)
    (hlog : log' = log ∨ ∃ e, log' = e :: log)
    (hcount : row.retained = false →
      handovers row.id (sinceRetry row.id log') = handovers row.id (sinceRetry row.id log))
    (hid : row'.id = row.id) (hret : row'.retained = row.retained)
    (hmax : row'.maxAttempts = row.maxAttempts)
    (hatt : row'.attempts = row.attempts ∨ row.retained = true ∧ 0 ≤ row'.attempts ∧ row'.attempts ≤ row.maxAttempts)
    (hstate : row'.state ≠ .running) (htoken : row'.leaseToken = none) :
    Account log' clocks' row' := by
  have hcounted : row'.retained = false →
      (handovers row'.id (sinceRetry row'.id log') : Int) = row'.attempts := by
    intro hf
    rw [hret] at hf
    rw [hid, hcount hf, h.counted hf]
    rcases hatt with heq | ⟨ht, -⟩
    · exact heq.symm
    · rw [hf] at ht
      cases ht
  have hbounds : 0 ≤ row'.attempts ∧ row'.attempts ≤ row'.maxAttempts := by
    rw [hmax]
    rcases hatt with heq | ⟨-, hb⟩
    · rw [heq]
      exact ⟨h.nonneg, h.bounded⟩
    · exact hb
  refine ⟨hbounds.1, hbounds.2, hcounted, ?_, fun hrun => absurd hrun hstate,
    fun hrun => absurd hrun hstate, by simp [htoken]⟩
  intro hf
  refine stretches_of hlog (hcounted hf) hbounds.2 ?_
  rw [hid, hmax]
  exact h.stretches (by rw [← hret]; exact hf)

theorem Account.claimed {log : List Event} {clocks clocks' : List Time} (h : Account log clocks row)
    (input : ClaimDurableJobs) (candidate : Candidate) (t : Uuid) (helig : eligible input.now row = true)
    (hnow : input.now ∈ clocks') :
    Account (.claimed row.id t row.attempts :: log) clocks' ((claimUpdate input candidate t).set row) := by
  have hle : row.nextRunAt ≤ input.now ∧ (row.attempts < row.maxAttempts ∨ row.retained = true) := by
    simp only [eligible, Bool.and_eq_true, decide_eq_true_eq, Bool.or_eq_true] at helig
    exact helig.1
  have hclaim : (claimUpdate input candidate t).set row =
      { row with
        state := .running
        leaseOwner := some input.workerId
        leaseToken := some t
        leaseExpiresAt := some (input.now + claimLeaseMs input)
        attempts := afterClaim row row.attempts
        updatedAt := input.now } := rfl
  have hbounds : 0 ≤ afterClaim row row.attempts ∧ afterClaim row row.attempts ≤ row.maxAttempts := by
    have hn := h.nonneg
    have hb := h.bounded
    unfold afterClaim
    split
    · omega
    · rename_i hcap
      simp only [Bool.and_eq_true, decide_eq_true_eq, not_and, not_le] at hcap
      rcases hle.2 with hlt | hret
      · omega
      · have := hcap hret
        omega
  have hcounted : row.retained = false →
      (handovers row.id (sinceRetry row.id (.claimed row.id t row.attempts :: log)) : Int) =
        afterClaim row row.attempts := by
    intro hf
    have hstep : afterClaim row row.attempts = row.attempts + 1 := by simp [afterClaim, hf]
    rw [sinceRetry, takeWhile_cons]
    simp only [ne_eq, reduceCtorEq, not_false_eq_true, decide_true, if_true]
    rw [handovers_cons, hstep, ← h.counted hf]
    simp [isClaimOf, sinceRetry]
  rw [hclaim]
  refine ⟨hbounds.1, hbounds.2, hcounted, ?_, fun _ => ⟨input.now, hnow, hle.1⟩, fun _ => ⟨_, rfl⟩, ?_⟩
  · intro hf
    exact stretches_of (.inr ⟨_, rfl⟩) (hcounted hf) hbounds.2 (h.stretches hf)
  · intro t' ht'
    cases ht'
    exact ⟨row.attempts, by simp, h.nonneg, h.bounded, rfl⟩

theorem failAttempts_cases (job : DurableJob) (error : JobError) (attempts : Int) :
    failAttempts job error attempts = attempts ∨ job.retained = true ∧ error.deferral = some true ∧
    failAttempts job error attempts = max 0 (min job.attempts (job.attemptsBeforeClaim.getD (job.attempts - 1))) := by
  unfold failAttempts deferred contended
  split
  · rename_i h
    simp only [Bool.and_eq_true, beq_iff_eq] at h
    exact .inr ⟨h.1.1, h.2, rfl⟩
  · exact .inl rfl

variable {job : DurableJob}

/-- The refund of a contention deferral is what the claim found. -/
theorem refund_eq {before : Int} (hret : job.retained = true)
    (hatt : job.attempts = afterClaim job.toDurableJobRow before) (hmax : before ≤ job.maxAttempts)
    (hnonneg : 0 ≤ before) (hbefore : job.attemptsBeforeClaim = some before) :
    max 0 (min job.attempts (job.attemptsBeforeClaim.getD (job.attempts - 1))) = before := by
  rw [hbefore, getD_some, hatt]
  unfold afterClaim
  split
  · omega
  · rename_i hcap
    simp only [Bool.and_eq_true, decide_eq_true_eq, not_and, not_le] at hcap
    have := hcap hret
    omega

theorem Account.change {op : Op} {row row' : DurableJobRow} (hs : AttemptInvariant s) (hop : durableJobs.enabled op s)
    (hch : RowChange s op row row') (hlog : (durableJobs.exec op s).log = (entry row op).toList ++ s.log)
    (h : Account s.log s.clocks row) : Account (durableJobs.exec op s).log (durableJobs.exec op s).clocks row' := by
  rw [hlog]
  cases hch with
  | exhausted hrun =>
    exact h.of_cleared (.inl rfl) (fun _ => rfl) rfl rfl rfl (.inl rfl) (by simp [exhaustUpdate])
      rfl
  | claimed hcall hnext hid helig hfence =>
    have hmem := mem_of_getElem? hcall
    exact h.claimed _ _ _ helig (clocks_subset _ (hs.calls _ hmem).now)
  | extended hheld =>
    obtain ⟨-, -, -, -, -, hrun, -⟩ := (heldWhere_iff _ _ _).mp hheld
    refine ⟨h.nonneg, h.bounded, h.counted, h.stretches, ?_, fun _ => ⟨_, rfl⟩, h.leased⟩
    intro _
    obtain ⟨t, ht, hle⟩ := h.started hrun
    exact ⟨t, clocks_subset _ ht, hle⟩
  | completed hheld =>
    exact h.of_cleared (.inr ⟨_, rfl⟩) (fun _ => by simp [sinceRetry, entry, handovers, isClaimOf])
      rfl rfl rfl (.inl rfl) (by simp) rfl
  | @failed job error retryDelay nextRunAt now _ hheld hterm =>
    obtain ⟨hid, htype, hversion, -, htok, -⟩ := (heldWhere_iff _ _ _).mp hheld
    refine h.of_cleared (.inr ⟨_, rfl⟩)
      (fun _ => by simp [sinceRetry, entry, handovers, isClaimOf]) rfl rfl rfl ?_ ?_ rfl
    · rcases failAttempts_cases job error row.attempts with heq | ⟨hret, -, heq⟩
      · exact .inl heq
      · obtain ⟨call, hcall, hjob⟩ := mem_flatMap.mp (hop.2 job rfl)
        obtain ⟨t, before, ht, hclaimed, hatt, hmax, hnonneg, hbefore⟩ := (hs.calls call hcall).claimed job hjob
        obtain ⟨before', hclaimed', hnn', hmax', -⟩ := h.leased t (htok.trans ht)
        rw [hid] at hclaimed'
        have hsame := hs.claimed_once _ _ _ _ hclaimed hclaimed'
        refine .inr ⟨?_, ?_⟩
        · rw [DurableJobRow.retained, htype, hversion]
          exact hret
        · show 0 ≤ failAttempts job error row.attempts ∧
            failAttempts job error row.attempts ≤ row.maxAttempts
          rw [heq, refund_eq hret hatt hmax hnonneg (hbefore hret), hsame]
          exact ⟨hnn', hmax'⟩
    · show (if terminal job error then DurableJobState.failed else .pending) ≠ .running
      split <;> simp
  | cancelled =>
    exact h.of_cleared (.inl rfl) (fun _ => rfl) rfl rfl rfl (.inl rfl) (by simp [cancel]) rfl
  | retried hid hfailed =>
    have hcounted : (handovers row.id (sinceRetry row.id (.retried row.id :: s.log)) : Int) = 0 := by
      simp [sinceRetry, handovers]
    have hmax : (0 : Int) ≤ row.maxAttempts := h.nonneg.trans h.bounded
    refine ⟨le_rfl, hmax, fun _ => hcounted, ?_, ?_, ?_, by simp [retry]⟩
    · intro hf
      exact stretches_of (.inr ⟨_, rfl⟩) hcounted hmax (h.stretches hf)
    · intro hrun; cases hrun
    · intro hrun; cases hrun

/-! ## Preservation -/

theorem CallAccount.exec {call : ClaimCall} (op : Op) (h : CallAccount s call) :
    CallAccount (durableJobs.exec op s) call := by
  refine ⟨clocks_subset op h.now, ?_, ?_, ?_, fun job hjob => (h.claimed_known job hjob).exec op⟩
  · intro cs hcs c hc
    exact (h.candidates cs hcs c hc).exec op
  · intro c t hct
    obtain ⟨hknown, before, hmem, hrest⟩ := h.fetching c t hct
    exact ⟨hknown.exec op, before, log_subset op hmem, hrest⟩
  · intro job hjob
    obtain ⟨t, before, ht, hmem, hrest⟩ := h.claimed job hjob
    exact ⟨t, before, ht, log_subset op hmem, hrest⟩

/-- A claim update that replaced its row is recorded with the value it found, which
for a retained job is the value the candidate had. -/
theorem claim_recorded (hids : (s.rows.map DurableJobRow.id).Nodup) {i : Nat} {t : Uuid} {call : ClaimCall}
    {rest : List Candidate} (hcall : s.calls[i]? = some call) (hnext : call.next = some (candidate, rest))
    (hsucc : (effect s (.claimNext i t)).succeeds s.rows = true) : ∃ before,
    Event.claimed candidate.id t before ∈ (durableJobs.exec (.claimNext i t) s).log ∧
    (isRetainedStorageMutation candidate.type candidate.version = true → before = candidate.attempts) := by
  have heff : effect s (.claimNext i t) = .update (claimUpdate call.input candidate t) := by
    simp [effect, hcall, hnext]
  have hpos : 0 < s.rows.countP (claimUpdate call.input candidate t).cond := by
    rw [heff] at hsucc
    simp only [Effect.succeeds, Table.updated, beq_iff_eq] at hsucc
    omega
  obtain ⟨row, hrow, hcond⟩ := countP_pos_iff.mp hpos
  have hlog := log_of_cond hids heff hrow hcond
  have hch := rowChange_of_effect heff hcond
  generalize (claimUpdate call.input candidate t).set row = row' at hch
  cases hch with
  | claimed hcall' hnext' hid helig hfence =>
    rw [hcall] at hcall'
    cases hcall'
    rw [hnext] at hnext'
    cases hnext'
    refine ⟨row.attempts, ?_, hfence⟩
    rw [hlog, ← hid]
    simp [entry]

/-- A handed-out job carries the numbers of its claim. -/
theorem fetched_account (hs : LeaseInvariant s) (ha : AttemptInvariant s) {call : ClaimCall} {t : Uuid}
    (hcall : CallAccount s call) (hfetching : call.fetching = some (candidate, t))
    (hjob : fetchClaimed call.input candidate t s.rows = some job) : ∃ t before, job.leaseToken = some t ∧
    Event.claimed job.id t before ∈ s.log ∧ job.attempts = afterClaim job.toDurableJobRow before ∧
    before ≤ job.maxAttempts ∧ 0 ≤ before ∧ (job.retained = true → job.attemptsBeforeClaim = some before) := by
  obtain ⟨hknown, before, hclaimed, hfence⟩ := hcall.fetching candidate t hfetching
  obtain ⟨row, hfind, rfl⟩ := map_eq_some_iff.mp hjob
  have hcond := find?_some hfind
  simp only [Bool.and_eq_true, beq_iff_eq] at hcond
  obtain ⟨⟨hid, -⟩, htok⟩ := hcond
  have hrow : s.job candidate.id = some row :=
    (Table.get_eq_some_iff DurableJobRow.id hs.ids).mpr ⟨mem_of_find?_eq_some hfind, hid⟩
  obtain ⟨before', hclaimed', hnonneg, hmax, hatt⟩ := (ha.account _ row hrow).leased t htok
  have hsame : before = before' := ha.claimed_once _ _ _ _ hclaimed (hid ▸ hclaimed')
  refine ⟨t, before', htok, hclaimed', hatt, hmax, hnonneg, ?_⟩
  intro hret
  have hret' : row.retained = true := hret
  rw [← hsame, hfence (by rw [← hknown.retained hrow]; exact hret')]
  simp [hret']

variable {input : ClaimDurableJobs}

theorem known_of_selected (hs : LeaseInvariant s) (h : candidate ∈ selectCandidates input s.rows) :
    Known s candidate := by
  obtain ⟨row, hrow, rfl⟩ := List.mem_map.mp h
  have hsorted := mem_of_mem_take hrow
  rw [mem_insertionSort] at hsorted
  exact ⟨row, (Table.get_eq_some_iff DurableJobRow.id hs.ids).mpr ⟨mem_of_mem_filter hsorted, rfl⟩, rfl, rfl⟩

theorem fetched_known (hs : LeaseInvariant s) {t : Uuid} (h : fetchClaimed input candidate t s.rows = some job) :
    Known s (candidateOf job.toDurableJobRow) := by
  obtain ⟨row, hfind, rfl⟩ := map_eq_some_iff.mp h
  exact ⟨row, (Table.get_eq_some_iff DurableJobRow.id hs.ids).mpr ⟨mem_of_find?_eq_some hfind, rfl⟩, rfl, rfl⟩

theorem calls_step (op : Op) (hs : LeaseInvariant s) (ha : AttemptInvariant s) :
    ∀ call ∈ (durableJobs.exec op s).calls, CallAccount (durableJobs.exec op s) call := by
  refine forall_calls_exec (fun call hcall => (ha.calls call hcall).exec op) ?_ ?_ ?_ ?_
  · rintro input rfl
    exact ⟨mem_append_left _ (by simp [Op.now]), by simp, by simp, by simp, by simp⟩
  · intro input hI
    refine ⟨hI.now, ?_, by simp, by simp, by simp⟩
    intro cs hcs c hc
    rw [← Option.some.inj hcs] at hc
    exact (known_of_selected hs hc).exec op
  · rintro i t call candidate rest rfl hcall hget hnext hI
    have hcs := ClaimCall.next_some hnext
    refine ⟨hI.now, ?_, ?_, hI.claimed, hI.claimed_known⟩
    · intro cs hcs' c hc
      rw [← Option.some.inj hcs'] at hc
      exact hI.candidates _ hcs c (mem_cons_of_mem _ hc)
    · intro c t' hct
      by_cases hsucc : (effect s (.claimNext i t)).succeeds s.rows = true
      · rw [if_pos hsucc] at hct
        cases hct
        exact ⟨hI.candidates _ hcs candidate (by simp), claim_recorded hs.ids hget hnext hsucc⟩
      · rw [if_neg hsucc] at hct
        cases hct
  · intro call candidate t hcall hfetching hI
    refine ⟨hI.now, hI.candidates, by simp, ?_, ?_⟩
    · intro job hjob
      rcases mem_append.mp hjob with hjob | hjob
      · exact hI.claimed job hjob
      · obtain ⟨t', before, ht, hmem, hrest⟩ :=
          fetched_account hs ha (ha.calls call hcall) hfetching (by simpa using hjob)
        exact ⟨t', before, ht, log_subset op hmem, hrest⟩
    · intro job hjob
      rcases mem_append.mp hjob with hjob | hjob
      · exact hI.claimed_known job hjob
      · exact (fetched_known hs (by simpa using hjob)).exec op

theorem AttemptInvariant.step (op : Op) (s : System) (hop : durableJobs.enabled op s) (hs : LeaseInvariant s)
    (ha : AttemptInvariant s) : AttemptInvariant (durableJobs.exec op s) := by
  have hlog := log_exec op hs.ids
  have hclaim : ∀ id t before, Event.claimed id t before ∈ (durableJobs.exec op s).log →
      Event.claimed id t before ∈ s.log ∨
        op.issues = some t ∧ (durableJobs.exec op s).log = .claimed id t before :: s.log := by
    intro id t before hmem
    rcases hlog with heq | ⟨e, row, heq, -, hentry⟩
    · exact .inl (heq ▸ hmem)
    · rw [heq] at hmem ⊢
      rcases mem_cons.mp hmem with rfl | hin
      · refine .inr ⟨?_, rfl⟩
        cases op <;> simp only [entry, reduceCtorEq, Option.some.injEq, Event.claimed.injEq] at hentry
        exact congrArg some hentry.2.1
      · exact .inl hin
  refine ⟨?_, ?_, ?_, ?_, ?_⟩
  · intro e he
    have hold : ∃ row, s.job e.job = some row := by
      rcases hlog with heq | ⟨e', row, heq, hrow, -⟩
      · exact ha.known e (heq ▸ he)
      · rw [heq] at he
        rcases mem_cons.mp he with rfl | hin
        · exact ⟨row, hrow⟩
        · exact ha.known e hin
    obtain ⟨row, hrow⟩ := hold
    obtain ⟨row', hrow', -⟩ := job_exec op hrow
    exact ⟨row', hrow'⟩
  · refine forall_jobs_exec hs.ids ha.account ?_ ?_ ?_
    · rintro input id now rfl hnone hpos
      refine Account.fresh (fun e he => ?_) hpos
      have hsame : (durableJobs.exec (.enqueue input id now) s).log = s.log := by
        rcases hlog with heq | ⟨e', row, -, -, hentry⟩
        · exact heq
        · cases hentry
      rintro heid
      obtain ⟨row, hrow⟩ := ha.known e (hsame ▸ he)
      rw [heid, hnone] at hrow
      cases hrow
    · intro row _ hacc hcase
      exact hacc.keep (clocks_subset op) hcase
    · intro row row' _ hch hrec hacc
      exact hacc.change ha hop hch hrec
  · intro id t before hmem
    rcases hclaim id t before hmem with hin | ⟨hissue, -⟩
    · exact issued_exec (ha.claimed_issued id t before hin)
    · show t ∈ op.issues.toList ++ s.issued
      simp [hissue]
  · intro id t before before' hmem hmem'
    rcases hclaim id t before hmem with hin | ⟨hissue, heq⟩
    · rcases hclaim id t before' hmem' with hin' | ⟨hissue, -⟩
      · exact ha.claimed_once id t before before' hin hin'
      · exact absurd (ha.claimed_issued id t before hin) (hop.1 t hissue).1
    · rw [heq] at hmem'
      rcases mem_cons.mp hmem' with hsame | hin'
      · cases hsame
        rfl
      · exact absurd (ha.claimed_issued id t before' hin') (hop.1 t hissue).1
  · exact calls_step op hs ha

theorem AttemptInvariant.of_reachable (h : Reachable s) : AttemptInvariant s :=
  h.invariant_under .empty LeaseInvariant.step .empty fun op s hop hs ha =>
    AttemptInvariant.step op s hop hs ha

/-! ## Claimability -/

/-- The claim update for a candidate read from `row` takes `row`. -/
def Claimable (input : ClaimDurableJobs) (row : DurableJobRow) : Prop :=
  ∀ leaseToken, (claimUpdate input (candidateOf row) leaseToken).cond row = true

theorem claimable_iff (input : ClaimDurableJobs) (row : DurableJobRow) :
    Claimable input row ↔ eligible input.now row = true ∧ supportedBy (claimSupported input) row = true := by
  simp [Claimable, claimUpdate, candidateOf]

/-- A pending or running row that may still be attempted is claimable for good from
some time on. -/
theorem claimable_eventually (hstate : row.state = .pending ∨ row.state = .running)
    (hattempt : row.attempts < row.maxAttempts ∨ row.retained = true) (hnext : row.nextRunAt ≤ input.now)
    (hexpires : row.state = .running → ∃ e, row.leaseExpiresAt = some e ∧ e ≤ input.now)
    (hsup : supportedBy (claimSupported input) row = true) : Claimable input row := by
  rw [claimable_iff]
  refine ⟨?_, hsup⟩
  simp only [eligible, Bool.and_eq_true, decide_eq_true_eq, Bool.or_eq_true, beq_iff_eq]
  refine ⟨⟨hnext, hattempt⟩, hstate.imp_right fun hrun => ⟨hrun, ?_⟩⟩
  obtain ⟨e, he, hle⟩ := hexpires hrun
  simp [leaseExpired, he, hle]

/-- A running job past its lease is failed by the first statement of a later claim
that supports it, or left as it was and claimable. -/
theorem expired_claimable (ha : AttemptInvariant s) {id : Uuid} (hrow : s.job id = some row)
    (hret : row.retained = false) (hrun : row.state = .running) (hvalid : validateClaim input = .ok ())
    (hsup : supportedBy (claimSupported input) row = true) (hexp : ∀ e, row.leaseExpiresAt = some e → e ≤ input.now)
    (hlater : ∀ t ∈ s.clocks, t ≤ input.now) : ∃ row', (durableJobs.exec (.beginClaim input) s).job id = some row' ∧
    (row'.state = .failed ∨ row' = row ∧ Claimable input row) := by
  have hacc := ha.account id row hrow
  obtain ⟨e, he⟩ := hacc.expires hrun
  obtain ⟨t, ht, hle⟩ := hacc.started hrun
  have hnext := hle.trans (hlater t ht)
  have heff : effect s (.beginClaim input) = .update (exhaustUpdate input) := by
    simp [effect, hvalid]
  have hjob : (durableJobs.exec (.beginClaim input) s).job id =
      some (if (exhaustUpdate input).cond row then (exhaustUpdate input).set row else row) := by
    show Table.get DurableJobRow.id ((effect s (.beginClaim input)).apply s.rows) id = _
    rw [heff, Effect.apply, Table.get_updateWhere DurableJobRow.id (update_keeps_id heff),
      show Table.get _ s.rows id = some row from hrow, map_some]
  refine ⟨_, hjob, ?_⟩
  by_cases hatt : row.attempts < row.maxAttempts
  · have hcond : (exhaustUpdate input).cond row = false := by
      simp [exhaustUpdate, hatt]
    rw [hcond]
    exact .inr ⟨rfl, claimable_eventually (.inr hrun) (.inl hatt) hnext (fun _ => ⟨e, he, hexp e he⟩) hsup⟩
  · have hcond : (exhaustUpdate input).cond row = true := by
      simp [exhaustUpdate, hrun, hret, hsup, leaseExpired, he, hexp e he, not_lt.mp hatt]
    rw [hcond]
    exact .inl rfl

theorem held_noLeaseToken (hs : LeaseInvariant s) (hjob : job ∈ s.held) : noLeaseToken job = false := by
  obtain ⟨t, ht, hissued⟩ := hs.held_token hjob
  simp [noLeaseToken, ht, hs.issued_nonempty t hissued]

theorem deferred_not_terminal {error : JobError} (hret : job.retained = true)
    (hdef : error.deferral.isSome = true) : terminal job error = false := by
  simp [terminal, deferred, hret, hdef]

/-- The statement of a retained job whose handler deferred. -/
theorem fail_deferred (hs : LeaseInvariant s) (hjob : job ∈ s.held) (hret : job.retained = true)
    {error : JobError} (hdef : error.deferral.isSome = true) (retryDelay : Int → Option Int)
    (now : Time) :
    ∃ nextRunAt, effect s (.fail job error retryDelay now) =
      .update { cond := heldWhere job now, set := failRow job error nextRunAt now } := by
  have hd : deferred job error = true := by simp [deferred, hret, hdef]
  simp only [effect, fail, held_noLeaseToken hs hjob, deferred_not_terminal hret hdef,
    boundedDelay, hd, Bool.false_eq_true, if_false, if_true, map_some, elim_some]
  exact ⟨_, rfl⟩

/-- The row of a retained job after its handler deferred. -/
theorem job_fail_deferred (hs : LeaseInvariant s) (hjob : job ∈ s.held) (hret : job.retained = true)
    {error : JobError} (hdef : error.deferral.isSome = true) (retryDelay : Int → Option Int)
    (now : Time) (hrow : s.job job.id = some row) :
    ∃ nextRunAt, (durableJobs.exec (.fail job error retryDelay now) s).job job.id =
      some (if heldWhere job now row then failRow job error nextRunAt now row else row) := by
  obtain ⟨nextRunAt, heff⟩ := fail_deferred hs hjob hret hdef retryDelay now
  refine ⟨nextRunAt, ?_⟩
  show Table.get DurableJobRow.id ((effect s (.fail job error retryDelay now)).apply s.rows)
    job.id = _
  rw [heff, Effect.apply, Table.get_updateWhere DurableJobRow.id (update_keeps_id heff),
    show Table.get _ s.rows job.id = some row from hrow, map_some]

theorem AttemptInvariant.held (ha : AttemptInvariant s) (hjob : job ∈ s.held) : ∃ t before, job.leaseToken = some t ∧
    Event.claimed job.id t before ∈ s.log ∧ job.attempts = afterClaim job.toDurableJobRow before ∧
    before ≤ job.maxAttempts ∧ 0 ≤ before ∧ (job.retained = true → job.attemptsBeforeClaim = some before) := by
  obtain ⟨call, hcall, hmem⟩ := mem_flatMap.mp hjob
  exact (ha.calls call hcall).claimed job hmem

/-- A retained job that is pending or running is claimable from some time on. -/
theorem retained_claimable {log : List Event} {clocks : List Time} (h : Account log clocks row)
    (hret : row.retained = true) (hstate : row.state = .pending ∨ row.state = .running) :
    ∃ T, ∀ input, T ≤ input.now → supportedBy (claimSupported input) row = true → Claimable input row := by
  refine ⟨max row.nextRunAt (row.leaseExpiresAt.getD 0), fun input hT hsup => ?_⟩
  have hnext : row.nextRunAt ≤ input.now := (le_max_left _ _).trans hT
  refine claimable_eventually hstate (.inr hret) hnext (fun hrun => ?_) hsup
  obtain ⟨e, he⟩ := h.expires hrun
  have hexp : e ≤ input.now := by
    have := (le_max_right row.nextRunAt (row.leaseExpiresAt.getD 0)).trans hT
    rwa [he] at this
  exact ⟨e, he, hexp⟩

/-- A contention deferral that settles its claim restores what the claim found. -/
theorem contention_restores (hs : LeaseInvariant s) (ha : AttemptInvariant s) (hjob : job ∈ s.held)
    (hret : job.retained = true) {error : JobError} (hcont : error.deferral = some true) (retryDelay : Int → Option Int)
    (now : Time) (hrow : s.job job.id = some row) (hheld : heldWhere job now row = true) : ∃ t before,
    job.leaseToken = some t ∧ Event.claimed job.id t before ∈ s.log ∧
    (∀ other, Event.claimed job.id t other ∈ s.log → other = before) ∧ ∃ row',
    (durableJobs.exec (.fail job error retryDelay now) s).job job.id = some row' ∧ row'.attempts = before := by
  obtain ⟨t, before, ht, hmem, hatt, hmax, hnonneg, hbefore⟩ := ha.held hjob
  have hdef : error.deferral.isSome = true := by simp [hcont]
  obtain ⟨nextRunAt, hjob'⟩ := job_fail_deferred hs hjob hret hdef retryDelay now hrow
  refine ⟨t, before, ht, hmem, fun other hother => ha.claimed_once _ _ _ _ hother hmem, _, hjob', ?_⟩
  have hcond : (deferred job error && contended error) = true := by
    simp [deferred, contended, hret, hcont]
  rw [if_pos hheld]
  show failAttempts job error row.attempts = before
  rw [failAttempts, if_pos hcond]
  exact refund_eq hret hatt hmax hnonneg (hbefore hret)

/-- **Attempt accounting.** In every reachable state: `attempts` is within bounds; a
job that is not a retained storage mutation is claimed at most `maxAttempts` times in
any stretch of the record without a retry of it, and past its lease it is failed by
or claimable for every later claim that supports it; a deferral never fails a retained
job and leaves it claimable from some time on; a contention deferral restores the
`attempts` that the claim found in the row. -/
theorem attempt_accounting {s : System} (hs : Reachable s) :
    (∀ row ∈ s.rows, 0 ≤ row.attempts ∧ row.attempts ≤ row.maxAttempts) ∧
    (∀ id row, s.job id = some row → row.retained = false →
      ∀ seg, seg <:+: s.log → Event.retried id ∉ seg → (handovers id seg : Int) ≤ row.maxAttempts) ∧
    (∀ id row, s.job id = some row → row.retained = false → row.state = .running →
      ∀ input, validateClaim input = .ok () → supportedBy (claimSupported input) row = true →
        (∀ e, row.leaseExpiresAt = some e → e ≤ input.now) → (∀ t ∈ s.clocks, t ≤ input.now) →
        ∃ row', (durableJobs.exec (.beginClaim input) s).job id = some row' ∧
          (row'.state = .failed ∨ row' = row ∧ Claimable input row)) ∧
    (∀ job ∈ s.held, job.retained = true → ∀ error, error.deferral.isSome = true →
      ∀ retryDelay now row, s.job job.id = some row →
        ∃ row', (durableJobs.exec (.fail job error retryDelay now) s).job job.id = some row' ∧
          (heldWhere job now row = true → row'.state = .pending) ∧
          (heldWhere job now row = false → row' = row) ∧
          (row'.state = .pending ∨ row'.state = .running →
            ∃ T, ∀ input, T ≤ input.now → supportedBy (claimSupported input) row' = true → Claimable input row')) ∧
    (∀ job ∈ s.held, job.retained = true → ∀ error, error.deferral = some true →
      ∀ retryDelay now row, s.job job.id = some row → heldWhere job now row = true →
        ∃ t before, job.leaseToken = some t ∧ Event.claimed job.id t before ∈ s.log ∧
          (∀ other, Event.claimed job.id t other ∈ s.log → other = before) ∧
          ∃ row', (durableJobs.exec (.fail job error retryDelay now) s).job job.id = some row' ∧
            row'.attempts = before) := by
  have hl := LeaseInvariant.of_reachable hs
  have ha := AttemptInvariant.of_reachable hs
  refine ⟨?_, ?_, ?_, ?_, ?_⟩
  · intro row hrow
    have hacc := ha.account row.id row
      ((Table.get_eq_some_iff DurableJobRow.id hl.ids).mpr ⟨hrow, rfl⟩)
    exact ⟨hacc.nonneg, hacc.bounded⟩
  · intro id row hrow hret seg hseg hretry
    have hid := (mem_of_job hrow).2
    subst hid
    exact (ha.account _ row hrow).stretches hret seg hseg hretry
  · intro id row hrow hret hrun input hvalid hsup hexp hlater
    exact expired_claimable ha hrow hret hrun hvalid hsup hexp hlater
  · intro job hjob hret error hdef retryDelay now row hrow
    have hop : durableJobs.enabled (.fail job error retryDelay now) s := by
      refine ⟨by simp [Op.issues], ?_⟩
      rintro j hj
      cases hj
      exact hjob
    obtain ⟨nextRunAt, hjob'⟩ := job_fail_deferred hl hjob hret hdef retryDelay now hrow
    refine ⟨_, hjob', ?_, ?_, ?_⟩
    · intro hheld
      simp [hheld, failRow, deferred_not_terminal hret hdef]
    · intro hlost
      simp [hlost]
    · refine retained_claimable
        ((AttemptInvariant.step _ s hop hl ha).account _ _ hjob') ?_
      obtain ⟨call, hcall, hmem⟩ := mem_flatMap.mp hjob
      have hrow' : row.retained = true := (((ha.calls call hcall).claimed_known job hmem).retained hrow).trans hret
      split
      · exact hrow'
      · exact hrow'
  · intro job hjob hret error hcont retryDelay now row hrow hheld
    exact contention_restores hl ha hjob hret hcont retryDelay now hrow hheld

theorem attempt_accounting_example :
    (∀ row ∈ (durableJobs.after exampleSettled .empty).rows,
        0 ≤ row.attempts ∧ row.attempts ≤ row.maxAttempts) ∧
      (durableJobs.after exampleRetained .empty).rows.map (fun row => (row.attempts, row.state)) = [(1, .running)] ∧
      ∀ job ∈ (durableJobs.after exampleRetained .empty).held, ∃ row',
        (durableJobs.exec (.fail job ⟨js "busy", some true⟩ (fun n => some (defaultRetryDelay n)) 11)
          (durableJobs.after exampleRetained .empty)).job job.id = some row' ∧ row'.attempts = 0 := by
  have hs : Reachable (durableJobs.after exampleRetained .empty) := ⟨_, by decide, rfl⟩
  refine ⟨(attempt_accounting ⟨exampleSettled, by decide, rfl⟩).1, by decide, fun job hjob => ?_⟩
  have h : ∀ job ∈ (durableJobs.after exampleRetained .empty).held, job.retained = true ∧
      job.leaseToken = some (js "token") ∧
      .claimed job.id (js "token") 0 ∈ (durableJobs.after exampleRetained .empty).log ∧
      ∃ row ∈ (durableJobs.after exampleRetained .empty).rows,
        (durableJobs.after exampleRetained .empty).job job.id = some row ∧ heldWhere job 11 row = true := by
    decide
  obtain ⟨hret, htoken, hlog, row, -, hrow, hheld⟩ := h job hjob
  obtain ⟨t, before, ht, hmem, huniq, row', hrow', hb⟩ := (attempt_accounting hs).2.2.2.2 job hjob hret
    ⟨js "busy", some true⟩ rfl (fun n => some (defaultRetryDelay n)) 11 row hrow hheld
  rw [htoken] at ht
  cases ht
  exact ⟨row', hrow', by rw [hb, huniq _ hlog]⟩

end TsEpistle.Jobs
