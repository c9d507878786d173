import TsEpistle.Jobs.Interleaving

/-! # Lease safety of durable jobs

Lease tokens are issued once and leave a row for good. A worker whose token is no
longer in the row changes nothing, so each claim is settled at most once. -/

namespace TsEpistle.Jobs
open Library List

/-! ## The invariant -/

def Idle (row : DurableJobRow) : Prop :=
  row.leaseOwner = none ∧ row.leaseToken = none ∧ row.leaseExpiresAt = none

structure LeaseInvariant (s : System) : Prop where
  ids : (s.rows.map DurableJobRow.id).Nodup
  idle : ∀ row ∈ s.rows, row.state ≠ .running → Idle row
  issued_nonempty : ∀ t ∈ s.issued, t ≠ []
  token_issued : ∀ row ∈ s.rows, ∀ t, row.leaseToken = some t → t ∈ s.issued
  fetching_issued : ∀ call ∈ s.calls, ∀ candidate t, call.fetching = some (candidate, t) → t ∈ s.issued
  held_issued : ∀ call ∈ s.calls, ∀ job ∈ call.claimed, ∃ t, job.leaseToken = some t ∧ t ∈ s.issued
  settled_issued : ∀ id t, Event.settled id t ∈ s.log → t ∈ s.issued
  settled_gone : ∀ id t, Event.settled id t ∈ s.log → ∀ row, s.job id = some row → row.leaseToken ≠ some t
  settled_once : ∀ id t, s.log.count (.settled id t) ≤ 1

variable {s : System}

theorem mem_of_job {id : Uuid} {row : DurableJobRow} (h : s.job id = some row) : row ∈ s.rows ∧ row.id = id :=
  Table.get_mem DurableJobRow.id h

variable {op : Op}

theorem issued_exec {t : Uuid} (h : t ∈ s.issued) : t ∈ (durableJobs.exec op s).issued := mem_append_right _ h

variable {row row' : DurableJobRow}

/-- A change puts a new token into the row, keeps its token, or clears the token. -/
theorem RowChange.token (h : RowChange s op row row') : op.issues = row'.leaseToken ∧ row'.state = .running ∨
    row'.leaseToken = row.leaseToken ∧ row'.state = .running ∨ row'.leaseToken = none := by
  cases h with
  | claimed => exact .inl ⟨rfl, rfl⟩
  | extended hheld =>
    exact .inr (.inl ⟨rfl, ((heldWhere_iff _ _ _).mp hheld).2.2.2.2.2.1⟩)
  | exhausted | completed | failed | cancelled | retried => exact .inr (.inr rfl)

theorem RowChange.idle (h : RowChange s op row row') (hidle : row.state ≠ .running → Idle row)
    (hstate : row'.state ≠ .running) : Idle row' := by
  cases h with
  | claimed => exact absurd rfl hstate
  | extended hheld => exact absurd ((heldWhere_iff _ _ _).mp hheld).2.2.2.2.2.1 hstate
  | exhausted | completed | failed | cancelled => exact ⟨rfl, rfl, rfl⟩
  | retried hid hfailed =>
    -- `retry` clears the token only; the other lease columns of a failed row are null already
    have hrow := hidle (by simp [hfailed])
    exact ⟨hrow.1, rfl, hrow.2.2⟩

/-- A recorded settlement clears the token it names. -/
theorem RowChange.settles {id t : Uuid} (h : RowChange s op row row') (he : entry row op = some (.settled id t))
    (hheld : ∀ j, op.holder = some j → j.leaseToken ≠ none) : row.id = id ∧ row.leaseToken = some t ∧
    row'.leaseToken = none := by
  have htoken : ∀ {job : DurableJob} {now}, heldWhere job now row = true →
      job.leaseToken ≠ none → row.leaseToken = some (job.leaseToken.getD []) := by
    intro job now hw hne
    rw [((heldWhere_iff _ _ _).mp hw).2.2.2.2.1]
    cases hj : job.leaseToken with
    | none => exact absurd hj hne
    | some t => rfl
  cases h with
  | exhausted | claimed | extended | cancelled | retried => cases he
  | completed hw =>
    cases he
    exact ⟨rfl, htoken hw (hheld _ rfl), rfl⟩
  | failed hw =>
    cases he
    exact ⟨rfl, htoken hw (hheld _ rfl), rfl⟩

theorem LeaseInvariant.held_token (hs : LeaseInvariant s) {job : DurableJob} (hjob : job ∈ s.held) :
    ∃ t, job.leaseToken = some t ∧ t ∈ s.issued := by
  obtain ⟨call, hcall, hmem⟩ := mem_flatMap.mp hjob
  exact hs.held_issued call hcall job hmem

theorem fetchClaimed_token {input : ClaimDurableJobs} {candidate : Candidate} {t : Uuid} {rows : List DurableJobRow}
    {job : DurableJob} (h : fetchClaimed input candidate t rows = some job) : job.leaseToken = some t := by
  obtain ⟨row, hfind, rfl⟩ := Option.map_eq_some_iff.mp h
  have := find?_some hfind
  simp only [Bool.and_eq_true, beq_iff_eq] at this
  exact this.2

/-! ## Preservation -/

theorem LeaseInvariant.empty : LeaseInvariant .empty := by
  constructor <;> simp [System.empty]

/-- A token that was issued and is not in the row never comes back. -/
theorem token_never_returns {id t : Uuid} (hop : durableJobs.enabled op s) (ht : t ∈ s.issued)
    (h : ∀ row, s.job id = some row → row.leaseToken ≠ some t) :
    ∀ row, (durableJobs.exec op s).job id = some row → row.leaseToken ≠ some t := by
  intro row' hrow'
  rcases job_exec_inv hrow' with ⟨row, hrow, rfl | hch⟩ | ⟨-, input, now, -, -, rfl⟩
  · exact h _ hrow
  · rcases hch.token with ⟨hissue, -⟩ | ⟨hkeep, -⟩ | hnone
    · rintro heq
      exact (hop.1 t (hissue.trans heq)).1 ht
    · rw [hkeep]
      exact h row hrow
    · simp [hnone]
  · simp [enqueueRow]

theorem settled_exec {id t : Uuid} (hs : LeaseInvariant s) (hop : durableJobs.enabled op s)
    (h : Event.settled id t ∈ (durableJobs.exec op s).log) :
    t ∈ s.issued ∧
      (Event.settled id t ∈ s.log ∧
          (durableJobs.exec op s).log.count (.settled id t) = s.log.count (.settled id t) ∨
        Event.settled id t ∉ s.log ∧ (durableJobs.exec op s).log.count (.settled id t) = 1) ∧
      ∀ row, (durableJobs.exec op s).job id = some row → row.leaseToken ≠ some t := by
  have hold : Event.settled id t ∈ s.log →
      (∀ row, (durableJobs.exec op s).job id = some row → row.leaseToken ≠ some t) := fun hmem =>
    token_never_returns hop (hs.settled_issued id t hmem) (hs.settled_gone id t hmem)
  rcases log_exec op hs.ids with hlog | ⟨e, row, hlog, hrow, hentry⟩
  · rw [hlog] at h ⊢
    exact ⟨hs.settled_issued id t h, .inl ⟨h, rfl⟩, hold h⟩
  · by_cases he : e = .settled id t
    · subst he
      obtain ⟨row', hrow', ⟨-, hlog' | ⟨e', he', hlog'⟩⟩ | ⟨hch, -⟩⟩ := job_step op hs.ids hrow
      · rw [hlog] at hlog'
        simp at hlog'
      · rw [hlog] at hlog'
        rw [(List.cons.inj hlog').1] at he'
        exact absurd rfl he'
      · have hheld : ∀ j, op.holder = some j → j.leaseToken ≠ none := by
          intro j hj
          obtain ⟨t', ht', -⟩ := hs.held_token (hop.2 j hj)
          simp [ht']
        obtain ⟨hid, htok, hnone⟩ := hch.settles hentry hheld
        have hmem := mem_of_job hrow
        have hnot : Event.settled id t ∉ s.log := fun hin =>
          hs.settled_gone id t hin row hrow htok
        refine ⟨hs.token_issued row hmem.1 t htok, .inr ⟨hnot, ?_⟩, ?_⟩
        · rw [hlog, count_cons_self, count_eq_zero.mpr hnot]
        · intro r hr
          rw [show (Event.settled id t).job = id from rfl] at hrow'
          rw [hrow'] at hr
          cases hr
          simp [hnone]
    · have hmem : Event.settled id t ∈ s.log := by
        rw [hlog] at h
        exact (mem_cons.mp h).resolve_left fun heq => he heq.symm
      refine ⟨hs.settled_issued id t hmem, .inl ⟨hmem, ?_⟩, hold hmem⟩
      rw [hlog, count_cons_of_ne he]

theorem LeaseInvariant.step (op : Op) (s : System) (hop : durableJobs.enabled op s)
    (hs : LeaseInvariant s) : LeaseInvariant (durableJobs.exec op s) := by
  refine ⟨ids_nodup_exec hs.ids, ?_, ?_, ?_, ?_, ?_, ?_, ?_, ?_⟩
  · exact forall_rows_exec hs.idle (fun _ _ _ _ _ _ _ => ⟨rfl, rfl, rfl⟩)
      fun row row' _ hch hidle => hch.idle hidle
  · intro t ht
    rcases mem_append.mp ht with ht | ht
    · exact (hop.1 t (Option.mem_toList.mp ht)).2
    · exact hs.issued_nonempty t ht
  · refine forall_rows_exec (fun row hrow t ht => issued_exec (hs.token_issued row hrow t ht))
      (fun _ _ _ _ _ _ t ht => by cases ht) ?_
    intro row row' hrow hch _ t ht
    rcases hch.token with ⟨hissue, -⟩ | ⟨hkeep, -⟩ | hnone
    · show t ∈ op.issues.toList ++ s.issued
      simp [hissue, ht]
    · exact issued_exec (hs.token_issued row hrow t (hkeep ▸ ht))
    · simp [hnone] at ht
  · refine forall_calls_exec (fun call hcall c t ht => issued_exec (hs.fetching_issued call hcall c t ht))
      (fun _ _ c t ht => by cases ht) (fun _ _ c t ht => by cases ht) ?_ ?_
    · rintro i leaseToken call candidate rest rfl hcall - - - c t ht
      simp only at ht
      split at ht
      · cases ht
        exact mem_append_left _ (by simp [Op.issues])
      · cases ht
    · intro call candidate leaseToken hcall hfetching _ c t ht
      cases ht
  · refine forall_calls_exec
      (fun call hcall job hjob => ?_) (fun _ _ job hjob => by cases hjob)
      (fun _ _ job hjob => by cases hjob) ?_ ?_
    · obtain ⟨t, ht, hi⟩ := hs.held_issued call hcall job hjob
      exact ⟨t, ht, issued_exec hi⟩
    · intro i leaseToken call candidate rest _ hcall _ _ hI
      exact hI
    · intro call candidate leaseToken hcall hfetching hI job hjob
      rcases mem_append.mp hjob with hjob | hjob
      · exact hI job hjob
      · exact ⟨leaseToken, fetchClaimed_token (by simpa using hjob),
          issued_exec (hs.fetching_issued call hcall candidate leaseToken hfetching)⟩
  · intro id t h
    exact issued_exec (settled_exec hs hop h).1
  · intro id t h
    exact (settled_exec hs hop h).2.2
  · intro id t
    by_cases h : Event.settled id t ∈ (durableJobs.exec op s).log
    · rcases (settled_exec hs hop h).2.1 with ⟨-, hcount⟩ | ⟨-, hcount⟩
      · rw [hcount]
        exact hs.settled_once id t
      · exact Nat.le_of_eq hcount
    · rw [count_eq_zero.mpr h]
      exact Nat.zero_le 1

theorem LeaseInvariant.of_reachable (h : Reachable s) : LeaseInvariant s := h.invariant .empty LeaseInvariant.step

/-! ## Consequences -/

/-- A worker without the token of the row changes no row. -/
theorem rows_of_lost_lease {job : DurableJob} (hop : op.holder = some job) (hids : (s.rows.map DurableJobRow.id).Nodup)
    (hlost : ∀ row, s.job job.id = some row → row.leaseToken ≠ job.leaseToken) :
    (durableJobs.exec op s).rows = s.rows := by
  have hcond : ∀ now, ∀ row ∈ s.rows, heldWhere job now row = false := by
    intro now row hrow
    by_contra hheld
    obtain ⟨hid, -, -, -, htok, -⟩ := (heldWhere_iff _ _ _).mp (by simpa using hheld)
    exact hlost row ((Table.get_eq_some_iff DurableJobRow.id hids).mpr ⟨hrow, hid⟩) htok
  have happly : ∀ u : Option Update, (∀ v, u = some v → ∃ now, v.cond = heldWhere job now) →
      (u.elim Effect.none Effect.update).apply s.rows = s.rows := by
    intro u hu
    cases u with
    | none => rfl
    | some v =>
      obtain ⟨now, hv⟩ := hu v rfl
      exact Table.updateWhere_eq_self (by rw [hv]; exact hcond now)
  show (effect s op).apply s.rows = s.rows
  cases op <;> simp only [Op.holder, reduceCtorEq, Option.some.injEq] at hop <;> subst hop
  · refine happly _ fun v hv => ?_
    simp only [extendLease] at hv
    split at hv <;> cases hv
    exact ⟨_, rfl⟩
  · refine happly _ fun v hv => ?_
    simp only [complete] at hv
    split at hv <;> cases hv
    exact ⟨_, rfl⟩
  · refine happly _ fun v hv => ?_
    simp only [fail] at hv
    split at hv
    · cases hv
    · obtain ⟨_, -, rfl⟩ := Option.map_eq_some_iff.mp hv
      exact ⟨_, rfl⟩

theorem token_never_returns_run {s s' : System} {id t : Uuid} (hs : LeaseInvariant s)
    (hrun : durableJobs.Reachable s s') (ht : t ∈ s.issued) (h : ∀ row, s.job id = some row → row.leaseToken ≠ some t) :
    ∀ row, s'.job id = some row → row.leaseToken ≠ some t := by
  refine (hrun.invariant_under (I := LeaseInvariant)
    (J := fun s => t ∈ s.issued ∧ ∀ row, s.job id = some row → row.leaseToken ≠ some t)
    hs LeaseInvariant.step ⟨ht, h⟩ ?_).2
  intro op s hop hs hJ
  exact ⟨issued_exec hJ.1, token_never_returns hop hJ.1 hJ.2⟩

/-- Only `retry` leaves `failed`; nothing leaves `succeeded` and `cancelled`. -/
theorem RowChange.leaves (h : RowChange s op row row') :
    row.state ≠ .succeeded ∧ row.state ≠ .cancelled ∧ (row.state = .failed → ∃ now, op = .retry row.id now) := by
  have hrunning : row.state = .running → row.state ≠ .succeeded ∧ row.state ≠ .cancelled ∧
      (row.state = .failed → ∃ now, op = .retry row.id now) := by
    intro hrun
    simp [hrun]
  cases h with
  | exhausted hrun => exact hrunning hrun
  | claimed _ _ _ helig =>
    simp only [eligible, Bool.and_eq_true, Bool.or_eq_true, beq_iff_eq] at helig
    rcases helig.2 with hpend | ⟨hrun, -⟩
    · simp [hpend]
    · exact hrunning hrun
  | extended hheld => exact hrunning ((heldWhere_iff _ _ _).mp hheld).2.2.2.2.2.1
  | completed hheld => exact hrunning ((heldWhere_iff _ _ _).mp hheld).2.2.2.2.2.1
  | failed hheld => exact hrunning ((heldWhere_iff _ _ _).mp hheld).2.2.2.2.2.1
  | cancelled _ hstate =>
    rcases hstate with hpend | hrun
    · simp [hpend]
    · exact hrunning hrun
  | retried hid hfailed => simp [hfailed, hid]

theorem final_exec {id : Uuid} {row : DurableJobRow} (h : s.job id = some row)
    (hfinal : row.state = .succeeded ∨ row.state = .cancelled) : (durableJobs.exec op s).job id = some row := by
  obtain ⟨row', hrow', rfl | hch⟩ := job_exec op h
  · exact hrow'
  · rcases hfinal with hsucc | hcanc
    · exact absurd hsucc hch.leaves.1
    · exact absurd hcanc hch.leaves.2.1

/-- **Lease safety.** In every reachable state: a claim is settled at most once; a
worker whose token has left the row changes nothing, now or after any further
operations; a row that is not running holds no lease; succeeded and cancelled are
final; only `retry` leaves failed. -/
theorem lease_safety {s : System} (hs : Reachable s) :
    (∀ id t, s.log.count (.settled id t) ≤ 1) ∧
    (∀ job ∈ s.held, (∀ row, s.job job.id = some row → row.leaseToken ≠ job.leaseToken) →
      ∀ s', durableJobs.Reachable s s' → ∀ op, op.holder = some job → (durableJobs.exec op s').rows = s'.rows) ∧
    (∀ row ∈ s.rows, row.state ≠ .running → row.leaseOwner = none ∧ row.leaseToken = none ∧ row.leaseExpiresAt = none) ∧
    (∀ id row, s.job id = some row → row.state = .succeeded ∨ row.state = .cancelled →
      ∀ s', durableJobs.Reachable s s' → s'.job id = some row) ∧
    (∀ id row, s.job id = some row → row.state = .failed →
      ∀ op row', durableJobs.enabled op s → (durableJobs.exec op s).job id = some row' →
        row'.state ≠ .failed → ∃ now, op = .retry id now) := by
  have hinv := LeaseInvariant.of_reachable hs
  refine ⟨hinv.settled_once, ?_, hinv.idle, ?_, ?_⟩
  · intro job hjob hlost s' hrun op hop
    obtain ⟨t, ht, hissued⟩ := hinv.held_token hjob
    have hinv' : LeaseInvariant s' := hrun.invariant hinv LeaseInvariant.step
    refine rows_of_lost_lease hop hinv'.ids ?_
    rw [ht] at hlost ⊢
    exact token_never_returns_run hinv hrun hissued hlost
  · intro id row hrow hfinal s' hrun
    exact hrun.invariant (I := fun s => s.job id = some row) hrow
      fun op s _ h => final_exec h hfinal
  · intro id row hrow hfailed op row' _ hrow' hleft
    obtain ⟨row'', hrow'', rfl | hch⟩ := job_exec op hrow
    · rw [hrow'] at hrow''
      cases hrow''
      exact absurd hfailed hleft
    · obtain ⟨now, hop⟩ := hch.leaves.2.2 hfailed
      exact ⟨now, by rw [hop, (mem_of_job hrow).2]⟩

theorem lease_safety_example :
    (durableJobs.after exampleSettled .empty).rows.map (fun row => row.state) = [.succeeded] ∧
      (∀ id t, (durableJobs.after exampleSettled .empty).log.count (.settled id t) ≤ 1) ∧
      (∀ job ∈ (durableJobs.after exampleSettled .empty).held, ∀ now,
        (durableJobs.exec (.complete job now) (durableJobs.after exampleSettled .empty)).rows =
          (durableJobs.after exampleSettled .empty).rows) ∧
      ∀ row ∈ (durableJobs.after exampleSettled .empty).rows,
        ∀ s', durableJobs.Reachable (durableJobs.after exampleSettled .empty) s' → s'.job row.id = some row := by
  have hs : Reachable (durableJobs.after exampleSettled .empty) := ⟨_, by decide, rfl⟩
  obtain ⟨honce, hlost, -, hfinal, -⟩ := lease_safety hs
  refine ⟨by decide, honce, fun job hjob now => ?_, fun row hrow s' hrun => ?_⟩
  · have h : ∀ job ∈ (durableJobs.after exampleSettled .empty).held,
        ∀ row ∈ (durableJobs.after exampleSettled .empty).rows, row.leaseToken ≠ job.leaseToken := by
      decide
    exact hlost job hjob (fun row hrow => h job hjob row (mem_of_job hrow).1) _ (.refl _) _ rfl
  · have h : ∀ row ∈ (durableJobs.after exampleSettled .empty).rows, row.state = .succeeded ∧
        (durableJobs.after exampleSettled .empty).job row.id = some row := by
      decide
    exact hfinal _ row (h row hrow).2 (.inl (h row hrow).1) s' hrun

end TsEpistle.Jobs
