import TsEpistle.Library.Machine
import TsEpistle.Jobs.DurableJobs

/-! Any number of workers and callers on one table of durable jobs. `claim` runs
in its four statements, each on the table as it is then, with the answers of
earlier reads kept in the call; every other method is one statement. Nothing
orders the clock readings. `log`, `issued` and `clocks` record what happened and
are read by no statement. -/

namespace TsEpistle.Jobs
open Library List Option

/-- A running call of `claim`. `candidates` is `none` before the select, and
`fetching` holds the token of a claim update that replaced its row. -/
structure ClaimCall where
  input : ClaimDurableJobs
  candidates : Option (List Candidate)
  fetching : Option (Candidate × Uuid)
  claimed : List DurableJob
  deriving DecidableEq, Repr

/-- `claimed` keeps the `attempts` of the row before the claim. -/
inductive Event
  | claimed (id token : Uuid) (before : Int)
  | settled (id token : Uuid)
  | retried (id : Uuid)
  deriving DecidableEq, Repr

def Event.job : Event → Uuid
  | .claimed id _ _ => id
  | .settled id _ => id
  | .retried id => id

structure System where
  rows : List DurableJobRow
  calls : List ClaimCall
  log : List Event
  issued : List Uuid
  clocks : List Time
  deriving DecidableEq, Repr

inductive Op
  | enqueue (input : EnqueueDurableJob) (id : Uuid) (now : Time)
  | beginClaim (input : ClaimDurableJobs)
  | selectCandidates (call : Nat)
  | claimNext (call : Nat) (leaseToken : Uuid)
  | fetchClaimed (call : Nat)
  | extendLease (job : DurableJob) (leaseMs : Int) (now : Time)
  | complete (job : DurableJob) (now : Time)
  | fail (job : DurableJob) (error : JobError) (retryDelay : Int → Option Int) (now : Time)
  | cancel (id : Uuid) (now : Time)
  | retry (id : Uuid) (now : Time)

namespace System

def empty : System := ⟨[], [], [], [], []⟩

def job (s : System) (id : Uuid) : Option DurableJobRow := Table.get DurableJobRow.id s.rows id

/-- The jobs that claims have handed to their workers. -/
def held (s : System) : List DurableJob := s.calls.flatMap (·.claimed)

end System

/-- The candidate whose update is next in the loop of a call. -/
def ClaimCall.next (call : ClaimCall) : Option (Candidate × List Candidate) :=
  match call.fetching, call.candidates with
  | none, some (candidate :: rest) =>
    if (call.claimed.length : Int) ≥ claimLimit call.input then none
    else some (candidate, rest)
  | _, _ => none

inductive Effect
  | none
  | insert (rows : List DurableJobRow)
  | update (u : Update)

/-- What an operation does to the table. -/
def effect (s : System) : Op → Effect
  | .enqueue input id now =>
    match enqueue input id now s.rows with
    | .ok (rows, _) => .insert rows
    | .error _ => .none
  | .beginClaim input =>
    match validateClaim input with
    | .ok _ => .update (exhaustUpdate input)
    | .error _ => .none
  | .selectCandidates _ => .none
  | .claimNext i leaseToken =>
    match s.calls[i]? with
    | none => .none
    | some call =>
      match call.next with
      | none => .none
      | some (candidate, _) => .update (claimUpdate call.input candidate leaseToken)
  | .fetchClaimed _ => .none
  | .extendLease job leaseMs now => (extendLease job leaseMs now).elim .none .update
  | .complete job now => (complete job now).elim .none .update
  | .fail job error retryDelay now => (fail job error retryDelay now).elim .none .update
  | .cancel id now => .update (cancel id now)
  | .retry id now => .update (retry id now)

def Effect.apply (rows : List DurableJobRow) : Effect → List DurableJobRow
  | .none => rows
  | .insert rows' => rows'
  | .update u => Table.updateWhere u.cond u.set rows

/-- The row an operation replaces. -/
def Effect.row (rows : List DurableJobRow) : Effect → Option DurableJobRow
  | .update u => rows.find? u.cond
  | _ => Option.none

/-- The number of rows an operation replaces is one. -/
def Effect.succeeds (rows : List DurableJobRow) : Effect → Bool
  | .update u => Table.updated u.cond rows == 1
  | _ => false

def callsAfter (s : System) : Op → List ClaimCall
  | .beginClaim input =>
    match validateClaim input with
    | .ok _ => s.calls ++ [⟨input, none, none, []⟩]
    | .error _ => s.calls
  | .selectCandidates i =>
    match s.calls[i]? with
    | some ⟨input, none, none, []⟩ =>
      s.calls.set i ⟨input, some (selectCandidates input s.rows), none, []⟩
    | _ => s.calls
  | .claimNext i leaseToken =>
    match s.calls[i]? with
    | none => s.calls
    | some call =>
      match call.next with
      | none => s.calls
      | some (candidate, rest) =>
        s.calls.set i { call with
          candidates := some rest
          fetching := if (effect s (.claimNext i leaseToken)).succeeds s.rows then
            some (candidate, leaseToken) else none }
  | .fetchClaimed i =>
    match s.calls[i]? with
    | none => s.calls
    | some call =>
      match call.fetching with
      | none => s.calls
      | some (candidate, leaseToken) =>
        s.calls.set i { call with
          fetching := none
          claimed := call.claimed ++ (fetchClaimed call.input candidate leaseToken s.rows).toList }
  | _ => s.calls

/-- The entry of an operation that replaced `row`. -/
def entry (row : DurableJobRow) : Op → Option Event
  | .claimNext _ leaseToken => some (.claimed row.id leaseToken row.attempts)
  | .complete job _ => some (.settled row.id (job.leaseToken.getD []))
  | .fail job _ _ _ => some (.settled row.id (job.leaseToken.getD []))
  | .retry _ _ => some (.retried row.id)
  | _ => none

def logAfter (s : System) (op : Op) : List Event :=
  (((effect s op).row s.rows).bind fun row => entry row op).toList ++ s.log

def Op.now : Op → Option Time
  | .enqueue _ _ now => some now
  | .beginClaim input => some input.now
  | .extendLease _ _ now => some now
  | .complete _ now => some now
  | .fail _ _ _ now => some now
  | .cancel _ now => some now
  | .retry _ now => some now
  | _ => none

def Op.issues : Op → Option Uuid
  | .claimNext _ leaseToken => some leaseToken
  | _ => none

/-- The claim a settling or renewing operation acts for. -/
def Op.holder : Op → Option DurableJob
  | .extendLease job _ _ => some job
  | .complete job _ => some job
  | .fail job _ _ _ => some job
  | _ => none

/-- `randomUUID` answers a token it has not answered before, and workers act for
claims they were handed. -/
def durableJobs : Machine System Op where
  enabled op s := (∀ t, op.issues = some t → t ∉ s.issued ∧ t ≠ []) ∧ ∀ j, op.holder = some j → j ∈ s.held
  exec op s :=
    { rows := (effect s op).apply s.rows
      calls := callsAfter s op
      log := logAfter s op
      issued := op.issues.toList ++ s.issued
      clocks := op.now.toList ++ s.clocks }

instance (op : Op) (s : System) : Decidable (durableJobs.enabled op s) :=
  inferInstanceAs (Decidable ((∀ t, op.issues = some t → t ∉ s.issued ∧ t ≠ []) ∧ ∀ j, op.holder = some j → j ∈ s.held))

abbrev Reachable (s : System) : Prop := durableJobs.Reachable .empty s

/-- One job, claimed by one worker. -/
def exampleOps : List Op :=
  [.enqueue ⟨js "thumbnail", 1, js "{}", none, none, none⟩ (js "job") 0,
    .beginClaim ⟨js "worker", none, none, 10, some [js "thumbnail@1"]⟩,
    .selectCandidates 0, .claimNext 0 (js "token"), .fetchClaimed 0]

example : ((durableJobs.after exampleOps .empty).held.map fun job => job.attempts) = [1] := by
  decide

def exampleHanded (s : System) (f : DurableJob → List Op) : List Op := s.held.getLast?.elim [] f

/-- The lease of `exampleOps` expires and the job goes to another worker; the first reports late,
the second completes the job. -/
def exampleSettled : List Op :=
  let first := durableJobs.after exampleOps .empty
  let again := exampleOps ++ [.beginClaim ⟨js "other", none, none, 30010, some [js "thumbnail@1"]⟩,
    .selectCandidates 1, .claimNext 1 (js "second"), .fetchClaimed 1]
  again ++ exampleHanded first (fun job => [.complete job 30011]) ++
    exampleHanded (durableJobs.after again .empty) (fun job => [.complete job 30012])

/-- One retained job, claimed by one worker. -/
def exampleRetained : List Op :=
  [.enqueue ⟨js "storage-mutation", 1, js "{}", none, none, none⟩ (js "mutation") 0,
    .beginClaim ⟨js "worker", none, none, 10, some [js "storage-mutation@1"]⟩,
    .selectCandidates 0, .claimNext 0 (js "token"), .fetchClaimed 0]

/-! ## What an operation does to one row -/

/-- The guards an operation checks on the row it replaces, and the new row. -/
inductive RowChange (s : System) : Op → DurableJobRow → DurableJobRow → Prop
  | exhausted {input row} :
      row.state = .running → leaseExpired input.now row = true → row.attempts ≥ row.maxAttempts →
      row.retained = false → supportedBy (claimSupported input) row = true →
      RowChange s (.beginClaim input) row ((exhaustUpdate input).set row)
  | claimed {i call candidate rest leaseToken row} :
      s.calls[i]? = some call → call.next = some (candidate, rest) → row.id = candidate.id →
      eligible call.input.now row = true →
      (isRetainedStorageMutation candidate.type candidate.version = true → row.attempts = candidate.attempts) →
      RowChange s (.claimNext i leaseToken) row
        ((claimUpdate call.input candidate leaseToken).set row)
  | extended {job leaseMs now row} :
      heldWhere job now row = true →
      RowChange s (.extendLease job leaseMs now) row
        { row with leaseExpiresAt := some (now + leaseMs), updatedAt := now }
  | completed {job now row} :
      heldWhere job now row = true →
      RowChange s (.complete job now) row
        { row with
          state := .succeeded
          leaseOwner := none
          leaseToken := none
          leaseExpiresAt := none
          lastError := none
          completedAt := some now
          updatedAt := now }
  | failed {job error retryDelay nextRunAt now row} :
      heldWhere job now row = true →
      (terminal job error = true → nextRunAt = job.nextRunAt) →
      RowChange s (.fail job error retryDelay now) row (failRow job error nextRunAt now row)
  | cancelled {id now row} :
      row.id = id → row.state = .pending ∨ row.state = .running → row.retained = false →
      RowChange s (.cancel id now) row ((cancel id now).set row)
  | retried {id now row} :
      row.id = id → row.state = .failed →
      RowChange s (.retry id now) row ((retry id now).set row)

theorem heldWhere_iff (job : DurableJob) (now : Time) (row : DurableJobRow) : heldWhere job now row = true ↔
    row.id = job.id ∧ row.type = job.type ∧ row.version = job.version ∧ row.leaseOwner = job.leaseOwner ∧
    row.leaseToken = job.leaseToken ∧ row.state = .running ∧
    (job.retained = true → ∃ expires, row.leaseExpiresAt = some expires ∧ now < expires) := by
  have hexp : (row.leaseExpiresAt.any fun expires => decide (expires > now)) = true ↔
      ∃ expires, row.leaseExpiresAt = some expires ∧ now < expires := by
    cases row.leaseExpiresAt <;> simp
  unfold heldWhere
  rw [Bool.and_eq_true, Bool.or_eq_true, hexp]
  simp only [Bool.and_eq_true, beq_iff_eq, Bool.not_eq_true', and_assoc]
  cases job.retained <;> simp

variable {s : System} {op : Op} {row : DurableJobRow}

/-- **Step rule for rows.** -/
theorem rowChange_of_effect {u : Update} (h : effect s op = .update u) (hcond : u.cond row = true) :
    RowChange s op row (u.set row) := by
  cases op with
  | enqueue input id now => simp only [effect] at h; split at h <;> cases h
  | beginClaim input =>
    simp only [effect] at h
    split at h
    · cases h
      simp only [exhaustUpdate, Bool.and_eq_true, beq_iff_eq, decide_eq_true_eq, Bool.not_eq_true'] at hcond
      obtain ⟨⟨⟨⟨hrun, hexp⟩, hatt⟩, hret⟩, hsup⟩ := hcond
      exact .exhausted hrun hexp hatt hret hsup
    · cases h
  | selectCandidates i => cases h
  | claimNext i leaseToken =>
    simp only [effect] at h
    split at h
    · cases h
    · rename_i call hcall
      split at h
      · cases h
      · rename_i candidate rest hnext
        cases h
        simp only [claimUpdate, Bool.and_eq_true, beq_iff_eq, Bool.or_eq_true, Bool.not_eq_true'] at hcond
        obtain ⟨⟨⟨hid, helig⟩, hfence⟩, -⟩ := hcond
        refine .claimed hcall hnext hid helig fun hret => ?_
        rcases hfence with hfalse | hatt
        · simp [hret] at hfalse
        · exact hatt
  | fetchClaimed i => cases h
  | extendLease job leaseMs now =>
    simp only [effect, extendLease] at h
    split at h
    · cases h
    · cases h; exact .extended hcond
  | complete job now =>
    simp only [effect, complete] at h
    split at h
    · cases h
    · cases h; exact .completed hcond
  | fail job error retryDelay now =>
    simp only [effect, fail] at h
    split at h
    · cases h
    · by_cases hterm : terminal job error = true
      · simp only [hterm, if_true, map_some, elim_some] at h
        cases h
        exact .failed hcond fun _ => rfl
      · simp only [hterm, Bool.false_eq_true, if_false] at h
        cases hd : boundedDelay job error retryDelay with
        | none => simp [hd] at h
        | some delay =>
          simp only [hd, map_some, elim_some] at h
          cases h
          exact .failed hcond fun ht => absurd ht hterm
  | cancel id now =>
    cases h
    simp only [cancel, Bool.and_eq_true, Bool.or_eq_true, beq_iff_eq, Bool.not_eq_true'] at hcond
    exact .cancelled hcond.1.1 hcond.1.2 hcond.2
  | retry id now =>
    cases h
    simp only [retry, Bool.and_eq_true, beq_iff_eq] at hcond
    exact .retried hcond.1 hcond.2

/-- No operation rewrites what identifies a job. -/
theorem RowChange.keeps {row row' : DurableJobRow} (h : RowChange s op row row') :
    row'.id = row.id ∧ row'.type = row.type ∧ row'.version = row.version ∧ row'.maxAttempts = row.maxAttempts := by
  cases h <;> exact ⟨rfl, rfl, rfl, rfl⟩

theorem update_keeps_id {u : Update} (h : effect s op = .update u) (row : DurableJobRow) : (u.set row).id = row.id := by
  cases op with
  | enqueue input id now => simp only [effect] at h; split at h <;> cases h
  | beginClaim input =>
    simp only [effect] at h
    split at h <;> cases h
    rfl
  | selectCandidates i => cases h
  | claimNext i leaseToken =>
    simp only [effect] at h
    split at h
    · cases h
    · split at h <;> cases h
      rfl
  | fetchClaimed i => cases h
  | extendLease job leaseMs now =>
    simp only [effect, extendLease] at h
    split at h <;> cases h
    rfl
  | complete job now =>
    simp only [effect, complete] at h
    split at h <;> cases h
    rfl
  | fail job error retryDelay now =>
    cases hf : fail job error retryDelay now with
    | none => simp [effect, hf] at h
    | some v =>
      simp only [effect, hf, elim_some] at h
      cases h
      simp only [fail] at hf
      split at hf
      · cases hf
      · obtain ⟨nextRunAt, -, rfl⟩ := map_eq_some_iff.mp hf
        rfl
  | cancel | retry => cases h; rfl

/-! ## The table after an operation -/

/-- An insert appends the row of a new job. -/
theorem rows_of_insert {rows : List DurableJobRow} (h : effect s op = .insert rows) : rows = s.rows ∨ ∃ input id now,
    op = .enqueue input id now ∧ (∀ r ∈ s.rows, r.id ≠ id) ∧ 1 ≤ input.maxAttempts.getD 5 ∧
    rows = s.rows ++ [enqueueRow input id now] := by
  have hins : ∀ row rows', insert row s.rows = .ok rows' →
      (∀ r ∈ s.rows, r.id ≠ row.id) ∧ rows' = s.rows ++ [row] := by
    intro row rows' hi
    simp only [insert] at hi
    split at hi
    · cases hi
    · rename_i hnone
      split at hi
      · cases hi
      · cases hi
        exact ⟨by simpa using hnone, rfl⟩
  cases op with
  | enqueue input id now =>
    simp only [effect] at h
    split at h
    · rename_i rows' job henq
      cases h
      simp only [enqueue] at henq
      split at henq
      · cases henq
      split at henq
      · cases henq
      split at henq
      · cases henq
      rename_i hmax
      have hpos : 1 ≤ input.maxAttempts.getD 5 := by
        simp only [Bool.or_eq_true, decide_eq_true_eq, not_or] at hmax
        omega
      split at henq
      · cases hi : insert (enqueueRow input id now) s.rows with
        | error e => simp [hi, Except.map] at henq
        | ok rows'' =>
          simp only [hi, Except.map, Except.ok.injEq, Prod.mk.injEq] at henq
          obtain ⟨hfresh, hrows⟩ := hins _ _ hi
          exact .inr ⟨input, id, now, rfl, hfresh, hpos, by rw [← henq.1, hrows]⟩
      · split at henq
        · left
          simp only [Except.bind] at henq
          split at henq
          · cases henq; rfl
          · cases henq
        · cases hi : insert (enqueueRow input id now) s.rows with
          | error e => simp [hi, Except.bind] at henq
          | ok rows'' =>
            simp only [hi, Except.bind] at henq
            obtain ⟨hfresh, hrows⟩ := hins _ _ hi
            split at henq
            · cases henq
              exact .inr ⟨input, id, now, rfl, hfresh, hpos, hrows⟩
            · cases henq
    · cases h
  | beginClaim input => simp only [effect] at h; split at h <;> cases h
  | selectCandidates i => cases h
  | claimNext i leaseToken =>
    simp only [effect] at h
    split at h
    · cases h
    · split at h <;> cases h
  | fetchClaimed i => cases h
  | extendLease job leaseMs now =>
    simp only [effect] at h
    cases hu : extendLease job leaseMs now <;> simp [hu] at h
  | complete job now =>
    simp only [effect] at h
    cases hu : complete job now <;> simp [hu] at h
  | fail job error retryDelay now =>
    simp only [effect] at h
    cases hu : fail job error retryDelay now <;> simp [hu] at h
  | cancel | retry => cases h

/-- **Row rule.** A property of rows survives an operation when new rows have it
and every change of a row keeps it. -/
theorem forall_rows_exec {I : DurableJobRow → Prop} (h : ∀ row ∈ s.rows, I row)
    (hnew : ∀ input id now, op = .enqueue input id now → (∀ r ∈ s.rows, r.id ≠ id) →
      1 ≤ input.maxAttempts.getD 5 → I (enqueueRow input id now))
    (hchange : ∀ row row', row ∈ s.rows → RowChange s op row row' → I row → I row') :
    ∀ row ∈ (durableJobs.exec op s).rows, I row := by
  show ∀ row ∈ (effect s op).apply s.rows, I row
  cases heff : effect s op with
  | none => exact h
  | insert rows =>
    rcases rows_of_insert heff with rfl | ⟨input, id, now, rfl, hfresh, hpos, rfl⟩
    · exact h
    · exact forall_mem_append.mpr ⟨h, forall_mem_singleton.mpr (hnew input id now rfl hfresh hpos)⟩
  | update u =>
    exact Table.forall_updateWhere h fun row hrow hcond hI =>
      hchange row _ hrow (rowChange_of_effect heff hcond) hI

theorem ids_nodup_exec (h : (s.rows.map DurableJobRow.id).Nodup) :
    ((durableJobs.exec op s).rows.map DurableJobRow.id).Nodup := by
  show (((effect s op).apply s.rows).map DurableJobRow.id).Nodup
  cases heff : effect s op with
  | none => exact h
  | insert rows =>
    rcases rows_of_insert heff with rfl | ⟨input, id, now, rfl, hfresh, -, rfl⟩
    · exact h
    · have hnot : id ∉ s.rows.map DurableJobRow.id := by
        rintro hmem
        obtain ⟨r, hr, hid⟩ := List.mem_map.mp hmem
        exact hfresh r hr hid
      simp only [Effect.apply, map_append, map_cons, map_nil]
      exact nodup_append.mpr ⟨h, by simp, by
        rintro a ha b hb rfl
        have hid : a = id := mem_singleton.mp hb
        exact hnot (hid ▸ ha)⟩
  | update u =>
    rw [Effect.apply, Table.map_updateWhere DurableJobRow.id (update_keeps_id heff)]
    exact h

/-- **History rule.** The row of a job stays, changed by the operation or not. -/
theorem job_exec (op : Op) {id : Uuid} (h : s.job id = some row) :
    ∃ row', (durableJobs.exec op s).job id = some row' ∧ (row' = row ∨ RowChange s op row row') := by
  show ∃ row', Table.get DurableJobRow.id ((effect s op).apply s.rows) id = some row' ∧ _
  cases heff : effect s op with
  | none => exact ⟨row, h, .inl rfl⟩
  | insert rows =>
    rcases rows_of_insert heff with rfl | ⟨input, id', now, rfl, -, -, rfl⟩
    · exact ⟨row, h, .inl rfl⟩
    · refine ⟨row, ?_, .inl rfl⟩
      rw [Effect.apply, Table.get_append, show Table.get _ s.rows id = some row from h]
      rfl
  | update u =>
    rw [Effect.apply, Table.get_updateWhere DurableJobRow.id (update_keeps_id heff),
      show Table.get _ s.rows id = some row from h, map_some]
    refine ⟨_, rfl, ?_⟩
    split
    · rename_i hcond
      exact .inr (rowChange_of_effect heff hcond)
    · exact .inl rfl

/-- A later row of a job stems from an earlier one, or the job is new. -/
theorem job_exec_inv {id : Uuid} {row' : DurableJobRow} (h : (durableJobs.exec op s).job id = some row') :
    (∃ row, s.job id = some row ∧ (row' = row ∨ RowChange s op row row')) ∨ s.job id = none ∧ ∃ input now,
    op = .enqueue input id now ∧ 1 ≤ input.maxAttempts.getD 5 ∧ row' = enqueueRow input id now := by
  cases hjob : s.job id with
  | some row =>
    obtain ⟨row'', hrow'', hch⟩ := job_exec op hjob
    rw [h] at hrow''
    cases hrow''
    exact .inl ⟨row, rfl, hch⟩
  | none =>
    refine .inr ⟨rfl, ?_⟩
    change Table.get DurableJobRow.id ((effect s op).apply s.rows) id = some row' at h
    change Table.get DurableJobRow.id s.rows id = none at hjob
    cases heff : effect s op with
    | none => simp [heff, Effect.apply, hjob] at h
    | insert rows =>
      rcases rows_of_insert heff with rfl | ⟨input, id', now, rfl, -, hpos, rfl⟩
      · simp [heff, Effect.apply, hjob] at h
      · rw [heff, Effect.apply, Table.get_append, hjob, none_or] at h
        have hmem := Table.get_mem DurableJobRow.id h
        have hrow : row' = enqueueRow input id' now := mem_singleton.mp hmem.1
        subst hrow
        have hid : id' = id := hmem.2
        subst hid
        exact ⟨input, now, rfl, hpos, rfl⟩
    | update u =>
      rw [heff, Effect.apply, Table.get_updateWhere DurableJobRow.id (update_keeps_id heff), hjob] at h
      cases h

/-! ## The record of an operation -/

theorem entry_job {e : Event} (h : entry row op = some e) : e.job = row.id := by
  cases op <;> simp only [entry, reduceCtorEq, Option.some.injEq] at h <;> subst h <;> rfl

/-- An operation that is recorded asks for one job. -/
theorem recorded_id {a a' b b' : DurableJobRow} {e : Event} (ha : RowChange s op a a') (hb : RowChange s op b b')
    (he : entry a op = some e) : a.id = b.id := by
  cases ha with
  | exhausted | extended | cancelled => cases he
  | claimed hcall hnext hid =>
    cases hb with
    | claimed hcall' hnext' hid' =>
      rw [hcall] at hcall'
      cases hcall'
      rw [hnext] at hnext'
      cases hnext'
      exact hid.trans hid'.symm
  | completed hheld =>
    cases hb with
    | completed hheld' =>
      exact ((heldWhere_iff _ _ _).mp hheld).1.trans ((heldWhere_iff _ _ _).mp hheld').1.symm
  | failed hheld =>
    cases hb with
    | failed hheld' =>
      exact ((heldWhere_iff _ _ _).mp hheld).1.trans ((heldWhere_iff _ _ _).mp hheld').1.symm
  | retried hid =>
    cases hb with
    | retried hid' => exact hid.trans hid'.symm

/-- The record of an operation that replaced `row`. -/
theorem log_of_cond {u : Update} (hids : (s.rows.map DurableJobRow.id).Nodup)
    (heff : effect s op = .update u) (hrow : row ∈ s.rows) (hcond : u.cond row = true) :
    (durableJobs.exec op s).log = (entry row op).toList ++ s.log := by
  have hlog : (durableJobs.exec op s).log =
      (((effect s op).row s.rows).bind fun row => entry row op).toList ++ s.log := rfl
  cases hfind : s.rows.find? u.cond with
  | none => simp [find?_eq_none.mp hfind row hrow] at hcond
  | some first =>
    have hfirst := mem_of_find?_eq_some hfind
    have hfcond : u.cond first = true := by simpa using find?_some hfind
    rw [hlog, heff, Effect.row, hfind, bind_some]
    cases he : entry first op with
    | none =>
      have hnone : entry row op = none := by
        cases op <;> first | rfl | cases he
      rw [hnone]
    | some e =>
      have hid := recorded_id (rowChange_of_effect heff hfcond)
        (rowChange_of_effect heff hcond) he
      rw [← inj_on_of_nodup_map hids hfirst hrow hid, he]

/-- **Step rule for a job.** Its row is changed and the change recorded, or its row
stays and the operation records at most a change of another job. -/
theorem job_step (op : Op) {id : Uuid} (hids : (s.rows.map DurableJobRow.id).Nodup)
    (h : s.job id = some row) :
    ∃ row', (durableJobs.exec op s).job id = some row' ∧
      ((row' = row ∧ ((durableJobs.exec op s).log = s.log ∨
          ∃ e, e.job ≠ id ∧ (durableJobs.exec op s).log = e :: s.log)) ∨
        (RowChange s op row row' ∧ (durableJobs.exec op s).log = (entry row op).toList ++ s.log)) := by
  have hrow := Table.get_mem DurableJobRow.id h
  have hlog : (durableJobs.exec op s).log =
      (((effect s op).row s.rows).bind fun row => entry row op).toList ++ s.log := rfl
  cases heff : effect s op with
  | none =>
    refine ⟨row, ?_, .inl ⟨rfl, .inl (by simp [hlog, heff, Effect.row])⟩⟩
    show Table.get DurableJobRow.id ((effect s op).apply s.rows) id = some row
    rw [heff]
    exact h
  | insert rows =>
    refine ⟨row, ?_, .inl ⟨rfl, .inl (by simp [hlog, heff, Effect.row])⟩⟩
    show Table.get DurableJobRow.id ((effect s op).apply s.rows) id = some row
    rw [heff]
    rcases rows_of_insert heff with rfl | ⟨input, id', now, rfl, -, -, rfl⟩
    · exact h
    · rw [Effect.apply, Table.get_append, show Table.get _ s.rows id = some row from h]
      rfl
  | update u =>
    refine ⟨if u.cond row then u.set row else row, ?_, ?_⟩
    · show Table.get DurableJobRow.id ((effect s op).apply s.rows) id = _
      rw [heff, Effect.apply, Table.get_updateWhere DurableJobRow.id (update_keeps_id heff),
        show Table.get _ s.rows id = some row from h, map_some]
    by_cases hcond : u.cond row = true
    · refine .inr ⟨by simpa [hcond] using rowChange_of_effect heff hcond, ?_⟩
      exact log_of_cond hids heff hrow.1 hcond
    · refine .inl ⟨by simp [hcond], ?_⟩
      cases hfind : s.rows.find? u.cond with
      | none => exact .inl (by simp [hlog, heff, Effect.row, hfind])
      | some first =>
        have hfirst := mem_of_find?_eq_some hfind
        have hfcond : u.cond first = true := by simpa using find?_some hfind
        cases he : entry first op with
        | none => exact .inl (by simp [hlog, heff, Effect.row, hfind, he])
        | some e =>
          refine .inr ⟨e, ?_, by simp [hlog, heff, Effect.row, hfind, he]⟩
          rintro heid
          rw [entry_job he, ← hrow.2] at heid
          have hsame : first = row := inj_on_of_nodup_map hids hfirst hrow.1 heid
          exact hcond (hsame ▸ hfcond)

/-- What is recorded concerns a job of the table. -/
theorem log_exec (op : Op) (hids : (s.rows.map DurableJobRow.id).Nodup) : (durableJobs.exec op s).log = s.log ∨ ∃ e row,
    (durableJobs.exec op s).log = e :: s.log ∧ s.job e.job = some row ∧ entry row op = some e := by
  have hlog : (durableJobs.exec op s).log =
      (((effect s op).row s.rows).bind fun row => entry row op).toList ++ s.log := rfl
  cases hrow : (effect s op).row s.rows with
  | none => exact .inl (by simp [hlog, hrow])
  | some row =>
    cases he : entry row op with
    | none => exact .inl (by simp [hlog, hrow, he])
    | some e =>
      refine .inr ⟨e, row, by simp [hlog, hrow, he], ?_, he⟩
      have hmem : row ∈ s.rows := by
        cases heff : effect s op with
        | none | insert => simp [heff, Effect.row] at hrow
        | update u =>
          rw [heff] at hrow
          exact mem_of_find?_eq_some hrow
      exact (Table.get_eq_some_iff DurableJobRow.id hids).mpr ⟨hmem, (entry_job he).symm⟩

/-- **Job rule.** From `I` before an operation to `I'` after it, for the row of
every job. -/
theorem forall_jobs_exec {I I' : DurableJobRow → Prop} (hids : (s.rows.map DurableJobRow.id).Nodup)
    (h : ∀ id row, s.job id = some row → I row)
    (hnew : ∀ input id now, op = .enqueue input id now → s.job id = none →
      1 ≤ input.maxAttempts.getD 5 → I' (enqueueRow input id now))
    (hkeep : ∀ row, s.job row.id = some row → I row →
      ((durableJobs.exec op s).log = s.log ∨ ∃ e, e.job ≠ row.id ∧ (durableJobs.exec op s).log = e :: s.log) → I' row)
    (hchange : ∀ row row', s.job row.id = some row → RowChange s op row row' →
      (durableJobs.exec op s).log = (entry row op).toList ++ s.log → I row → I' row') :
    ∀ id row, (durableJobs.exec op s).job id = some row → I' row := by
  intro id row' hrow'
  cases hjob : s.job id with
  | some row =>
    have hid : row.id = id := (Table.get_mem DurableJobRow.id hjob).2
    obtain ⟨row'', hrow'', hcase⟩ := job_step op hids hjob
    rw [hrow'] at hrow''
    cases hrow''
    rcases hcase with ⟨rfl, hlog⟩ | ⟨hch, hlog⟩
    · exact hkeep row' (by rw [hid]; exact hjob) (h id row' hjob) (by rw [hid]; exact hlog)
    · exact hchange row row' (by rw [hid]; exact hjob) hch hlog (h id row hjob)
  | none =>
    rcases job_exec_inv hrow' with ⟨row, hrow, -⟩ | ⟨-, input, now, hop, hpos, rfl⟩
    · rw [hjob] at hrow
      cases hrow
    · exact hnew input id now hop hjob hpos

/-! ## The calls after an operation -/

/-- **Call rule.** -/
theorem forall_calls_exec {I : ClaimCall → Prop} (h : ∀ call ∈ s.calls, I call)
    (hbegin : ∀ input, op = .beginClaim input → I ⟨input, none, none, []⟩)
    (hselect : ∀ input, I ⟨input, none, none, []⟩ → I ⟨input, some (selectCandidates input s.rows), none, []⟩)
    (hclaim : ∀ i leaseToken call candidate rest, op = .claimNext i leaseToken →
      call ∈ s.calls → s.calls[i]? = some call → call.next = some (candidate, rest) → I call →
      I { call with
        candidates := some rest
        fetching := if (effect s op).succeeds s.rows then some (candidate, leaseToken) else none })
    (hfetch : ∀ call candidate leaseToken, call ∈ s.calls →
      call.fetching = some (candidate, leaseToken) → I call →
      I { call with
        fetching := none
        claimed := call.claimed ++ (fetchClaimed call.input candidate leaseToken s.rows).toList }) :
    ∀ call ∈ (durableJobs.exec op s).calls, I call := by
  have hset : ∀ i new, I new → ∀ call ∈ s.calls.set i new, I call := by
    intro i new hnew call hcall
    rcases mem_or_eq_of_mem_set hcall with hcall | rfl
    · exact h call hcall
    · exact hnew
  show ∀ call ∈ callsAfter s op, I call
  cases op with
  | beginClaim input =>
    simp only [callsAfter]
    split
    · exact forall_mem_append.mpr ⟨h, forall_mem_singleton.mpr (hbegin input rfl)⟩
    · exact h
  | selectCandidates i =>
    simp only [callsAfter]
    split
    · rename_i input hget
      exact hset _ _ (hselect input (h _ (mem_of_getElem? hget)))
    · exact h
  | claimNext i leaseToken =>
    simp only [callsAfter]
    split
    · exact h
    · rename_i call hget
      have hmem := mem_of_getElem? hget
      split
      · exact h
      · rename_i candidate rest hnext
        exact hset _ _ (hclaim i leaseToken call candidate rest rfl hmem hget hnext (h _ hmem))
  | fetchClaimed i =>
    simp only [callsAfter]
    split
    · exact h
    · rename_i call hget
      have hmem := mem_of_getElem? hget
      split
      · exact h
      · rename_i candidate leaseToken hfetching
        exact hset _ _ (hfetch call candidate leaseToken hmem hfetching (h _ hmem))
  | enqueue | extendLease | complete | fail | cancel | retry => exact h

end TsEpistle.Jobs
