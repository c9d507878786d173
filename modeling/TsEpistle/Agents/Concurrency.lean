import TsEpistle.Agents.Execution

/-! The concurrency limits of claims. A claim counts the running leases before it grants
one; what may raise the number apart from claims is a heartbeat that revives an expired
lease and a run that goes on after an approval. -/

namespace TsEpistle.Agents
open Library List

variable {codec : Codec} {s : State} {op : Op}

/-- The running runs with a lease at `now`, of the owners in `q`. -/
def leaseCount (q : Int → Bool) (now : Time) (runs : List Run) : Nat :=
  runs.countP fun run => run.holdsLease now && q run.ownerId

/-! ## Counting -/

theorem Run.holdsLease_mono {run : Run} {now now' : Time} (hnow : now ≤ now')
    (h : run.holdsLease now' = true) : run.holdsLease now = true := by
  simp only [Run.holdsLease, Bool.and_eq_true, Option.any_eq_true, decide_eq_true_eq] at h ⊢
  obtain ⟨hstatus, expiresAt, hexpires, hlt⟩ := h
  exact ⟨hstatus, expiresAt, hexpires, lt_of_le_of_lt hnow hlt⟩

theorem leaseCount_mono {q : Int → Bool} {now now' : Time} {runs : List Run} (hnow : now ≤ now') :
    leaseCount q now' runs ≤ leaseCount q now runs := by
  refine countP_mono_left fun run _ h => ?_
  simp only [Bool.and_eq_true] at h ⊢
  exact ⟨Run.holdsLease_mono hnow h.1, h.2⟩

/-- Every owner with a lease is among the groups, unless these fill the limit. -/
theorem activeLeaseCounts_counts {runs : List Run} {now : Time} {limit : Nat}
    (h : (activeLeaseCounts runs now limit).global < limit) :
    leaseCount (fun _ => true) now runs = (activeLeaseCounts runs now limit).global
    ∧ ∀ ownerId, leaseCount (· = ownerId) now runs = (activeLeaseCounts runs now limit).ofOwner ownerId := by
  generalize hactive : runs.filter (fun run => run.holdsLease now) = active
  have hcount : ∀ q : Int → Bool, leaseCount q now runs = active.countP fun run => q run.ownerId := by
    intro q
    rw [← hactive, countP_filter, leaseCount]
    simp only [Bool.and_comm]
  let all := (active.map (·.ownerId)).dedup.insertionSort (· ≤ ·)
  let ofOwner : Int → Nat := fun ownerId => active.countP fun run => run.ownerId = ownerId
  have hcounts : activeLeaseCounts runs now limit
      = ⟨((all.take limit).map ofOwner).sum, (all.take limit).map fun o => (o, ofOwner o)⟩ := by
    unfold activeLeaseCounts
    dsimp only
    rw [hactive, map_map]
    rfl
  have hall : ∀ o ∈ all, 1 ≤ ofOwner o := by
    intro o ho
    have ho : o ∈ active.map (·.ownerId) := mem_dedup.mp ((perm_insertionSort _ _).subset ho)
    obtain ⟨run, hrun, rfl⟩ := mem_map.mp ho
    exact countP_pos_iff.mpr ⟨run, hrun, by simp⟩
  rw [hcounts] at h ⊢
  dsimp only at h ⊢
  -- the groups are all there
  have hlength : all.length ≤ limit := by
    by_contra hlong
    have htake : (all.take limit).length = limit := by
      rw [length_take]
      omega
    have hsum := length_le_sum_of_one_le ((all.take limit).map ofOwner) (by
      intro n hn
      obtain ⟨o, ho, rfl⟩ := mem_map.mp hn
      exact hall o (mem_of_mem_take ho))
    rw [length_map, htake] at hsum
    omega
  rw [take_of_length_le hlength]
  constructor
  · rw [hcount]
    have hsum : (all.map ofOwner).sum = ((active.map (·.ownerId)).dedup.map ofOwner).sum :=
      ((perm_insertionSort _ _).map ofOwner).sum_eq
    have hgroups := sum_map_count_dedup_eq_length (active.map (·.ownerId))
    have hof : ofOwner = fun o => (active.map (·.ownerId)).count o := by
      funext o
      simp only [ofOwner, List.count, countP_map]
      congr 1
    rw [hsum, hof, hgroups]
    simp
  · intro ownerId
    rw [hcount, ActiveLeaseCounts.ofOwner]
    have hlookup : ∀ l : List Int, ((l.map fun o => (o, ofOwner o)).lookup ownerId).getD 0
        = if ownerId ∈ l then ofOwner ownerId else 0 := by
      intro l
      induction l with
      | nil => simp
      | cons o l ih =>
        by_cases heq : ownerId = o
        · subst heq
          simp
        · have hbeq : (ownerId == o) = false := by simpa using heq
          simp only [map_cons, lookup_cons, hbeq, mem_cons, heq, false_or]
          exact ih
    rw [hlookup]
    split
    · rfl
    · rename_i hnot
      rw [countP_eq_zero]
      intro run hrun heq
      refine hnot ((perm_insertionSort _ _).symm.subset (mem_dedup.mpr ?_))
      exact mem_map.mpr ⟨run, hrun, by simpa using heq⟩

/-! ## Writes -/

/-- No run goes on after an approval, no heartbeat revives an expired lease, and the claims have
the same limits and go by a time that has come. -/
def KeepsLimits (globalConcurrency perUserConcurrency : Int) (op : Op) (s : State) : Prop :=
  match op with
  | .beginClaim options => options.globalConcurrency = globalConcurrency
      ∧ options.perUserConcurrency = perUserConcurrency ∧ options.now ≤ s.clock
  | .heartbeat lease _ _ => ∀ run ∈ s.db.run lease.id, run.status = .running → run.holdsLease s.clock = true
  | .transition input => input.target ≠ .running
  | .resumeApproval .. => False
  | _ => True

/-- What the writes of such an operation come from, claims apart. -/
structure Origin.Quiet (o : Origin) (clock : Time) : Prop where
  holds : ∀ run, o.holds run → run.status = .running → run.holdsLease clock = true
  moves : ∀ run, ¬ o.moves run .running
  grants : ∀ options candidate reclaiming leaseToken run, ¬ o.grants options candidate reclaiming leaseToken run

theorem RowStep.holdsLease {o : Origin} {clock : Time} {run run' : Run}
    {daily daily' : List DailyRow} (ho : o.Quiet clock) (h : RowStep o run daily run' daily')
    (hrun' : run'.holdsLease clock = true) : run.holdsLease clock = true := by
  have hrunning : run'.status = .running := by
    simp only [Run.holdsLease, Bool.and_eq_true, decide_eq_true_eq] at hrun'
    exact hrun'.1
  cases h with
  | held expiresAt now horigin => exact ho.holds run horigin hrunning
  | moved input target horigin =>
    have htarget : target = .running := by simpa [transitionedRun] using hrunning
    exact absurd (htarget ▸ horigin) (ho.moves run)
  | resumed now horigin => exact absurd horigin (ho.moves run)
  | suspended | requeued => cases hrunning
  | unleased now hstatus =>
    rw [show (unleasedRun now run).status = run.status from rfl, hstatus] at hrunning
    cases hrunning
  | raised ownerId target limits expiresAt now run' daily' h =>
    obtain ⟨reservation, rfl⟩ := ensureAgentRunQuota_reservation_only h
    exact hrun'
  | ended input status run' daily' horigin hid hstatus hexpected h =>
    rw [(terminalizeActive_endsAs h).status] at hrunning
    cases hrunning
  | settled input current run' daily' hstatus h =>
    obtain ⟨reservation, rfl⟩ := terminalizeAgain_reservation_only h
    exact hrun'
  | released ownerId now run' daily' horigin h =>
    obtain ⟨reservation, rfl⟩ := h.reservation_only
    exact hrun'
  | granted options candidate reclaiming leaseToken horigin =>
    exact absurd horigin (ho.grants _ _ _ _ _)
  | _ => exact hrun'

theorem leaseCount_put {q : Int → Bool} {now : Time} {db : Database} {run run' : Run}
    {daily' : List DailyRow} (hunique : (db.runs.map Run.id).Nodup) (hid : run'.id = run.id)
    (hrun : db.run run.id = some run) :
    leaseCount q now (db.put run' daily').runs + (if run.holdsLease now && q run.ownerId then 1 else 0)
      = leaseCount q now db.runs + (if run'.holdsLease now && q run'.ownerId then 1 else 0) := by
  rw [← hid] at hrun
  exact Table.countP_replace Run.id (fun run => run.holdsLease now && q run.ownerId) hunique hrun

theorem Steps.leaseCount_le {o : Origin} {clock : Time} {db db' : Database} (ho : o.Quiet clock)
    (h : Steps o db db') (hunique : (db.runs.map Run.id).Nodup) (q : Int → Bool) :
    leaseCount q clock db'.runs ≤ leaseCount q clock db.runs := by
  refine Steps.countP_le h hunique ?_ ?_ (le_refl _)
  · intro run daily run' daily' hstep hrun'
    simp only [Bool.and_eq_true] at hrun' ⊢
    exact ⟨hstep.holdsLease ho hrun'.1, by rw [← hstep.identity.2.2]; exact hrun'.2⟩
  · intro db input reservation hsession hn
    simpa [Run.holdsLease, queuedRun] using hn

theorem Op.origin_quiet {g p : Int} (hkeeps : KeepsLimits g p op s)
    (hop : ∀ leaseToken, op ≠ .claimNext leaseToken) : (op.origin codec s).Quiet s.clock where
  holds := by
    rintro run ⟨lease, milliseconds, now, rfl, hrun⟩ hstatus
    exact hkeeps run hrun hstatus
  moves := by
    rintro run (⟨input, rfl, htarget⟩ | ⟨lease, now, rfl⟩ | ⟨htarget, -⟩)
    · exact hkeeps htarget
    · exact hkeeps
    · cases htarget
  grants := fun options candidate reclaiming leaseToken run hgrant =>
    hop leaseToken (grants_claimNext hgrant)

/-! ## Claims -/

/-- The leases are within the limits, and a claim in progress has counted them. -/
structure Limited (g p : Int) (s : State) : Prop where
  claiming : Claiming s
  total : leaseCount (fun _ => true) s.clock s.db.runs ≤ (Max.max 1 g).toNat
  owner : ∀ ownerId, leaseCount (· = ownerId) s.clock s.db.runs ≤ (Max.max 1 p).toNat
  limits : ∀ claim, s.claim = some claim → claim.options.globalConcurrency = g ∧ claim.options.perUserConcurrency = p
  counted : ∀ claim, s.claim = some claim → claim.active.global < (Max.max 1 g).toNat
    ∧ leaseCount (fun _ => true) s.clock s.db.runs ≤ claim.active.global
    ∧ ∀ ownerId, leaseCount (· = ownerId) s.clock s.db.runs ≤ claim.active.ofOwner ownerId

theorem Origin.ending_quiet (clock : Time) : Origin.ending.Quiet clock :=
  ⟨fun _ h => h.elim, fun _ h => h, fun _ _ _ _ _ h => h⟩

/-- The rows after a grant: one lease more, and none more where no lease of `q` begins. -/
theorem granted_leaseCount {claim : ClaimTransaction} {candidate : Run} {reclaiming : Bool}
    {leaseToken : Uuid} {db' : Database} {q : Int → Bool} (hs : Claiming s)
    (hclaim : s.claim = some claim)
    (h : RoundStep codec s.db claim leaseToken (.granted db' candidate reclaiming)) (clock : Time) :
    leaseCount q clock db'.runs ≤ leaseCount q clock s.db.runs + 1
    ∧ (q candidate.ownerId = false ∨ candidate.status = .awaitingApproval →
      leaseCount q clock db'.runs ≤ leaseCount q clock s.db.runs) := by
  cases h with
  | granted _ rest _ mid _ hcandidates hverdict hall hupdate =>
  have hsteps : Steps Origin.ending s.db mid := terminalizeAll_steps (fun _ _ => trivial) hall
  have hmid := Steps.leaseCount_le (Origin.ending_quiet clock) hsteps hs.unique q
  obtain ⟨row, hrow, hfence, rfl⟩ := updateRun_eq_some.mp hupdate
  obtain ⟨-, hid⟩ := run_mem hrow
  have hput := @leaseCount_put q clock mid row
    (grantedRun claim.options candidate reclaiming leaseToken row) mid.daily
    (Steps.ids hsteps hs.unique) rfl (by rw [hid]; exact hrow)
  obtain ⟨hactive, old, hold, -, howner⟩ := hs.candidates claim hclaim _ hcandidates candidate (by simp)
  have hsame : s.db.run candidate.id = some row := by
    refine terminalizeAll_run hall hrow ?_
    simp only [grantFence, Bool.and_eq_true, decide_eq_true_eq] at hfence
    rw [Run.isTerminal, hfence.1.1]
    exact hactive
  rw [hsame] at hold
  cases hold
  constructor
  · have hle : (if (grantedRun claim.options candidate reclaiming leaseToken row).holdsLease clock
        && q (grantedRun claim.options candidate reclaiming leaseToken row).ownerId then 1 else 0)
        ≤ 1 := by
      split
      · exact le_refl _
      · exact Nat.zero_le _
    omega
  · intro hnone
    have hnew : ((grantedRun claim.options candidate reclaiming leaseToken row).holdsLease clock
        && q (grantedRun claim.options candidate reclaiming leaseToken row).ownerId) = false := by
      rcases hnone with hq | hawaiting
      · rw [show (grantedRun claim.options candidate reclaiming leaseToken row).ownerId
          = row.ownerId from rfl, howner, hq, Bool.and_false]
      · simp [Run.holdsLease, grantedRun, hawaiting]
    rw [hnew] at hput
    simp only [Bool.false_eq_true, if_false] at hput
    omega

theorem exec_clock (hop : ∀ time, op ≠ .tick time) : (exec codec op s).clock = s.clock := by
  cases op with
  | tick time => exact absurd rfl (hop time)
  | claimNext leaseToken =>
    simp only [exec]
    split
    · rfl
    · unfold claimStep
      split
      all_goals rfl
  | _ =>
    simp only [exec]
    try split
    all_goals rfl

/-- What a claim counts when it begins. -/
theorem beginClaim_counted {options : ClaimAgentRunOptions} {claim : ClaimTransaction}
    (h : beginClaim s.db options = some claim) (hnow : options.now ≤ s.clock) : claim.options = options ∧
    claim.active.global < options.global ∧ leaseCount (fun _ => true) s.clock s.db.runs ≤ claim.active.global ∧
    ∀ ownerId, leaseCount (· = ownerId) s.clock s.db.runs ≤ claim.active.ofOwner ownerId := by
  unfold beginClaim at h
  dsimp only at h
  split at h
  · cases h
  · rename_i hfree
    cases h
    have hfree := Nat.lt_of_not_le hfree
    obtain ⟨htotal, howner⟩ := activeLeaseCounts_counts hfree
    refine ⟨rfl, hfree, ?_, fun ownerId => ?_⟩
    · rw [← htotal]
      exact leaseCount_mono hnow
    · rw [← howner]
      exact leaseCount_mono hnow

/-- A round of a claim grants one lease at most, and only to an owner with a free one. -/
theorem Limited.claimStep {g p : Int} (hs : Limited g p s) {before : ClaimTransaction} (hbefore : s.claim = some before)
    {leaseToken : Uuid} (hclaiming : Claiming (Agents.claimStep codec s before leaseToken)) :
    Limited g p (Agents.claimStep codec s before leaseToken) := by
  obtain ⟨hg, hp⟩ := hs.limits before hbefore
  obtain ⟨hglobal, htotal, howner⟩ := hs.counted before hbefore
  unfold Agents.claimStep at hclaiming ⊢
  cases hround : claimRound codec s.db before leaseToken with
  | error e =>
    rw [hround] at hclaiming
    exact ⟨hclaiming, hs.total, hs.owner, by simp [State.claim], by simp [State.claim]⟩
  | ok round =>
    rw [hround] at hclaiming
    cases round with
    | next claim =>
      have hsame : claim.options = before.options ∧ claim.active = before.active := by
        cases claimRound_ok hround with
        | waiting | skipped | gathered => exact ⟨rfl, rfl⟩
      refine ⟨hclaiming, hs.total, hs.owner, ?_, ?_⟩
      all_goals
        intro claim' hclaim'
        obtain rfl : claim = claim' := by simpa [State.claim] using hclaim'
      · rw [hsame.1]
        exact ⟨hg, hp⟩
      · rw [hsame.2]
        exact ⟨hglobal, htotal, howner⟩
    | ended db' =>
      have hle : ∀ q, leaseCount q s.clock db'.runs ≤ leaseCount q s.clock s.db.runs := by
        cases claimRound_ok hround with
        | finished _ hcandidates hall =>
          exact Steps.leaseCount_le (Origin.ending_quiet s.clock)
            (terminalizeAll_steps (fun _ _ => trivial) hall) hs.claiming.unique
      exact ⟨hclaiming, (hle _).trans hs.total, fun o => (hle _).trans (hs.owner o),
        by simp [State.claim], by simp [State.claim]⟩
    | granted db' candidate reclaiming =>
      have hgrant := fun q : Int → Bool =>
        granted_leaseCount (q := q) hs.claiming hbefore (claimRound_ok hround) s.clock
      refine ⟨hclaiming, ?_, fun ownerId => ?_, by simp [State.claim],
        by simp [State.claim]⟩
      · have hone := (hgrant fun _ => true).1
        dsimp only
        omega
      · obtain ⟨hone, hnone⟩ := hgrant (· = ownerId)
        by_cases hkept : decide (candidate.ownerId = ownerId) = false ∨ candidate.status = .awaitingApproval
        · exact (hnone hkept).trans (hs.owner ownerId)
        · rw [not_or] at hkept
          have hsame : candidate.ownerId = ownerId := by simpa using hkept.1
          have hfree : before.active.ofOwner candidate.ownerId < before.options.perUser := by
            cases claimRound_ok hround with
            | granted _ rest _ mid _ hcandidates hverdict hall hupdate =>
              cases considerCandidate_ok hverdict with
              | grant _ _ _ hslots => exact hslots hkept.2
          rw [hsame, ClaimAgentRunOptions.perUser, hp] at hfree
          have hcount := howner ownerId
          dsimp only
          omega

theorem Limited.exec {g p : Int} (hs : Limited g p s) (hop : (coordinator codec).enabled op s)
    (hkeeps : KeepsLimits g p op s) : Limited g p (exec codec op s) := by
  have hclaiming := hs.claiming.exec hop
  -- everything but a grant
  have hquiet : (∀ q, leaseCount q (Agents.exec codec op s).clock (Agents.exec codec op s).db.runs
        ≤ leaseCount q s.clock s.db.runs) →
      (∀ claim, (Agents.exec codec op s).claim = some claim →
        (claim.options.globalConcurrency = g ∧ claim.options.perUserConcurrency = p)
        ∧ claim.active.global < (Max.max 1 g).toNat
        ∧ leaseCount (fun _ => true) s.clock s.db.runs ≤ claim.active.global
        ∧ ∀ ownerId, leaseCount (· = ownerId) s.clock s.db.runs ≤ claim.active.ofOwner ownerId) →
      Limited g p (Agents.exec codec op s) := by
    intro hle hclaims
    refine ⟨hclaiming, (hle _).trans hs.total, fun ownerId => (hle _).trans (hs.owner ownerId),
      fun claim hclaim => (hclaims claim hclaim).1, fun claim hclaim => ?_⟩
    obtain ⟨-, hglobal, htotal, howner⟩ := hclaims claim hclaim
    exact ⟨hglobal, (hle _).trans htotal, fun ownerId => (hle _).trans (howner ownerId)⟩
  have hold : ∀ claim, s.claim = some claim →
      (claim.options.globalConcurrency = g ∧ claim.options.perUserConcurrency = p)
      ∧ claim.active.global < (Max.max 1 g).toNat
      ∧ leaseCount (fun _ => true) s.clock s.db.runs ≤ claim.active.global
      ∧ ∀ ownerId, leaseCount (· = ownerId) s.clock s.db.runs ≤ claim.active.ofOwner ownerId :=
    fun claim hclaim => ⟨hs.limits claim hclaim, hs.counted claim hclaim⟩
  have hsteps : (∀ leaseToken, op ≠ .claimNext leaseToken) → ∀ q,
      leaseCount q s.clock (Agents.exec codec op s).db.runs ≤ leaseCount q s.clock s.db.runs :=
    fun hother q => Steps.leaseCount_le (Op.origin_quiet hkeeps hother)
      (exec_steps hs.claiming hop) hs.claiming.unique q
  cases op with
  | beginClaim options =>
    have hnone := hop.1 rfl
    refine hquiet (fun q => ?_) fun claim hclaim => ?_
    · rw [exec_clock (by simp)]
      exact hsteps (by simp) q
    · simp only [Agents.exec] at hclaim
      split at hclaim
      · simp [State.claim, hnone] at hclaim
      · rename_i begun hbegin
        obtain rfl : begun = claim := by simpa [State.claim] using hclaim
        obtain ⟨hg, hp, hnow⟩ := hkeeps
        obtain ⟨rfl, hglobal, hcounts⟩ := beginClaim_counted hbegin hnow
        rw [ClaimAgentRunOptions.global, hg] at hglobal
        exact ⟨⟨hg, hp⟩, hglobal, hcounts⟩
  | selectCandidates rows =>
    refine hquiet (fun q => ?_) fun claim hclaim => ?_
    · rw [exec_clock (by simp)]
      exact hsteps (by simp) q
    · simp only [Agents.exec] at hclaim
      cases hbefore : s.claim with
      | none => simp [hbefore] at hclaim
      | some before =>
        rw [hbefore] at hclaim
        obtain rfl : { before with candidates := some (rows.take claimLimit) } = claim := by
          simpa [State.claim] using hclaim
        exact hold before hbefore
  | claimNext leaseToken =>
    cases hbefore : s.claim with
    | none =>
      rw [show Agents.exec codec (.claimNext leaseToken) s = s by simp only [Agents.exec, hbefore]]
      exact hs
    | some before =>
      rw [show Agents.exec codec (.claimNext leaseToken) s = Agents.claimStep codec s before leaseToken by
        simp only [Agents.exec, hbefore]] at hclaiming ⊢
      exact hs.claimStep hbefore hclaiming
  | tombstone ownerId sessionIds now =>
    have hnone := hop.1 rfl
    refine hquiet (fun q => ?_) fun claim hclaim => ?_
    · rw [exec_clock (by simp)]
      exact hsteps (by simp) q
    · simp only [Agents.exec] at hclaim
      split at hclaim
      · simp [State.claim, hnone] at hclaim
      · cases hclaim
  | finishTombstone =>
    refine hquiet (fun q => ?_) fun claim hclaim => ?_
    · rw [exec_clock (by simp)]
      exact hsteps (by simp) q
    · simp only [Agents.exec] at hclaim
      split at hclaim
      · cases hclaim
      · exact hold claim hclaim
  | tick time =>
    exact hquiet (fun q => leaseCount_mono (le_max_left _ _)) hold
  | _ =>
    refine hquiet (fun q => ?_) fun claim hclaim => ?_
    · rw [exec_clock (by simp)]
      exact hsteps (by simp) q
    · refine hold claim ?_
      rw [State.claim, exec_holder (by simp) (by simp) (by simp) (by simp) (by simp)] at hclaim
      exact hclaim

theorem Limited.initial {g p : Int} (users : List Int) (sessions : List AgentSession)
    (clock : Time) : Limited g p (.initial users sessions clock) where
  claiming := .initial users sessions clock
  total := by simp [State.initial, Database.initial, leaseCount]
  owner := by simp [State.initial, Database.initial, leaseCount]
  limits := by simp [State.initial, State.claim]
  counted := by simp [State.initial, State.claim]

/-! ## Runs -/

/-- **Concurrency.** Where no heartbeat revives an expired lease and no run goes on after an
approval, the running leases stay within the limits of the claims. -/
theorem lease_concurrency {globalConcurrency perUserConcurrency : Int} {users : List Int}
    {sessions : List AgentSession} {clock : Time}
    (h : ((coordinator codec).restrict (KeepsLimits globalConcurrency perUserConcurrency)).Reachable
      (.initial users sessions clock) s) :
    (s.db.runs.countP fun run => run.holdsLease s.clock) ≤ (Max.max 1 globalConcurrency).toNat
    ∧ ∀ ownerId, (s.db.runs.countP fun run => run.holdsLease s.clock && run.ownerId = ownerId)
      ≤ (Max.max 1 perUserConcurrency).toNat := by
  have hs : Limited globalConcurrency perUserConcurrency s :=
    h.invariant (.initial users sessions clock) fun _ _ hop hs => hs.exec hop.1 hop.2
  refine ⟨?_, hs.owner⟩
  simpa [leaseCount] using hs.total

instance (g p : Int) (op : Op) (s : State) : Decidable (KeepsLimits g p op s) := by
  unfold KeepsLimits
  split <;> infer_instance

instance (g p : Int) (op : Op) (s : State) :
    Decidable (((coordinator codec).restrict (KeepsLimits g p)).enabled op s) :=
  inferInstanceAs (Decidable (_ ∧ _))

/-- The claim of a second run after `ops`, which finds it first. -/
def exampleSecond (ops : List Op) : List Op :=
  let admitted := ops ++ [.admitRun (exampleAdmission (js "B") (js "t")), .tick 100]
  let after := (coordinator exampleCodec).after admitted exampleStart
  let candidates := (beginClaim after.db (exampleClaim 100)).elim [] fun claim =>
    after.db.runs.filter (candidateQuery claim.options claim.active)
  admitted ++ [.beginClaim (exampleClaim 100), .selectCandidates candidates.reverse, .claimNext (js "t2")]

theorem lease_concurrency_example :
    (((coordinator exampleCodec).after (.tick 1 :: exampleSecond exampleClaimed)
      exampleStart).db.runs.countP fun run => run.holdsLease 100) ≤ 1
    ∧ ∀ ownerId, (((coordinator exampleCodec).after (.tick 1 :: exampleSecond exampleClaimed)
      exampleStart).db.runs.countP fun run => run.holdsLease 100 && run.ownerId = ownerId) ≤ 1 :=
  have hreachable : ((coordinator exampleCodec).restrict (KeepsLimits 1 1)).Reachable exampleStart
      ((coordinator exampleCodec).after (.tick 1 :: exampleSecond exampleClaimed) exampleStart) :=
    ⟨.tick 1 :: exampleSecond exampleClaimed, by decide, rfl⟩
  lease_concurrency hreachable

/-- The first run awaits an approval while the second one is claimed, and then goes on. -/
def exampleApproved : List Op :=
  let input : TransitionAgentRunInput := ⟨exampleLease 1 (js "t1"), .running, .awaitingApproval, none, none, none, 2⟩
  exampleSecond (exampleClaimed ++ [.transition input]) ++
    [.heartbeat (exampleLease 1 (js "t1")) 60 100, .resumeApproval (exampleLease 1 (js "t1")) 101]

/-- The first worker's heartbeat comes after its lease has expired. -/
def exampleRevived : List Op :=
  exampleSecond exampleClaimed ++ [.heartbeat (exampleLease 1 (js "t1")) 60 100]

/-- Either of them has two running leases where the limit is one. -/
theorem limit_exceeded :
    ((coordinator exampleCodec).Valid exampleApproved exampleStart
      ∧ (((coordinator exampleCodec).after exampleApproved exampleStart).db.runs.countP
        fun run => run.holdsLease 100 && run.ownerId = 7) = 2)
    ∧ (coordinator exampleCodec).Valid exampleRevived exampleStart
      ∧ (((coordinator exampleCodec).after exampleRevived exampleStart).db.runs.countP
        fun run => run.holdsLease 100 && run.ownerId = 7) = 2 := by
  decide

end TsEpistle.Agents
