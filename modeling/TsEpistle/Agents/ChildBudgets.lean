import TsEpistle.Library.Machine
import TsEpistle.Library.Checked

/-! What the children of an agent may spend together (`AgentChildBudgetReservations` of
`server/agents/orchestration.ts`). Numbers are exact; those that the budget counts are safe integers. -/

namespace TsEpistle.Agents.ChildBudgets
open Library Checked List

structure AgentOrchestrationLimits where
  (childMaxOutputTokens maxAggregateChildTokens maxAggregateChildOutputCharacters : ℚ)

structure AgentChildBudgetUsage where
  (outputCharacters totalTokens : ℚ)

structure AgentChildBudgetReservation where
  id : Nat
  (outputCharacters totalTokens maxOutputTokens : ℚ)

structure AgentRepositoryError where
  (code message : String)
  status : Nat
  deriving DecidableEq, Repr

def MAX_AGENT_CHILD_OUTPUT_CHARACTERS : ℚ := 64 * 1024

def MAX_SAFE_INTEGER : Nat := 2 ^ 53 - 1

def isSafeInteger (value : ℚ) : Bool := value.den = 1 && value.num.natAbs ≤ MAX_SAFE_INTEGER

def budgetInvalid (message : String) : AgentRepositoryError := ⟨"AGENT_CHILD_BUDGET_INVALID", message, 500⟩

def childBudgetInteger (value : ℚ) (label : String) : Except AgentRepositoryError ℚ :=
  if !isSafeInteger value || value < 0 then .error (budgetInvalid (label ++ " is invalid")) else .ok value

def childBudgetSum (left right : ℚ) (label : String) : Except AgentRepositoryError ℚ :=
  let sum := left + right
  if !isSafeInteger sum || sum < 0 then .error (budgetInvalid (label ++ " exceeds the supported range")) else .ok sum

structure AgentChildBudgetReservations where
  limits : AgentOrchestrationLimits
  active : List Nat
  (consumedOutputCharacters consumedTotalTokens : ℚ)
  nextId : Nat
  (reservedOutputCharacters reservedTotalTokens : ℚ)

/-- The constructor. -/
def create (limits : AgentOrchestrationLimits) (consumed : AgentChildBudgetUsage) :
    Except AgentRepositoryError AgentChildBudgetReservations := do
  let outputCharacters ← childBudgetInteger consumed.outputCharacters "Consumed child output characters"
  let totalTokens ← childBudgetInteger consumed.totalTokens "Consumed child total tokens"
  return ⟨limits, [], outputCharacters, totalTokens, 1, 0, 0⟩

/-- An equal part of what remains, but at least 1. -/
def share (remaining concurrentSlots : ℚ) : ℚ := max 1 ⌊remaining / concurrentSlots⌋

namespace AgentChildBudgetReservations
variable (budget : AgentChildBudgetReservations)

def remainingTotalTokens : ℚ :=
  budget.limits.maxAggregateChildTokens - budget.consumedTotalTokens - budget.reservedTotalTokens

def remainingOutputCharacters : ℚ :=
  budget.limits.maxAggregateChildOutputCharacters - budget.consumedOutputCharacters - budget.reservedOutputCharacters

def reserve (concurrentSlots : ℚ) :
    Except AgentRepositoryError (Option AgentChildBudgetReservation × AgentChildBudgetReservations) :=
  if !isSafeInteger concurrentSlots || concurrentSlots < 1 then
    .error (budgetInvalid "Subagent concurrency reservation is invalid")
  else if budget.remainingTotalTokens < 1 ∨ budget.remainingOutputCharacters < 1 then .ok (none, budget)
  else do
    let reservation : AgentChildBudgetReservation :=
      { id := budget.nextId
        outputCharacters := min MAX_AGENT_CHILD_OUTPUT_CHARACTERS
          (share budget.remainingOutputCharacters concurrentSlots)
        totalTokens := share budget.remainingTotalTokens concurrentSlots
        maxOutputTokens := min budget.limits.childMaxOutputTokens (share budget.remainingTotalTokens concurrentSlots) }
    let reservedOutputCharacters ←
      childBudgetSum budget.reservedOutputCharacters reservation.outputCharacters "Reserved child output characters"
    let reservedTotalTokens ←
      childBudgetSum budget.reservedTotalTokens reservation.totalTokens "Reserved child total tokens"
    return (some reservation,
      { budget with
        active := reservation.id :: budget.active
        nextId := budget.nextId + 1
        reservedOutputCharacters := reservedOutputCharacters
        reservedTotalTokens := reservedTotalTokens })

def release (reservation : AgentChildBudgetReservation) (consumed : AgentChildBudgetUsage) :
    Except AgentRepositoryError AgentChildBudgetReservations :=
  if !isSafeInteger consumed.totalTokens || consumed.totalTokens < 0 || reservation.totalTokens < consumed.totalTokens
      || !isSafeInteger consumed.outputCharacters || consumed.outputCharacters < 0
      || reservation.outputCharacters < consumed.outputCharacters then
    .error ⟨"AGENT_CHILD_BUDGET_EXCEEDED", "Subagent usage exceeds its active budget reservation", 409⟩
  else if reservation.id ∉ budget.active then
    .error (budgetInvalid "Subagent budget reservation is not active")
  else do
    let consumedOutputCharacters ←
      childBudgetSum budget.consumedOutputCharacters consumed.outputCharacters "Consumed child output characters"
    let consumedTotalTokens ←
      childBudgetSum budget.consumedTotalTokens consumed.totalTokens "Consumed child total tokens"
    return { budget with
      active := budget.active.erase reservation.id
      reservedOutputCharacters := budget.reservedOutputCharacters - reservation.outputCharacters
      reservedTotalTokens := budget.reservedTotalTokens - reservation.totalTokens
      consumedOutputCharacters := consumedOutputCharacters
      consumedTotalTokens := consumedTotalTokens }

end AgentChildBudgetReservations

/-! ## Runs -/

/-- A budget with what was handed out and what came back. -/
structure State where
  budget : AgentChildBudgetReservations
  issued : List AgentChildBudgetReservation
  released : List (AgentChildBudgetReservation × AgentChildBudgetUsage)

/-- The reservations that are not released. -/
def State.outstanding (state : State) : List AgentChildBudgetReservation :=
  state.issued.filter fun reservation => reservation.id ∈ state.budget.active

inductive Operation
  | reserve (concurrentSlots : ℚ)
  | release (reservation : AgentChildBudgetReservation) (consumed : AgentChildBudgetUsage)

/-- What a call that does not throw leaves. -/
inductive Called : Operation → State → State → Prop
  | refused {state : State} {concurrentSlots : ℚ} {budget : AgentChildBudgetReservations}
      (h : state.budget.reserve concurrentSlots = .ok (none, budget)) :
      Called (.reserve concurrentSlots) state { state with budget := budget }
  | reserved {state : State} {concurrentSlots : ℚ} {reservation : AgentChildBudgetReservation}
      {budget : AgentChildBudgetReservations}
      (h : state.budget.reserve concurrentSlots = .ok (some reservation, budget)) :
      Called (.reserve concurrentSlots) state
        { state with budget := budget, issued := reservation :: state.issued }
  | released {state : State} {reservation : AgentChildBudgetReservation} {consumed : AgentChildBudgetUsage}
      {budget : AgentChildBudgetReservations} (hissued : reservation ∈ state.issued)
      (h : state.budget.release reservation consumed = .ok budget) :
      Called (.release reservation consumed) state
        { state with budget := budget, released := (reservation, consumed) :: state.released }

/-- States after sequences of calls that do not throw. -/
inductive Runs (start : State) : List Operation → State → Prop
  | nil : Runs start [] start
  | snoc {operations : List Operation} {state state' : State} {operation : Operation}
      (h : Runs start operations state) (hcall : Called operation state state') :
      Runs start (operations ++ [operation]) state'

/-! ## Single calls -/

theorem childBudgetInteger_ok {value result : ℚ} {label : String} (h : childBudgetInteger value label = .ok result) :
    result = value ∧ 0 ≤ value := by
  obtain ⟨hvalid, h⟩ := guard_ok h
  simp only [Bool.or_eq_true, not_or, decide_eq_true_eq, not_lt] at hvalid
  exact ⟨(Except.ok.inj h).symm, hvalid.2⟩

theorem childBudgetSum_ok {left right sum : ℚ} {label : String} (h : childBudgetSum left right label = .ok sum) :
    sum = left + right :=
  (Except.ok.inj (guard_ok h).2).symm

/-- A share is at least 1 and fits into what remains. -/
theorem share_bounds {remaining concurrentSlots : ℚ} (hremaining : 1 ≤ remaining) (hslots : 1 ≤ concurrentSlots) :
    1 ≤ share remaining concurrentSlots ∧ share remaining concurrentSlots ≤ remaining := by
  refine ⟨le_max_left _ _, max_le hremaining ?_⟩
  calc (⌊remaining / concurrentSlots⌋ : ℚ) ≤ remaining / concurrentSlots := Int.floor_le _
    _ ≤ remaining := div_le_self (by linarith) hslots

/-- What a reservation takes. -/
structure Reserved (budget budget' : AgentChildBudgetReservations) (reservation : AgentChildBudgetReservation) :
    Prop where
  id : reservation.id = budget.nextId
  nextId : budget'.nextId = budget.nextId + 1
  active : budget'.active = reservation.id :: budget.active
  limits : budget'.limits = budget.limits
  tokens : 1 ≤ reservation.totalTokens ∧ reservation.totalTokens ≤ budget.remainingTotalTokens
  characters : 1 ≤ reservation.outputCharacters ∧ reservation.outputCharacters ≤ budget.remainingOutputCharacters
  reservedTokens : budget'.reservedTotalTokens = budget.reservedTotalTokens + reservation.totalTokens
  reservedCharacters : budget'.reservedOutputCharacters = budget.reservedOutputCharacters + reservation.outputCharacters
  consumedTokens : budget'.consumedTotalTokens = budget.consumedTotalTokens
  consumedCharacters : budget'.consumedOutputCharacters = budget.consumedOutputCharacters

variable {reservation : AgentChildBudgetReservation}

theorem reserve_some {budget budget' : AgentChildBudgetReservations} {concurrentSlots : ℚ}
    (h : budget.reserve concurrentSlots = .ok (some reservation, budget')) : Reserved budget budget' reservation := by
  obtain ⟨hslots, h⟩ := guard_ok h
  simp only [Bool.or_eq_true, not_or, decide_eq_true_eq, not_lt] at hslots
  by_cases hremaining : budget.remainingTotalTokens < 1 ∨ budget.remainingOutputCharacters < 1
  · rw [if_pos hremaining] at h
    cases h
  · rw [if_neg hremaining] at h
    rw [not_or, not_lt, not_lt] at hremaining
    obtain ⟨characters, hcharacters, h⟩ := bind_ok h
    obtain ⟨tokens, htokens, h⟩ := bind_ok h
    cases h
    have hshare := share_bounds hremaining.2 hslots.2
    exact
      { id := rfl
        nextId := rfl
        active := rfl
        limits := rfl
        tokens := share_bounds hremaining.1 hslots.2
        characters :=
          ⟨le_min (by norm_num [MAX_AGENT_CHILD_OUTPUT_CHARACTERS]) hshare.1, (min_le_right _ _).trans hshare.2⟩
        reservedTokens := childBudgetSum_ok htokens
        reservedCharacters := childBudgetSum_ok hcharacters
        consumedTokens := rfl
        consumedCharacters := rfl }

theorem reserve_none {budget budget' : AgentChildBudgetReservations} {concurrentSlots : ℚ}
    (h : budget.reserve concurrentSlots = .ok (none, budget')) : budget' = budget := by
  obtain ⟨-, h⟩ := guard_ok h
  by_cases hremaining : budget.remainingTotalTokens < 1 ∨ budget.remainingOutputCharacters < 1
  · rw [if_pos hremaining] at h
    cases h
    rfl
  · rw [if_neg hremaining] at h
    obtain ⟨characters, -, h⟩ := bind_ok h
    obtain ⟨tokens, -, h⟩ := bind_ok h
    cases h

/-- What a release gives back and what it spends. -/
structure Released (budget budget' : AgentChildBudgetReservations) (reservation : AgentChildBudgetReservation)
    (consumed : AgentChildBudgetUsage) : Prop where
  wasActive : reservation.id ∈ budget.active
  nextId : budget'.nextId = budget.nextId
  active : budget'.active = budget.active.erase reservation.id
  limits : budget'.limits = budget.limits
  tokens : consumed.totalTokens ≤ reservation.totalTokens
  characters : consumed.outputCharacters ≤ reservation.outputCharacters
  reservedTokens : budget'.reservedTotalTokens = budget.reservedTotalTokens - reservation.totalTokens
  reservedCharacters : budget'.reservedOutputCharacters = budget.reservedOutputCharacters - reservation.outputCharacters
  consumedTokens : budget'.consumedTotalTokens = budget.consumedTotalTokens + consumed.totalTokens
  consumedCharacters : budget'.consumedOutputCharacters = budget.consumedOutputCharacters + consumed.outputCharacters

theorem release_ok {budget budget' : AgentChildBudgetReservations} {consumed : AgentChildBudgetUsage}
    (h : budget.release reservation consumed = .ok budget') : Released budget budget' reservation consumed := by
  obtain ⟨hwithin, h⟩ := guard_ok h
  simp only [Bool.or_eq_true, not_or, decide_eq_true_eq, not_lt] at hwithin
  obtain ⟨hactive, h⟩ := guard_ok h
  obtain ⟨characters, hcharacters, h⟩ := bind_ok h
  obtain ⟨tokens, htokens, h⟩ := bind_ok h
  cases h
  exact
    { wasActive := not_not.mp hactive
      nextId := rfl
      active := rfl
      limits := rfl
      tokens := hwithin.1.1.1.2
      characters := hwithin.2
      reservedTokens := rfl
      reservedCharacters := rfl
      consumedTokens := childBudgetSum_ok htokens
      consumedCharacters := childBudgetSum_ok hcharacters }

/-! ## Sums -/

theorem outstanding_cons {issued : List AgentChildBudgetReservation} {active : List Nat}
    (hnew : ∀ other ∈ issued, other.id ≠ reservation.id) :
    ((reservation :: issued).filter fun other => other.id ∈ reservation.id :: active)
      = reservation :: issued.filter fun other => other.id ∈ active := by
  rw [filter_cons_of_pos (by simp)]
  refine congrArg _ (filter_congr fun other hother => ?_)
  simp [hnew other hother]

/-- A release takes its own amount out of the sum. -/
theorem sum_erase {issued : List AgentChildBudgetReservation} {active : List Nat}
    (amount : AgentChildBudgetReservation → ℚ) (hids : (issued.map (·.id)).Nodup)
    (hactive : active.Nodup) (hissued : reservation ∈ issued) (hmem : reservation.id ∈ active) :
    ((issued.filter fun other => other.id ∈ active.erase reservation.id).map amount).sum
      = ((issued.filter fun other => other.id ∈ active).map amount).sum - amount reservation := by
  induction issued with
  | nil => cases hissued
  | cons first issued ih =>
    rw [map_cons, nodup_cons] at hids
    rcases mem_cons.mp hissued with rfl | hissued
    · have hothers : (issued.filter fun other => other.id ∈ active.erase reservation.id)
          = issued.filter fun other => other.id ∈ active := by
        refine filter_congr fun other hother => ?_
        have hne : other.id ≠ reservation.id := fun hsame => hids.1 (hsame ▸ mem_map_of_mem hother)
        simp [mem_erase_of_ne hne]
      rw [filter_cons_of_neg (by simpa using hactive.not_mem_erase),
        filter_cons_of_pos (by simpa using hmem),
        hothers, map_cons, sum_cons]
      ring
    · have hne : first.id ≠ reservation.id := fun hsame => hids.1 (hsame ▸ mem_map_of_mem hissued)
      by_cases hfirst : first.id ∈ active
      · rw [filter_cons_of_pos (by simpa [mem_erase_of_ne hne] using hfirst),
          filter_cons_of_pos (by simpa using hfirst), map_cons, map_cons, sum_cons, sum_cons,
          ih hids.2 hissued]
        ring
      · rw [filter_cons_of_neg (by simpa [mem_erase_of_ne hne] using hfirst),
          filter_cons_of_neg (by simpa using hfirst), ih hids.2 hissued]

/-! ## Every run -/

/-- The counters agree with the history, and nothing is over-committed. -/
structure Kept (limits : AgentOrchestrationLimits) (consumed : AgentChildBudgetUsage) (state : State) : Prop where
  sameLimits : state.budget.limits = limits
  ids : (state.issued.map (·.id)).Nodup
  fresh : ∀ reservation ∈ state.issued, reservation.id < state.budget.nextId
  active : state.budget.active.Nodup
  activeIssued : ∀ id ∈ state.budget.active, id < state.budget.nextId
  reservedTokens : state.budget.reservedTotalTokens = (state.outstanding.map (·.totalTokens)).sum
  reservedCharacters : state.budget.reservedOutputCharacters = (state.outstanding.map (·.outputCharacters)).sum
  withinTokens : state.budget.consumedTotalTokens + state.budget.reservedTotalTokens ≤ limits.maxAggregateChildTokens
  withinCharacters : state.budget.consumedOutputCharacters + state.budget.reservedOutputCharacters
    ≤ limits.maxAggregateChildOutputCharacters
  consumedTokens : state.budget.consumedTotalTokens = consumed.totalTokens + (state.released.map (·.2.totalTokens)).sum
  consumedCharacters : state.budget.consumedOutputCharacters
    = consumed.outputCharacters + (state.released.map (·.2.outputCharacters)).sum
  releasedIssued : ∀ release ∈ state.released, release.1 ∈ state.issued ∧ release.1.id ∉ state.budget.active
  releasedOnce : (state.released.map (·.1.id)).Nodup

variable {limits : AgentOrchestrationLimits} {consumed : AgentChildBudgetUsage}

theorem Kept.create {budget : AgentChildBudgetReservations} (h : create limits consumed = .ok budget)
    (htokens : consumed.totalTokens ≤ limits.maxAggregateChildTokens)
    (hcharacters : consumed.outputCharacters ≤ limits.maxAggregateChildOutputCharacters) :
    Kept limits consumed ⟨budget, [], []⟩ := by
  obtain ⟨characters, hc, h⟩ := bind_ok h
  obtain ⟨tokens, ht, h⟩ := bind_ok h
  cases h
  obtain ⟨rfl, -⟩ := childBudgetInteger_ok hc
  obtain ⟨rfl, -⟩ := childBudgetInteger_ok ht
  exact
    { sameLimits := rfl
      ids := nodup_nil
      fresh := nofun
      active := nodup_nil
      activeIssued := nofun
      reservedTokens := rfl
      reservedCharacters := rfl
      withinTokens := by simpa using htokens
      withinCharacters := by simpa using hcharacters
      consumedTokens := (add_zero _).symm
      consumedCharacters := (add_zero _).symm
      releasedIssued := nofun
      releasedOnce := nodup_nil }

theorem Kept.reserved {state : State} (h : Kept limits consumed state)
    {budget : AgentChildBudgetReservations} (hreserved : Reserved state.budget budget reservation) :
    Kept limits consumed { state with budget := budget, issued := reservation :: state.issued } := by
  have hnew : ∀ other ∈ state.issued, other.id ≠ reservation.id := by
    intro other hother hsame
    have hlt := h.fresh other hother
    rw [hsame, hreserved.id] at hlt
    exact lt_irrefl _ hlt
  have houtstanding : State.outstanding { state with budget := budget, issued := reservation :: state.issued }
      = reservation :: state.outstanding := by
    unfold State.outstanding
    rw [hreserved.active]
    exact outstanding_cons hnew
  have htokens := hreserved.tokens.2
  have hcharacters := hreserved.characters.2
  rw [AgentChildBudgetReservations.remainingTotalTokens, h.sameLimits] at htokens
  rw [AgentChildBudgetReservations.remainingOutputCharacters, h.sameLimits] at hcharacters
  exact
    { sameLimits := hreserved.limits.trans h.sameLimits
      ids := by
        rw [map_cons, nodup_cons]
        refine ⟨fun hmem => ?_, h.ids⟩
        obtain ⟨other, hother, hsame⟩ := mem_map.mp hmem
        exact hnew other hother hsame
      fresh := by
        rw [hreserved.nextId]
        refine forall_mem_cons.mpr ⟨?_, fun other hother => Nat.lt_succ_of_lt (h.fresh other hother)⟩
        rw [hreserved.id]
        exact Nat.lt_succ_self _
      active := by
        rw [hreserved.active, nodup_cons]
        refine ⟨fun hmem => ?_, h.active⟩
        have hlt := h.activeIssued _ hmem
        rw [hreserved.id] at hlt
        exact lt_irrefl _ hlt
      activeIssued := by
        rw [hreserved.active, hreserved.nextId]
        refine forall_mem_cons.mpr ⟨?_, fun id hid => Nat.lt_succ_of_lt (h.activeIssued id hid)⟩
        rw [hreserved.id]
        exact Nat.lt_succ_self _
      reservedTokens := by
        rw [houtstanding, map_cons, sum_cons, ← h.reservedTokens, hreserved.reservedTokens, add_comm]
      reservedCharacters := by
        rw [houtstanding, map_cons, sum_cons, ← h.reservedCharacters, hreserved.reservedCharacters, add_comm]
      withinTokens := by
        change budget.consumedTotalTokens + budget.reservedTotalTokens ≤ _
        rw [hreserved.consumedTokens, hreserved.reservedTokens]
        linarith
      withinCharacters := by
        change budget.consumedOutputCharacters + budget.reservedOutputCharacters ≤ _
        rw [hreserved.consumedCharacters, hreserved.reservedCharacters]
        linarith
      consumedTokens := hreserved.consumedTokens.trans h.consumedTokens
      consumedCharacters := hreserved.consumedCharacters.trans h.consumedCharacters
      releasedIssued := by
        intro release hrelease
        obtain ⟨hissued, hinactive⟩ := h.releasedIssued release hrelease
        refine ⟨mem_cons_of_mem _ hissued, ?_⟩
        rw [hreserved.active, mem_cons, not_or]
        exact ⟨hnew _ hissued, hinactive⟩
      releasedOnce := h.releasedOnce }

theorem Kept.released {state : State} (h : Kept limits consumed state) {budget : AgentChildBudgetReservations}
    {usage : AgentChildBudgetUsage} (hissued : reservation ∈ state.issued)
    (hreleased : Released state.budget budget reservation usage) :
    Kept limits consumed { state with budget := budget, released := (reservation, usage) :: state.released } := by
  have hsum (amount : AgentChildBudgetReservation → ℚ) :
      ((State.outstanding { state with
          budget := budget, released := (reservation, usage) :: state.released }).map amount).sum
        = (state.outstanding.map amount).sum - amount reservation := by
    unfold State.outstanding
    rw [hreleased.active]
    exact sum_erase amount h.ids h.active hissued hreleased.wasActive
  have hinactive : reservation.id ∉ budget.active := by
    rw [hreleased.active]
    exact h.active.not_mem_erase
  have htokens := hreleased.tokens
  have hcharacters := hreleased.characters
  have hwithinTokens := h.withinTokens
  have hwithinCharacters := h.withinCharacters
  exact
    { sameLimits := hreleased.limits.trans h.sameLimits
      ids := h.ids
      fresh := hreleased.nextId ▸ h.fresh
      active := hreleased.active ▸ h.active.erase _
      activeIssued := by
        intro id hid
        rw [hreleased.nextId]
        rw [hreleased.active] at hid
        exact h.activeIssued id (mem_of_mem_erase hid)
      reservedTokens := by rw [hsum, ← h.reservedTokens, hreleased.reservedTokens]
      reservedCharacters := by rw [hsum, ← h.reservedCharacters, hreleased.reservedCharacters]
      withinTokens := by
        change budget.consumedTotalTokens + budget.reservedTotalTokens ≤ _
        rw [hreleased.consumedTokens, hreleased.reservedTokens]
        linarith
      withinCharacters := by
        change budget.consumedOutputCharacters + budget.reservedOutputCharacters ≤ _
        rw [hreleased.consumedCharacters, hreleased.reservedCharacters]
        linarith
      consumedTokens := by
        change budget.consumedTotalTokens = _
        rw [hreleased.consumedTokens, h.consumedTokens, map_cons, sum_cons]
        ring
      consumedCharacters := by
        change budget.consumedOutputCharacters = _
        rw [hreleased.consumedCharacters, h.consumedCharacters, map_cons, sum_cons]
        ring
      releasedIssued := by
        refine forall_mem_cons.mpr ⟨⟨hissued, hinactive⟩, fun release hrelease => ?_⟩
        obtain ⟨hmem, hnot⟩ := h.releasedIssued release hrelease
        refine ⟨hmem, fun hactive => hnot ?_⟩
        rw [hreleased.active] at hactive
        exact mem_of_mem_erase hactive
      releasedOnce := by
        rw [map_cons, nodup_cons]
        refine ⟨fun hmem => ?_, h.releasedOnce⟩
        obtain ⟨release, hrelease, hsame⟩ := mem_map.mp hmem
        exact (h.releasedIssued release hrelease).2 (hsame ▸ hreleased.wasActive) }

theorem Kept.called {operation : Operation} {state state' : State} (h : Kept limits consumed state)
    (hcall : Called operation state state') : Kept limits consumed state' := by
  cases hcall with
  | refused hreserve =>
    rw [reserve_none hreserve]
    exact h
  | reserved hreserve => exact h.reserved (reserve_some hreserve)
  | released hissued hrelease => exact h.released hissued (release_ok hrelease)

theorem Kept.runs {start state : State} {operations : List Operation} (hstart : Kept limits consumed start)
    (hruns : Runs start operations state) : Kept limits consumed state := by
  induction hruns with
  | nil => exact hstart
  | snoc _ hcall ih => exact ih.called hcall

/-- **Budgets of children.** What was consumed and what is reserved never exceed the limits, a reservation is released
at most once, and what was consumed is what the start and the releases say. -/
theorem child_budgets_kept {budget : AgentChildBudgetReservations} (hcreate : create limits consumed = .ok budget)
    (htokens : consumed.totalTokens ≤ limits.maxAggregateChildTokens)
    (hcharacters : consumed.outputCharacters ≤ limits.maxAggregateChildOutputCharacters) {operations : List Operation}
    {state : State} (hruns : Runs ⟨budget, [], []⟩ operations state) :
    state.budget.consumedTotalTokens + (state.outstanding.map (·.totalTokens)).sum ≤ limits.maxAggregateChildTokens
    ∧ state.budget.consumedOutputCharacters + (state.outstanding.map (·.outputCharacters)).sum
      ≤ limits.maxAggregateChildOutputCharacters
    ∧ (state.released.map (·.1.id)).Nodup
    ∧ (∀ reservation usage budget', (reservation, usage) ∈ state.released →
      ∀ again, state.budget.release reservation again ≠ .ok budget')
    ∧ state.budget.consumedTotalTokens = consumed.totalTokens + (state.released.map (·.2.totalTokens)).sum
    ∧ state.budget.consumedOutputCharacters
      = consumed.outputCharacters + (state.released.map (·.2.outputCharacters)).sum := by
  have hkept := (Kept.create hcreate htokens hcharacters).runs hruns
  refine ⟨hkept.reservedTokens ▸ hkept.withinTokens, hkept.reservedCharacters ▸ hkept.withinCharacters,
    hkept.releasedOnce, ?_, hkept.consumedTokens, hkept.consumedCharacters⟩
  intro reservation usage budget' hreleased again hagain
  exact (hkept.releasedIssued _ hreleased).2 (release_ok hagain).wasActive

/-- The defaults. -/
def exampleLimits : AgentOrchestrationLimits := ⟨2048, 12000, 96000⟩

def exampleUsage : AgentChildBudgetUsage := ⟨0, 100⟩

def exampleBudget : AgentChildBudgetReservations := ⟨exampleLimits, [], 0, 100, 1, 0, 0⟩

/-- One of two children. -/
def exampleReservation : AgentChildBudgetReservation := ⟨1, 48000, 5950, 2048⟩

def reservedBudget : AgentChildBudgetReservations := ⟨exampleLimits, [1], 0, 100, 2, 48000, 5950⟩

theorem create_example : create exampleLimits exampleUsage = .ok exampleBudget := by rfl

theorem childBudgetSum_eq {left right sum : ℚ} (label : String) (hsum : left + right = sum)
    (h : isSafeInteger sum = true ∧ 0 ≤ sum) : childBudgetSum left right label = .ok sum := by
  unfold childBudgetSum
  rw [hsum]
  exact if_neg (by simp [h.1, h.2])

theorem reserve_example : exampleBudget.reserve 2 = .ok (some exampleReservation, reservedBudget) := by
  have htokens : share exampleBudget.remainingTotalTokens 2 = 5950 := by
    norm_num [share, AgentChildBudgetReservations.remainingTotalTokens, exampleBudget, exampleLimits]
  have hcharacters : share exampleBudget.remainingOutputCharacters 2 = 48000 := by
    norm_num [share, AgentChildBudgetReservations.remainingOutputCharacters, exampleBudget, exampleLimits]
  have hsmall : min MAX_AGENT_CHILD_OUTPUT_CHARACTERS 48000 = 48000 := by
    norm_num [MAX_AGENT_CHILD_OUTPUT_CHARACTERS]
  have hoften : min exampleBudget.limits.childMaxOutputTokens 5950 = 2048 := by
    norm_num [exampleBudget, exampleLimits]
  unfold AgentChildBudgetReservations.reserve
  rw [htokens, hcharacters, if_neg (by decide +kernel), if_neg (by decide +kernel), hsmall, hoften]
  dsimp only
  rw [childBudgetSum_eq _ (show exampleBudget.reservedOutputCharacters + 48000 = 48000 from zero_add _)
    (by decide +kernel), childBudgetSum_eq _ (show exampleBudget.reservedTotalTokens + 5950 = 5950 from zero_add _)
    (by decide +kernel)]
  rfl

theorem release_example :
    reservedBudget.release exampleReservation ⟨40000, 5000⟩ = .ok ⟨exampleLimits, [], 40000, 5100, 2, 0, 0⟩ := by
  have hcharacters : reservedBudget.reservedOutputCharacters - exampleReservation.outputCharacters = 0 := sub_self _
  have htokens : reservedBudget.reservedTotalTokens - exampleReservation.totalTokens = 0 := sub_self _
  unfold AgentChildBudgetReservations.release
  rw [if_neg (by decide +kernel), if_neg (by decide +kernel), hcharacters, htokens,
    childBudgetSum_eq _ (show reservedBudget.consumedOutputCharacters + 40000 = 40000 from zero_add _)
      (by decide +kernel),
    childBudgetSum_eq _ (show reservedBudget.consumedTotalTokens + 5000 = 5100 by norm_num [reservedBudget])
      (by decide +kernel)]
  rfl

theorem child_budgets_kept_example :
    ∃ state operations, Runs ⟨exampleBudget, [], []⟩ operations state
      ∧ state.released = [(exampleReservation, ⟨40000, 5000⟩)]
      ∧ state.budget.consumedTotalTokens + (state.outstanding.map (·.totalTokens)).sum
        ≤ exampleLimits.maxAggregateChildTokens
      ∧ (∀ again budget', state.budget.release exampleReservation again ≠ .ok budget')
      ∧ state.budget.consumedTotalTokens = exampleUsage.totalTokens + 5000
      ∧ state.budget.consumedOutputCharacters = exampleUsage.outputCharacters + 40000 := by
  have hreserved : Called (.reserve 2) ⟨exampleBudget, [], []⟩ ⟨reservedBudget, [exampleReservation], []⟩ :=
    .reserved reserve_example
  have hreleased : Called (.release exampleReservation ⟨40000, 5000⟩) ⟨reservedBudget, [exampleReservation], []⟩
      ⟨⟨exampleLimits, [], 40000, 5100, 2, 0, 0⟩, [exampleReservation], [(exampleReservation, ⟨40000, 5000⟩)]⟩ :=
    .released mem_cons_self release_example
  have hruns := (Runs.nil.snoc hreserved).snoc hreleased
  have htokens : exampleUsage.totalTokens ≤ exampleLimits.maxAggregateChildTokens := by
    norm_num [exampleUsage, exampleLimits]
  have hcharacters : exampleUsage.outputCharacters ≤ exampleLimits.maxAggregateChildOutputCharacters := by
    norm_num [exampleUsage, exampleLimits]
  obtain ⟨hwithin, -, -, honce, htotal, houtput⟩ := child_budgets_kept create_example htokens hcharacters hruns
  refine ⟨_, _, hruns, rfl, hwithin, fun again budget' => honce _ _ budget' (.head _) again, htotal.trans ?_,
    houtput.trans ?_⟩
  · rw [map_singleton, sum_singleton]
  · rw [map_singleton, sum_singleton]

end TsEpistle.Agents.ChildBudgets
