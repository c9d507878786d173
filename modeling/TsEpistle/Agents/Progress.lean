import TsEpistle.Agents.Quotas

/-! The moves of a run that no settlement waits for. Its reservation and the day of that
are in order in every reachable state, so its terminalization by maintenance or by a claim
commits just where what it has recorded can be charged; the other moves always commit. -/

namespace TsEpistle.Agents
open Library Checked List Option

variable {codec : Codec} {s : State} {op : Op}

/-! ## Reservations and their days -/

/-- A reservation is in order, and its day has a row. -/
structure Reservation.Booked (reservation : Reservation) (daily : List DailyRow) : Prop where
  reserved : reservation.reserved.safe = true
  unsettled : reservation.status = .reserved → reservation.reconciledAt = none
  settled : reservation.status ≠ .reserved → reservation.consumed.safe = true
  released : reservation.status = .settled .released → reservation.consumed = .zero
  dated : (dailyRow daily reservation.ownerId reservation.day).isSome = true

/-- The numbers of every day can be read. -/
def DailyReadable (daily : List DailyRow) : Prop :=
  ∀ ownerId day row, dailyRow daily ownerId day = some row → row.reserved.safe = true ∧ row.consumed.safe = true

structure Booked (db : Database) : Prop where
  balanced : Balanced db.daily db.runs
  readable : DailyReadable db.daily
  reservations : ∀ run ∈ db.runs, ∀ reservation, run.reservation = some reservation → reservation.Booked db.daily

section
variable {daily daily' : List DailyRow}

theorem dailyRow_setDaily_isSome (row old : DailyRow)
    (hold : dailyRow daily row.ownerId row.day = some old) {ownerId : Int} {day : Day}
    (h : (dailyRow daily ownerId day).isSome = true) :
    (dailyRow (setDaily daily row) ownerId day).isSome = true := by
  rw [dailyRow_setDaily row hold]
  split
  · rfl
  · exact h

theorem DailyReadable.setDaily {row old : DailyRow} (h : DailyReadable daily)
    (hold : dailyRow daily row.ownerId row.day = some old)
    (hrow : row.reserved.safe = true ∧ row.consumed.safe = true) : DailyReadable (setDaily daily row) := by
  intro ownerId day row' hrow'
  rw [dailyRow_setDaily row hold] at hrow'
  split at hrow'
  · cases hrow'
    exact hrow
  · exact h ownerId day row' hrow'

theorem Reservation.Booked.later {reservation : Reservation} (h : reservation.Booked daily)
    (hdated : ∀ ownerId day, (dailyRow daily ownerId day).isSome = true →
      (dailyRow daily' ownerId day).isSome = true) : reservation.Booked daily' :=
  ⟨h.reserved, h.unsettled, h.settled, h.released, hdated _ _ h.dated⟩

variable {before after : Option Reservation}

/-- A write keeps the days there are. -/
theorem QuotaStep.dated {settling : Prop} (h : QuotaStep settling before daily after daily') {ownerId : Int} {day : Day}
    (hday : (dailyRow daily ownerId day).isSome = true) : (dailyRow daily' ownerId day).isSome = true := by
  cases h with
  | same | touched => exact hday
  | raised reservation row additional expiresAt heartbeatAt hfound hreserved hrow =>
    obtain ⟨howner, hdate⟩ := Prod.mk.inj (Table.get_mem DailyRow.key hrow).2
    rw [← howner, ← hdate] at hrow
    exact dailyRow_setDaily_isSome _ row (by exact hrow) hday
  | charged reservation row consumed status now hsettling hfound hreserved hpending hreleased hrow =>
    obtain ⟨howner, hdate⟩ := Prod.mk.inj (Table.get_mem DailyRow.key hrow).2
    rw [← howner, ← hdate] at hrow
    exact dailyRow_setDaily_isSome _ row (by exact hrow) hday

theorem QuotaStep.readable {settling : Prop} (h : QuotaStep settling before daily after daily')
    (hreadable : DailyReadable daily) : DailyReadable daily' := by
  cases h with
  | same | touched => exact hreadable
  | raised reservation row additional expiresAt heartbeatAt hfound hreserved hrow hsafe =>
    have hold := hreadable _ _ row hrow
    obtain ⟨howner, hdate⟩ := Prod.mk.inj (Table.get_mem DailyRow.key hrow).2
    rw [← howner, ← hdate] at hrow
    exact hreadable.setDaily hrow ⟨hsafe.2, hold.2⟩
  | charged reservation row consumed status now hsettling hfound hreserved hpending hreleased hrow hheld
      hsafe =>
    have hold := hreadable _ _ row hrow
    obtain ⟨howner, hdate⟩ := Prod.mk.inj (Table.get_mem DailyRow.key hrow).2
    rw [← howner, ← hdate] at hrow
    refine hreadable.setDaily hrow ⟨?_, hsafe⟩
    have hreserved := Amount.safe_iff.mp hold.1
    rw [Amount.safe_iff]
    dsimp only
    omega

theorem QuotaStep.booked {settling : Prop} (h : QuotaStep settling before daily after daily')
    (hbefore : ∀ reservation, before = some reservation → reservation.Booked daily) :
    ∀ reservation, after = some reservation → reservation.Booked daily' := by
  intro reservation' hafter
  have hdated : ∀ ownerId day, (dailyRow daily ownerId day).isSome = true →
      (dailyRow daily' ownerId day).isSome = true := fun _ _ => h.dated
  cases h with
  | same => exact hbefore reservation' hafter
  | touched reservation consumed expiresAt heartbeatAt hfound hreserved hpending =>
    have hbooked := hbefore reservation hfound
    cases hafter
    refine ⟨hbooked.reserved, hbooked.unsettled, fun hne => absurd hreserved hne, ?_, hbooked.dated⟩
    intro hreleased
    rw [show reservation.status = .settled .released from hreleased] at hreserved
    cases hreserved
  | raised reservation row additional expiresAt heartbeatAt hfound hreserved hrow hsafe =>
    have hbooked := (hbefore reservation hfound).later hdated
    cases hafter
    refine ⟨hsafe.1, hbooked.unsettled, fun hne => absurd hreserved hne, ?_, hbooked.dated⟩
    intro hreleased
    rw [show reservation.status = .settled .released from hreleased] at hreserved
    cases hreserved
  | charged reservation row consumed status now hsettling hfound hreserved hpending hreleased hrow hheld
      hsafe =>
    have hbooked := (hbefore reservation hfound).later hdated
    cases hafter
    refine ⟨hbooked.reserved, ?_, fun _ => ?_, ?_, hbooked.dated⟩
    · intro hstatus
      cases hstatus
    · rw [Amount.safe_iff] at hsafe ⊢
      change consumed.tokens ≤ maxSafeInteger ∧ consumed.costMicros ≤ maxSafeInteger
      dsimp only at hsafe
      omega
    · intro hstatus
      exact hreleased (ReservationStatus.settled.inj hstatus)

theorem insertDaily_isSome {ownerId ownerId' : Int} {day day' : Day}
    (h : (dailyRow daily ownerId' day').isSome = true) :
    (dailyRow (insertDaily daily ownerId day) ownerId' day').isSome = true := by
  unfold insertDaily
  split
  · exact h
  · rw [dailyRow, Table.get_append]
    obtain ⟨row, hrow⟩ := isSome_iff_exists.mp h
    rw [show Table.get DailyRow.key daily (ownerId', day') = some row from hrow]
    rfl

theorem insertDaily_readable {ownerId : Int} {day : Day} (h : DailyReadable daily) :
    DailyReadable (insertDaily daily ownerId day) := by
  unfold insertDaily
  split
  · exact h
  · intro ownerId' day' row hrow
    rw [dailyRow, Table.get_append, or_eq_some_iff] at hrow
    rcases hrow with hrow | ⟨-, hrow⟩
    · exact h ownerId' day' row hrow
    · obtain rfl := mem_singleton.mp (Table.get_mem DailyRow.key hrow).1
      exact ⟨rfl, rfl⟩

theorem insertDaily_day (daily : List DailyRow) (ownerId : Int) (day : Day) :
    (dailyRow (insertDaily daily ownerId day) ownerId day).isSome = true := by
  unfold insertDaily
  split
  · rename_i row hrow
    rw [hrow]
    rfl
  · rename_i hnone
    rw [dailyRow, Table.get_append, show Table.get DailyRow.key daily (ownerId, day) = none from hnone]
    simp [Table.get, DailyRow.key]

end

/-- **Step.** -/
theorem DbStep.booked {o : Origin} {db db' : Database} (h : DbStep o db db')
    (hunique : (db.runs.map Run.id).Nodup) (hb : Booked db) : Booked db' := by
  have hbalanced := h.balanced hunique hb.balanced
  cases h with
  | row run run' daily' hrun hstep =>
    have hquota := hstep.quota
    refine ⟨hbalanced, hquota.readable hb.readable, fun r hr reservation hreservation => ?_⟩
    rcases mem_put hr with rfl | ⟨hr, -⟩
    · exact hquota.booked (hb.reservations run (run_mem hrun).1) reservation hreservation
    · exact (hb.reservations r hr reservation hreservation).later fun _ _ => hquota.dated
  | admitted input reservation daily' hsession hnew hreserve =>
    obtain ⟨howner, hreserved, hconsumed, hday, hreconciled, hquota⟩ := reserveQuota_ok hreserve
    have hdated : ∀ ownerId day, (dailyRow db.daily ownerId day).isSome = true →
        (dailyRow daily' ownerId day).isSome = true :=
      fun ownerId day hday => hquota.dated (insertDaily_isSome hday)
    refine ⟨hbalanced, hquota.readable (insertDaily_readable hb.readable), ?_⟩
    intro r hr held hheld
    rcases mem_append.mp hr with hr | hr
    · exact (hb.reservations r hr held hheld).later hdated
    · obtain rfl := mem_singleton.mp hr
      refine hquota.booked (fun empty hempty => ?_) held hheld
      cases hempty
      refine ⟨rfl, fun _ => hreconciled, fun hne => absurd hreserved hne, fun _ => hconsumed, ?_⟩
      rw [howner, hday]
      exact insertDaily_day db.daily input.ownerId (dayKey input.now)
  | requested p sessions now hp =>
    exact ⟨hbalanced, hb.readable, Table.forall_updateWhere hb.reservations fun _ _ _ hrun => hrun⟩
  | credited ownerId now daily' hreset =>
    rcases resetAgentDailyTokenQuota_ok hreset with rfl | ⟨row, credit, hrow, rfl⟩
    · exact ⟨hbalanced, hb.readable, hb.reservations⟩
    · refine ⟨hbalanced, hb.readable.setDaily hrow (hb.readable _ _ row hrow), ?_⟩
      intro run hrun reservation hreservation
      exact (hb.reservations run hrun reservation hreservation).later
        fun _ _ hday => dailyRow_setDaily_isSome _ row (by exact hrow) hday
  | proposed => exact ⟨hbalanced, hb.readable, hb.reservations⟩

theorem Steps.booked {o : Origin} {db db' : Database} (h : Steps o db db')
    (hunique : (db.runs.map Run.id).Nodup) (hb : Booked db) : Booked db' := by
  induction h with
  | refl => exact hb
  | tail hsteps hstep ih => exact hstep.booked (Steps.ids hsteps hunique) ih

theorem Booked.of_reachable {users : List Int} {sessions : List AgentSession} {clock : Time}
    (h : (coordinator codec).Reachable (.initial users sessions clock) s) : Booked s.db := by
  refine h.invariant_under (J := fun s => Booked s.db) (Claiming.initial users sessions clock)
    (fun _ _ hop hs => hs.exec hop) ?_ ?_
  · refine ⟨.initial, ?_, ?_⟩
    · intro ownerId day row hrow
      cases hrow
    · intro run hrun
      cases hrun
  · exact fun _ _ hop hs hb => Steps.booked (exec_steps hs hop) hs.unique hb

/-- What a run still reserves is part of its day. -/
theorem Booked.held {db : Database} (hb : Booked db) {run : Run} (hrun : run ∈ db.runs) {reservation : Reservation}
    (hreservation : run.reservation = some reservation) (hreserved : reservation.status = .reserved) : ∃ row,
    dailyRow db.daily reservation.ownerId reservation.day = some row ∧ row.reserved.safe = true ∧
    reservation.reserved.Le row.reserved := by
  obtain ⟨row, hrow⟩ := isSome_iff_exists.mp (hb.reservations run hrun reservation hreservation).dated
  have hle : ∀ c, reservation.reserved.at c ≤ row.reserved.at c := by
    intro c
    have hsum := hb.balanced.reserved reservation.ownerId reservation.day c
    rw [hrow, elim_some] at hsum
    rw [hsum]
    have hshare : Reservation.share Reservation.held reservation.ownerId reservation.day c run.reservation
        = reservation.reserved.at c := by
      rw [hreservation, share_eq, if_pos ⟨rfl, rfl⟩, Reservation.held, if_pos hreserved]
    rw [← hshare]
    exact single_le_sum (fun _ _ => Nat.zero_le _) _
      (List.mem_map_of_mem (f := fun run =>
        Reservation.share Reservation.held reservation.ownerId reservation.day c run.reservation) hrun)
  exact ⟨row, hrow, (hb.readable _ _ row hrow).1, hle .tokens, hle .costMicros⟩

/-! ## Settlements that succeed -/

theorem nonNegativeInteger_natCast {n : Nat} (h : n ≤ maxSafeInteger) (name : String) :
    nonNegativeInteger n name = .ok n := by
  unfold nonNegativeInteger
  rw [if_pos ⟨Int.natCast_nonneg n, by exact_mod_cast h⟩, Int.toNat_natCast]

theorem storedQuotaInteger_of_le {n : Nat} (h : n ≤ maxSafeInteger) (name : String) :
    storedQuotaInteger n name = .ok n :=
  if_pos h

theorem storedAmount_of_safe {amount : Amount} (h : amount.safe = true) (name : String) :
    storedAmount amount name = .ok amount := by
  obtain ⟨htokens, hcost⟩ := Amount.safe_iff.mp h
  unfold storedAmount
  rw [storedQuotaInteger_of_le htokens, storedQuotaInteger_of_le hcost]
  rfl

theorem settledDaily_of_safe {daily : List DailyRow} {ownerId : Int} {day : Day} {row : DailyRow}
    {reserved consumed : Amount} (hrow : dailyRow daily ownerId day = some row)
    (hreserved : row.reserved.safe = true) (hheld : reserved.Le row.reserved)
    (hsum : Amount.safe ⟨row.consumed.tokens + consumed.tokens, row.consumed.costMicros + consumed.costMicros⟩ = true) :
    ∃ daily', settledDaily daily ownerId day reserved consumed = .ok daily' := by
  obtain ⟨hreservedTokens, hreservedCost⟩ := Amount.safe_iff.mp hreserved
  obtain ⟨hsumTokens, hsumCost⟩ := Amount.safe_iff.mp hsum
  have hcheck : check (reserved.tokens ≤ row.reserved.tokens
      && reserved.costMicros ≤ row.reserved.costMicros)
      "AGENT_QUOTA_CORRUPT" "Agent daily quota counters are inconsistent" 500 = .ok () := by
    unfold check
    rw [if_pos]
    simpa using ⟨hheld.tokens, hheld.costMicros⟩
  unfold settledDaily
  rw [hrow]
  dsimp only at hsumTokens hsumCost ⊢
  rw [storedQuotaInteger_of_le hreservedTokens, storedQuotaInteger_of_le (by omega),
    storedQuotaInteger_of_le hreservedCost, storedQuotaInteger_of_le (by omega)]
  refine ⟨setDaily daily { row with
    reserved := ⟨row.reserved.tokens - reserved.tokens, row.reserved.costMicros - reserved.costMicros⟩
    consumed := ⟨row.consumed.tokens + consumed.tokens, row.consumed.costMicros + consumed.costMicros⟩ },
    ?_⟩
  change (check _ _ _ _ >>= _) = _
  rw [hcheck]
  unfold storedQuotaDifference storedQuotaSum
  rw [if_pos hheld.tokens, if_pos hsumTokens, if_pos hheld.costMicros, if_pos hsumCost]
  rfl

/-- No settlement waits for the run, and what it reserves is part of its day. -/
structure Run.Settleable (run : Run) (daily : List DailyRow) : Prop where
  unpending : run.pendingQuotaSettlement = false
  booked : ∀ reservation, run.reservationOf run.ownerId = some reservation → reservation.Booked daily
  held : ∀ reservation, run.reservationOf run.ownerId = some reservation →
    reservation.status = .reserved → ∃ row,
      dailyRow daily reservation.ownerId reservation.day = some row ∧ row.reserved.safe = true
        ∧ reservation.reserved.Le row.reserved

/-- What the run has recorded can be read, and what its day has consumed stays a safe integer with
it. -/
def Run.Chargeable (run : Run) (daily : List DailyRow) : Prop :=
  ∃ charge, run.charge = .ok charge ∧ ∀ reservation row,
    run.reservationOf run.ownerId = some reservation → reservation.status = .reserved →
    dailyRow daily reservation.ownerId reservation.day = some row →
    Amount.safe ⟨row.consumed.tokens + charge.tokens, row.consumed.costMicros + charge.costMicros⟩ = true

theorem Booked.settleable {db : Database} (hb : Booked db) {run : Run} (hrun : run ∈ db.runs)
    (hunpending : run.pendingQuotaSettlement = false) : run.Settleable db.daily where
  unpending := hunpending
  booked reservation hfound := hb.reservations run hrun reservation (reservationOf_some hfound).1
  held _ hfound hreserved := hb.held hrun (reservationOf_some hfound).1 hreserved

section
variable {run : Run} {daily : List DailyRow}

theorem Run.Settleable.consumed (h : run.Settleable daily) {reservation : Reservation}
    (hfound : run.reservationOf run.ownerId = some reservation) :
    reservation.consumed.safe = true ∧ (reservation.status = .reserved → reservation.consumed = .zero) := by
  have hbooked := h.booked reservation hfound
  by_cases hreserved : reservation.status = .reserved
  · have hunpending := h.unpending
    rw [Run.pendingQuotaSettlement, hfound] at hunpending
    simp only [any_some, hreserved, hbooked.unsettled hreserved, decide_true, isNone_none,
      Bool.and_true, Bool.true_and] at hunpending
    have hzero := Amount.positive_eq_false_iff.mp hunpending
    rw [hzero]
    exact ⟨rfl, fun _ => rfl⟩
  · exact ⟨hbooked.settled hreserved, fun h => absurd h hreserved⟩

/-- Nothing is intended for the run. -/
theorem Run.Settleable.intent (h : run.Settleable daily) : ∃ intent, readSettlementIntent run run.ownerId = .ok intent ∧
    intent.getD .zero = .zero ∧ positiveSettlement intent = false := by
  unfold readSettlementIntent
  cases hfound : run.reservationOf run.ownerId with
  | none => exact ⟨none, rfl, rfl, rfl⟩
  | some reservation =>
    obtain ⟨hsafe, hzero⟩ := h.consumed hfound
    dsimp only
    rw [storedAmount_of_safe hsafe]
    by_cases hreserved : reservation.status = .reserved
    · refine ⟨some reservation.consumed, ?_, hzero hreserved, ?_⟩
      · have hunsettled := (h.booked reservation hfound).unsettled hreserved
        simp [bind, Except.bind, hreserved, hunsettled, pure, Except.pure]
      · rw [hzero hreserved]
        rfl
    · refine ⟨none, ?_, rfl, rfl⟩
      simp [bind, Except.bind, hreserved, pure, Except.pure]

/-- The settlement of a charge that fits the day. -/
theorem Run.Settleable.reconciles (h : run.Settleable daily) {charge : Amount} {status : SettledStatus}
    (hsafe : charge.safe = true) (hstatus : status = .released → charge = .zero)
    (hfits : ∀ reservation row, run.reservationOf run.ownerId = some reservation →
      reservation.status = .reserved → dailyRow daily reservation.ownerId reservation.day = some row →
      Amount.safe ⟨row.consumed.tokens + charge.tokens, row.consumed.costMicros + charge.costMicros⟩ = true)
    (now : Time) :
    ∃ answer, reconcileAgentRunQuota run daily run.ownerId charge status now ⟨true, true⟩ = .ok answer := by
  obtain ⟨htokens, hcost⟩ := Amount.safe_iff.mp hsafe
  unfold reconcileAgentRunQuota
  rw [nonNegativeInteger_natCast htokens, nonNegativeInteger_natCast hcost]
  cases hfound : run.reservationOf run.ownerId with
  | none => exact ⟨_, rfl⟩
  | some reservation =>
    have hbooked := h.booked reservation hfound
    obtain ⟨hconsumed, hzero⟩ := h.consumed hfound
    dsimp only [bind, Except.bind]
    rw [storedAmount_of_safe hbooked.reserved, storedAmount_of_safe hconsumed]
    dsimp only
    have hsound : ¬ (reservation.status = .settled .released && reservation.consumed.positive) = true := by
      simp only [Bool.and_eq_true, decide_eq_true_eq, not_and, Bool.not_eq_true]
      intro hreleased
      rw [hbooked.released hreleased]
      rfl
    rw [if_neg hsound]
    cases hreserved : reservation.status with
    | settled settled =>
      dsimp only
      rw [if_pos (by simp)]
      exact ⟨_, rfl⟩
    | reserved =>
      obtain ⟨row, hrow, hreadable, hheld⟩ := h.held reservation hfound hreserved
      have hday : reservation.ownerId = run.ownerId := (reservationOf_some hfound).2
      obtain ⟨daily', hdaily⟩ := settledDaily_of_safe hrow hreadable hheld
        (hfits reservation row hfound hreserved hrow)
      have hcheck : checkSettlement reservation.consumed charge status = .ok () := by
        unfold checkSettlement
        rw [hzero hreserved, if_neg, if_neg, if_neg]
        · simp [Amount.zero]
        · simp [Amount.zero, Amount.positive]
        · simp only [Bool.and_eq_true, decide_eq_true_eq, not_and, Bool.not_eq_true]
          intro hreleased
          rw [hstatus hreleased]
          rfl
      dsimp only
      rw [if_neg (by simp [hbooked.unsettled hreserved]), hcheck, ← hday, hdaily]
      exact ⟨_, rfl⟩

theorem persistedCharge_safe {usage : Option AgentDispatchAccountingState} {charge : Amount}
    (h : persistedCharge usage = .ok charge) : charge.safe = true := by
  obtain ⟨tokens, htokens, h⟩ := bind_ok h
  obtain ⟨costMicros, hcost, h⟩ := bind_ok h
  have htokens := storedQuotaSum_ok htokens
  have hcost := storedQuotaSum_ok hcost
  cases h
  rw [Amount.safe_iff]
  dsimp only
  omega

theorem settledStatusOf_released {amount : Amount} (h : settledStatusOf amount = .released) : amount = .zero := by
  unfold settledStatusOf at h
  split at h
  · cases h
  · rename_i hpositive
    exact Amount.positive_eq_false_iff.mp (by simpa using hpositive)

theorem Amount.max_zero (a : Amount) : a.max .zero = a := by
  simp [Amount.max, Amount.zero]

theorem Amount.max_self (a : Amount) : a.max a = a := by
  simp [Amount.max]

variable {input : TerminalizeAgentRunInput}

theorem Run.Settleable.settles (h : run.Settleable daily)
    {usage : Option AgentDispatchAccountingState} {charge : Amount} (hquota : input.quota = none)
    (hcharge : persistedCharge usage = .ok charge)
    (hfits : ∀ reservation row, run.reservationOf run.ownerId = some reservation →
      reservation.status = .reserved → dailyRow daily reservation.ownerId reservation.day = some row →
      Amount.safe ⟨row.consumed.tokens + charge.tokens, row.consumed.costMicros + charge.costMicros⟩ = true)
    :
    ∃ answer, settleEnded run daily input usage = .ok answer := by
  obtain ⟨intent, hintent, hzero, -⟩ := h.intent
  unfold settleEnded
  rw [hquota]
  dsimp only [isNone_none, getD_none]
  rw [if_pos rfl, hintent, hcharge]
  dsimp only [bind, Except.bind]
  rw [hzero, Amount.max_zero, Amount.max_self]
  refine h.reconciles (persistedCharge_safe hcharge) ?_ hfits input.now
  intro hreleased
  split at hreleased
  · cases hreleased
  · exact settledStatusOf_released hreleased

theorem assertTerminalMessageStatus_default (status : AgentTerminalRunStatus) (current : AgentMessageStatus) :
    assertTerminalMessageStatus status (terminalMessageStatus status current) = .ok () := by
  cases status with
  | partialRun =>
    by_cases hcurrent : current = .complete
    · rw [hcurrent]
      rfl
    · simp [assertTerminalMessageStatus, terminalMessageStatus, hcurrent, check]
  | _ => rfl

theorem abandon_expected {status : ActiveStatus} (hstatus : run.status = .active status)
    (outcome : AgentTerminalRunStatus) (errorCode errorMessage : Option JsString) (cancelRequestedAt : Option Time)
    (now : Time) :
    checkExpected run status (abandon run outcome errorCode errorMessage cancelRequestedAt now).expected = .ok () := by
  simp [abandon, checkExpected, hstatus, AgentRunStatus.asExpected, matchesExpected, check, bind, Except.bind]

theorem endedRun_usage (input : TerminalizeAgentRunInput) (status : AgentTerminalRunStatus)
    (assistantStatus : AgentMessageStatus) :
    persistedAgentRunUsage (endedRun run input status assistantStatus).events = persistedAgentRunUsage run.events := by
  unfold persistedAgentRunUsage
  simp [endedRun, dispatchRecords, usageEvents]

/-- A run ends where it can be charged, if no worker has named a status, a patch or a charge. -/
theorem Run.Settleable.ends (h : run.Settleable daily) (hchargeable : run.Chargeable daily)
    (hassistant : input.assistant = none) (hquota : input.quota = none)
    (hpatch : input.runPatch = .none) : ∃ answer, terminalizeActive run daily input = .ok answer := by
  obtain ⟨charge, hcharge, hfits⟩ := hchargeable
  obtain ⟨usage, husage, hcharge⟩ := bind_ok hcharge
  unfold terminalizeActive
  rw [hassistant, hpatch]
  dsimp only [TerminalizeAgentRunPatch.none, patchedUsage, patchedCost]
  rw [ite_self, getD_none, assertTerminalMessageStatus_default, endedRun_usage, husage]
  dsimp only [bind, Except.bind]
  refine Run.Settleable.settles ?_ hquota hcharge ?_
  · exact ⟨h.unpending, h.booked, h.held⟩
  · exact hfits

/-- Where it ends, it has been charged. -/
theorem terminalizeActive_chargeable {run' : Run} {daily' : List DailyRow}
    (h : terminalizeActive run daily input = .ok (run', daily')) : run.Chargeable daily := by
  have hcharge := (terminalizeActive_endsAs h).charge
  obtain ⟨ended, usage, charge, consumed, settledAs, hreservation, howner, husage, hpersisted, hle,
    hsettles⟩ := terminalizeActive_settles h
  have hfound' : ended.reservationOf ended.ownerId = run.reservationOf run.ownerId := by
    rw [Run.reservationOf, Run.reservationOf, hreservation, howner]
  refine ⟨charge, ?_, fun reservation row hfound hreserved hrow => ?_⟩
  · rw [← hcharge, Run.charge, husage]
    exact hpersisted
  · rw [← hfound'] at hfound
    cases hsettles with
    | missing hnone =>
      rw [hfound] at hnone
      cases hnone
    | already stored settled hstored hsettled =>
      rw [hfound] at hstored
      cases hstored
      rw [hsettled] at hreserved
      cases hreserved
    | charged stored row' hstored hreserved' hpending hintent hreleased hsafe hrow' hheld hsum =>
      rw [hfound] at hstored
      cases hstored
      rw [← (reservationOf_some hfound).2, hrow] at hrow'
      cases hrow'
      have htokens := hle.tokens
      have hcost := hle.costMicros
      rw [Amount.safe_iff]
      dsimp only
      omega

end

/-! ## Recovery -/

section
variable {db db' : Database} {run : Run} {now : Time}

theorem active_of_isTerminal (h : run.isTerminal = false) : ∃ status, run.status = .active status := by
  cases hstatus : run.status with
  | active status => exact ⟨status, rfl⟩
  | terminal status => simp [Run.isTerminal, hstatus] at h

/-- **Abandonment.** An active run that no settlement waits for is ended just where it can be
charged. -/
theorem terminalize_abandon (hrun : db.run run.id = some run) (hactive : run.isTerminal = false)
    (hsettleable : run.Settleable db.daily) (outcome : AgentTerminalRunStatus)
    (errorCode errorMessage : Option JsString) (cancelRequestedAt : Option Time) :
    (∃ db', terminalizeAgentRunInTransaction db
      (abandon run outcome errorCode errorMessage cancelRequestedAt now) = .ok db')
      ↔ run.Chargeable db.daily := by
  obtain ⟨status, hstatus⟩ := active_of_isTerminal hactive
  constructor
  · rintro ⟨db', h⟩
    obtain ⟨run', ended, daily', hrun', hterm, -⟩ := terminalize_ok h
    rw [show (abandon run outcome errorCode errorMessage cancelRequestedAt now).runId = run.id from rfl, hrun] at hrun'
    cases hrun'
    unfold terminalizeRun at hterm
    rw [hstatus] at hterm
    obtain ⟨-, -, hterm⟩ := bind_ok hterm
    exact terminalizeActive_chargeable hterm
  · intro hchargeable
    have hends : ∃ answer, terminalizeActive run db.daily
        (abandon run outcome errorCode errorMessage cancelRequestedAt now) = .ok answer :=
      hsettleable.ends hchargeable rfl rfl rfl
    obtain ⟨answer, hends⟩ := hends
    unfold terminalizeAgentRunInTransaction
    rw [show (abandon run outcome errorCode errorMessage cancelRequestedAt now).runId = run.id from rfl,
      hrun, filter_some, if_pos (by simp [abandon, matchesExpected])]
    dsimp only
    unfold terminalizeRun
    rw [hstatus]
    dsimp only
    rw [abandon_expected hstatus]
    dsimp only [bind, Except.bind]
    rw [hends]
    exact ⟨_, rfl⟩

theorem terminalize_abandoned {outcome : AgentTerminalRunStatus}
    {errorCode errorMessage : Option JsString} {cancelRequestedAt : Option Time}
    (hrun : db.run run.id = some run) (hactive : run.isTerminal = false)
    (h : terminalizeAgentRunInTransaction db
      (abandon run outcome errorCode errorMessage cancelRequestedAt now) = .ok db') :
    ∃ run', db'.run run.id = some run' ∧ run'.status = .terminal
      (if run.cancelRequestedAt.isNone then outcome else .cancelled) := by
  obtain ⟨status, hstatus⟩ := active_of_isTerminal hactive
  obtain ⟨run', ended, daily', hrun', hterm, rfl⟩ := terminalize_ok h
  rw [show (abandon run outcome errorCode errorMessage cancelRequestedAt now).runId = run.id from rfl, hrun] at hrun'
  cases hrun'
  unfold terminalizeRun at hterm
  rw [hstatus] at hterm
  obtain ⟨-, -, hterm⟩ := bind_ok hterm
  have hends := terminalizeActive_endsAs hterm
  refine ⟨ended, ?_, hends.status⟩
  rw [put_run (by rw [hends.id]; exact hrun), if_pos hends.id.symm]

/-- What `recoverRuns` makes of a run that it selects. -/
def Recovered (now : Time) (run run' : Run) : Prop :=
  if run.cancelRequestedAt.isSome then run'.status = .terminal .cancelled
  else if run.sideEffectsStarted then run'.status = .terminal .recoveryRequired
  else if run.status = .running then run' = requeuedRun now run
  else run' = unleasedRun now run

/-- `recoverRuns` ends the run. -/
def Run.endsInRecovery (run : Run) : Bool := run.cancelRequestedAt.isSome || run.sideEffectsStarted

theorem Run.recoverable_active (h : run.recoverable now = true) : run.isTerminal = false := by
  cases hstatus : run.status with
  | active status => simp [Run.isTerminal, hstatus]
  | terminal status => simp [Run.recoverable, Run.isTerminal, Run.isClaimed, hstatus] at h

theorem Run.recoverable_unpending (h : run.recoverable now = true) : run.pendingQuotaSettlement = false := by
  simp only [Run.recoverable, Bool.and_eq_true, Bool.not_eq_true'] at h
  exact h.2

theorem updateRun_self {cond : Run → Bool} {set : Run → Run} (hrun : db.run run.id = some run) (hcond : cond run = true)
    (hset : (set run).id = run.id) : ((db.updateRun run.id cond set).getD db).run run.id = some (set run) := by
  rw [updateRun_eq_some.mpr ⟨run, hrun, hcond, rfl⟩, getD_some, put_run (by rw [hset]; exact hrun), if_pos hset.symm]

/-- **Step.** -/
theorem recoverRun_moves (hrun : db.run run.id = some run) (hrecoverable : run.recoverable now = true)
    (hsettleable : run.Settleable db.daily) :
    ((∃ db', recoverRun now db run = .ok db') ↔ (run.endsInRecovery = true → run.Chargeable db.daily))
    ∧ ∀ db', recoverRun now db run = .ok db' → ∃ run', db'.run run.id = some run' ∧ Recovered now run run' := by
  have hactive := Run.recoverable_active hrecoverable
  obtain ⟨intent, hintent, -, hpositive⟩ := hsettleable.intent
  unfold recoverRun Recovered Run.endsInRecovery
  rw [hrun]
  dsimp only
  rw [hintent]
  dsimp only [bind, Except.bind]
  rw [if_neg (by simp [hpositive])]
  by_cases hcancel : run.cancelRequestedAt.isSome = true
  · rw [if_pos hcancel, terminalize_abandon hrun hactive hsettleable]
    refine ⟨by simp [hcancel], fun db' hdb' => ?_⟩
    obtain ⟨run', hrun', hstatus⟩ := terminalize_abandoned hrun hactive hdb'
    refine ⟨run', hrun', ?_⟩
    rw [if_pos hcancel, hstatus]
    split
    · rfl
    · rfl
  · rw [if_neg hcancel]
    have hnone : run.cancelRequestedAt.isNone = true := by simpa using hcancel
    by_cases hside : run.sideEffectsStarted = true
    · rw [if_pos hside]
      unfold lostSideEffect
      rw [terminalize_abandon hrun hactive hsettleable]
      refine ⟨by simp [hside], fun db' hdb' => ?_⟩
      obtain ⟨run', hrun', hstatus⟩ := terminalize_abandoned hrun hactive hdb'
      refine ⟨run', hrun', ?_⟩
      rw [if_neg hcancel, if_pos hside, hstatus, if_pos hnone]
    · rw [if_neg hside]
      -- the fence of the update meets the row that was selected
      have hends : ((run.cancelRequestedAt.isSome || run.sideEffectsStarted) = true →
          run.Chargeable db.daily) := by
        intro hends
        simp [hcancel, hside] at hends
      by_cases hrunning : run.status = .running
      · rw [if_pos hrunning]
        refine ⟨⟨fun _ => hends, fun _ => ⟨_, rfl⟩⟩, fun db' hdb' => ⟨requeuedRun now run, ?_, ?_⟩⟩
        · cases hdb'
          exact updateRun_self hrun (by simp [recoveryFence, hrunning]) rfl
        · rw [if_neg hcancel, if_neg hside, if_pos hrunning]
      · have hwaiting : run.status = .awaitingApproval := by
          have hclaimed : run.isClaimed = true := by
            have hselected := hrecoverable
            simp only [Run.recoverable, hcancel, Bool.false_and, Bool.false_or, Bool.and_eq_true] at hselected
            exact hselected.1.1
          simpa [Run.isClaimed, hrunning] using hclaimed
        rw [if_neg hrunning]
        refine ⟨⟨fun _ => hends, fun _ => ⟨_, rfl⟩⟩, fun db' hdb' => ⟨unleasedRun now run, ?_, ?_⟩⟩
        · cases hdb'
          exact updateRun_self hrun (by simp [recoveryFence, hwaiting]) rfl
        · rw [if_neg hcancel, if_neg hside, if_neg hrunning]

/-! ## Batches -/

/-- **Batch.** A recovery that commits has moved every run that it has selected. -/
theorem recoverRuns_moves (hb : Booked db) (hunique : (db.runs.map Run.id).Nodup) {candidates : List Uuid}
    (hcandidates : candidates.Nodup) (hrun : db.run run.id = some run) (hmem : run.id ∈ candidates)
    (hrecoverable : run.recoverable now = true) (h : recoverRuns db candidates now = .ok db') :
    (∃ run', db'.run run.id = some run' ∧ Recovered now run run') ∧
    (run.endsInRecovery = true → ∃ charge, run.charge = .ok charge) := by
  obtain ⟨hrows, hnodup⟩ := @selected_rows db _ hcandidates fun run => run.recoverable now
  have hselected : run ∈ (candidates.filterMap db.run).filter fun run => run.recoverable now :=
    mem_filter.mpr ⟨mem_filterMap.mpr ⟨run.id, hmem, hrun⟩, hrecoverable⟩
  obtain ⟨mid, mid', hsteps, hfound, hmade, hlater⟩ := @foldlM_meets Origin.ending _ _ _ _ hrows hnodup
    (fun db db' row hrow _ hok => recoverRun_wrote hrow (fun _ _ => trivial) hok) h run hselected
  have hsettleable := (hsteps.booked hunique hb).settleable (run_mem hfound).1
    (Run.recoverable_unpending hrecoverable)
  obtain ⟨hcommits, hmoves⟩ := recoverRun_moves hfound hrecoverable hsettleable
  obtain ⟨run', hrun', hrecovered⟩ := hmoves mid' hmade
  refine ⟨⟨run', hlater.trans hrun', hrecovered⟩, fun hends => ?_⟩
  obtain ⟨charge, hcharge, -⟩ := hcommits.mp ⟨mid', hmade⟩ hends
  exact ⟨charge, hcharge⟩

/-- The batch of one run. -/
theorem recoverRuns_commits (hb : Booked db) (hrun : db.run run.id = some run)
    (hrecoverable : run.recoverable now = true) : (∃ db', recoverRuns db [run.id] now = .ok db')
      ↔ (run.endsInRecovery = true → run.Chargeable db.daily) := by
  have hone : recoverRuns db [run.id] now = recoverRun now db run := by
    unfold recoverRuns
    simp [hrun, hrecoverable]
  rw [hone]
  exact (recoverRun_moves hrun hrecoverable (hb.settleable (run_mem hrun).1 (Run.recoverable_unpending hrecoverable))).1

/-! ## Claims -/

theorem considerCandidate_waiting {options : ClaimAgentRunOptions} {active : ActiveLeaseCounts}
    (hrun : db.run run.id = some run) (hsettleable : run.Settleable db.daily)
    (hstatus : run.status ≠ .running)
    (hslot : run.status = .awaitingApproval ∨ active.ofOwner run.ownerId < options.perUser) :
    considerCandidate codec db options active run
      = .ok (if run.status = .awaitingApproval ∨ run.attempts < run.maxAttempts then .grant false
        else .terminalize (maxAttemptsExceeded run options.now)) := by
  obtain ⟨intent, hintent, -, hpositive⟩ := hsettleable.intent
  have hcontinuation : hasReclaimableActionContinuation codec db run = .ok false := by
    unfold hasReclaimableActionContinuation
    rw [if_pos (by simp [hstatus])]
  unfold considerCandidate
  rw [hrun]
  dsimp only
  rw [hintent]
  dsimp only [bind, Except.bind]
  rw [if_neg (by simp [hpositive]), if_neg (by simp [hstatus]), hcontinuation]
  dsimp only
  rw [if_neg (by simpa using fun hne => Nat.not_le.mpr (hslot.resolve_left hne))]
  by_cases hgranted : run.status = .awaitingApproval ∨ run.attempts < run.maxAttempts
  · rw [if_pos hgranted, if_neg]
    · rfl
    · simp only [Bool.and_eq_true, decide_eq_true_eq, ne_eq]
      rintro ⟨⟨hexhausted, hne⟩, -⟩
      exact absurd (hgranted.resolve_left hne) (Nat.not_lt.mpr hexhausted)
  · rw [if_neg hgranted, if_pos]
    · rfl
    · rw [not_or, Nat.not_lt] at hgranted
      simp [hgranted.1, hgranted.2]

variable {transaction : ClaimTransaction} {rest : List Run} {mid : Database}

/-- **Claim.** A waiting run with an attempt left is granted where the claim comes to it. -/
theorem claimRound_grants (hrun : db.run run.id = some run) (hsettleable : run.Settleable db.daily)
    (hstatus : run.status ≠ .running) (hnext : transaction.candidates = some (run :: rest))
    (hslot : run.status = .awaitingApproval ∨ transaction.active.ofOwner run.ownerId < transaction.options.perUser)
    (hended : terminalizeAll db transaction.ended = .ok mid) (hmid : mid.run run.id = some run)
    (hattempts : run.status = .awaitingApproval ∨ run.attempts < run.maxAttempts) (leaseToken : Uuid) :
    ∃ db', claimRound codec db transaction leaseToken = .ok (.granted db' run false)
      ∧ db'.run run.id = some (grantedRun transaction.options run false leaseToken run) := by
  have hfence : grantFence run run = true := by
    simp [grantFence]
  have hupdate : mid.updateRun run.id (grantFence run)
      (grantedRun transaction.options run false leaseToken) = some
        (mid.put (grantedRun transaction.options run false leaseToken run) mid.daily) :=
    updateRun_eq_some.mpr ⟨run, hmid, hfence, rfl⟩
  have hgranted : ((mid.updateRun run.id (grantFence run)
      (grantedRun transaction.options run false leaseToken)).getD mid).run run.id
        = some (grantedRun transaction.options run false leaseToken run) :=
    updateRun_self hmid hfence rfl
  rw [hupdate] at hgranted
  refine ⟨_, ?_, hgranted⟩
  unfold claimRound
  rw [hnext]
  dsimp only
  rw [considerCandidate_waiting hrun hsettleable hstatus hslot, if_pos hattempts]
  dsimp only [bind, Except.bind]
  rw [hended]
  dsimp only
  rw [hupdate]
  rfl

/-- And one without is ended where it can be charged. -/
theorem claimRound_exhausts (hrun : db.run run.id = some run) (hqueued : run.status = .queued)
    (hcancel : run.cancelRequestedAt = none) (hsettleable : run.Settleable db.daily)
    (hnext : transaction.candidates = some (run :: rest))
    (hslot : transaction.active.ofOwner run.ownerId < transaction.options.perUser)
    (hended : terminalizeAll db transaction.ended = .ok mid) (hmid : mid.run run.id = some run)
    (hmidSettleable : run.Settleable mid.daily) (hchargeable : run.Chargeable mid.daily)
    (hattempts : run.maxAttempts ≤ run.attempts) (leaseToken : Uuid) :
    let input := maxAttemptsExceeded run transaction.options.now
    claimRound codec db transaction leaseToken = .ok (.next { transaction with
        candidates := some rest, ended := transaction.ended ++ [input] })
      ∧ ∃ db' run', terminalizeAll db (transaction.ended ++ [input]) = .ok db'
        ∧ db'.run run.id = some run' ∧ run'.status = .terminal .failed := by
  have hactive : run.isTerminal = false := by
    simp [Run.isTerminal, hqueued]
  have hends : ∃ db', terminalizeAgentRunInTransaction mid
      (maxAttemptsExceeded run transaction.options.now) = .ok db' :=
    (terminalize_abandon hmid hactive hmidSettleable _ _ _ _).mpr hchargeable
  obtain ⟨db', hdb'⟩ := hends
  have hall : terminalizeAll db (transaction.ended ++ [maxAttemptsExceeded run transaction.options.now])
      = .ok db' := by
    unfold terminalizeAll
    rw [foldlM_append, show transaction.ended.foldlM terminalizeAgentRunInTransaction db = .ok mid from hended]
    dsimp only [bind, Except.bind]
    rw [foldlM_cons, hdb']
    rfl
  obtain ⟨run', hrun', hstatus⟩ := terminalize_abandoned hmid hactive hdb'
  refine ⟨?_, db', run', hall, hrun', by simpa [hcancel] using hstatus⟩
  unfold claimRound
  rw [hnext]
  dsimp only
  rw [considerCandidate_waiting hrun hsettleable (by simp [hqueued]) (.inr hslot),
    if_neg (by simpa [hqueued] using hattempts)]
  dsimp only [bind, Except.bind]
  rw [hall]
  rfl

end

end TsEpistle.Agents
