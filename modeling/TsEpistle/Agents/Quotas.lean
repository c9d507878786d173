import TsEpistle.Agents.Execution

/-! The daily quotas. Their reserved columns are the sums of the reservations still held,
and their consumed columns the sums of what has been charged; a run that ends is charged
at least what it has recorded, unless maintenance gave its reservation back before. -/

namespace TsEpistle.Agents
open Library Checked List Option

variable {codec : Codec} {s : State} {op : Op}

/-! ## What a reservation contributes -/

/-- The two columns of an amount. -/
inductive Column
  | tokens | costMicros

def Amount.at (a : Amount) : Column → Nat
  | .tokens => a.tokens
  | .costMicros => a.costMicros

theorem Amount.Le.at {a b : Amount} (h : a.Le b) (c : Column) : a.at c ≤ b.at c := by
  cases c with
  | tokens => exact h.tokens
  | costMicros => exact h.costMicros

@[simp] theorem Amount.zero_at (c : Column) : Amount.zero.at c = 0 := by
  cases c with
  | tokens | costMicros => rfl

/-- What the reservation still holds. -/
def Reservation.held (reservation : Reservation) : Amount :=
  if reservation.status = .reserved then reservation.reserved else .zero

/-- What has been charged for the reservation. -/
def Reservation.charged (reservation : Reservation) : Amount :=
  if reservation.status = .settled .consumed then reservation.consumed else .zero

/-- The part of the reservation that counts for an owner and a day. -/
def Reservation.share (part : Reservation → Amount) (ownerId : Int) (day : Day) (c : Column) :
    Option Reservation → Nat
  | none => 0
  | some reservation =>
    if reservation.ownerId = ownerId ∧ reservation.day = day then (part reservation).at c else 0

/-- The sum over the runs. -/
def total (part : Reservation → Amount) (ownerId : Int) (day : Day) (c : Column) (runs : List Run) :
    Nat :=
  (runs.map fun run => Reservation.share part ownerId day c run.reservation).sum

/-- **Conservation.** The columns of a day are the sums over its reservations. -/
structure Balanced (daily : List DailyRow) (runs : List Run) : Prop where
  reserved : ∀ ownerId day c, ((dailyRow daily ownerId day).elim .zero (·.reserved)).at c
    = total Reservation.held ownerId day c runs
  consumed : ∀ ownerId day c, ((dailyRow daily ownerId day).elim .zero (·.consumed)).at c
    = total Reservation.charged ownerId day c runs

/-! ## Writes -/

/-- What a write does to the reservation of its run and to the quotas; only a settlement charges. -/
inductive QuotaStep (settling : Prop) (before : Option Reservation) (daily : List DailyRow) :
    Option Reservation → List DailyRow → Prop
  | same : QuotaStep settling before daily before daily
  | touched (reservation : Reservation) (consumed : Amount) (expiresAt heartbeatAt : Time)
      (hfound : before = some reservation) (hreserved : reservation.status = .reserved)
      (hpending : reservation.consumed.Le consumed) :
      QuotaStep settling before daily
        (some { reservation with consumed, expiresAt, heartbeatAt }) daily
  | raised (reservation : Reservation) (row : DailyRow) (additional : Amount)
      (expiresAt heartbeatAt : Time) (hfound : before = some reservation)
      (hreserved : reservation.status = .reserved)
      (hrow : dailyRow daily reservation.ownerId reservation.day = some row)
      (hsafe : Amount.safe ⟨reservation.reserved.tokens + additional.tokens,
          reservation.reserved.costMicros + additional.costMicros⟩ = true
        ∧ Amount.safe ⟨row.reserved.tokens + additional.tokens,
          row.reserved.costMicros + additional.costMicros⟩ = true) :
      QuotaStep settling before daily
        (some { reservation with
          reserved := ⟨reservation.reserved.tokens + additional.tokens,
            reservation.reserved.costMicros + additional.costMicros⟩
          expiresAt, heartbeatAt })
        (setDaily daily { row with
          reserved := ⟨row.reserved.tokens + additional.tokens, row.reserved.costMicros + additional.costMicros⟩ })
  | charged (reservation : Reservation) (row : DailyRow) (consumed : Amount) (status : SettledStatus)
      (now : Time) (hsettling : settling) (hfound : before = some reservation)
        (hreserved : reservation.status = .reserved)
      (hpending : reservation.consumed.Le consumed)
      (hreleased : status = .released → consumed = .zero)
      (hrow : dailyRow daily reservation.ownerId reservation.day = some row)
      (hheld : reservation.reserved.Le row.reserved)
      (hsafe : Amount.safe ⟨row.consumed.tokens + consumed.tokens,
        row.consumed.costMicros + consumed.costMicros⟩ = true) :
      QuotaStep settling before daily (some (reservation.settle consumed status now))
        (setDaily daily { row with
          reserved := ⟨row.reserved.tokens - reservation.reserved.tokens,
            row.reserved.costMicros - reservation.reserved.costMicros⟩
          consumed := ⟨row.consumed.tokens + consumed.tokens, row.consumed.costMicros + consumed.costMicros⟩ })

variable {daily daily' : List DailyRow} {before after : Option Reservation}

theorem QuotaStep.settling (h : QuotaStep False before daily after daily') :
    QuotaStep True before daily after daily' := by
  cases h with
  | same => exact .same
  | touched reservation consumed expiresAt heartbeatAt hfound hreserved hpending =>
    exact .touched reservation consumed expiresAt heartbeatAt hfound hreserved hpending
  | raised reservation row additional expiresAt heartbeatAt hfound hreserved hrow hsafe =>
    exact .raised reservation row additional expiresAt heartbeatAt hfound hreserved hrow hsafe
  | charged _ _ _ _ _ hsettling => exact hsettling.elim

variable {reservation : Reservation} {ownerId : Int}

theorem reservationOf_some {run : Run} (h : run.reservationOf ownerId = some reservation) :
    run.reservation = some reservation ∧ reservation.ownerId = ownerId := by
  obtain ⟨hfound, howner⟩ := filter_eq_some_iff.mp h
  exact ⟨hfound, by simpa using howner⟩

variable {run run' : Run}

theorem Settles.quota {consumed : Amount} {status : SettledStatus} {now : Time} {options : ReconcileAgentQuotaOptions}
    (h : Settles run daily ownerId consumed status now options run' daily') :
    QuotaStep True run.reservation daily run'.reservation daily' := by
  cases h with
  | missing | already => exact .same
  | charged reservation row hfound hreserved hpending hintent hreleased hsafe hrow hheld hsum =>
    obtain ⟨hstored, rfl⟩ := reservationOf_some hfound
    exact .charged reservation row consumed status now trivial hstored hreserved hintent hreleased hrow hheld
      (Amount.safe_iff.mpr hsum)

theorem reserveDaily_ok {row : DailyRow} {additional limit : Amount}
    (h : reserveDaily daily row additional limit = .ok daily') :
    daily' = setDaily daily { row with
        reserved := ⟨row.reserved.tokens + additional.tokens, row.reserved.costMicros + additional.costMicros⟩ }
      ∧ (limit.safe = true → Amount.safe ⟨row.reserved.tokens + additional.tokens,
        row.reserved.costMicros + additional.costMicros⟩ = true) := by
  obtain ⟨credit, -, h⟩ := bind_ok h
  obtain ⟨effective, heffective, h⟩ := bind_ok h
  obtain ⟨u, hfits, h⟩ := bind_ok h
  have heffective := storedQuotaSum_ok heffective
  have hfits := check_ok hfits
  simp only [Bool.and_eq_true, decide_eq_true_eq] at hfits
  cases h
  refine ⟨rfl, fun hlimit => ?_⟩
  rw [Amount.safe_iff] at hlimit ⊢
  dsimp only
  omega

theorem checkedRequest_ok {request : AgentQuotaRequest} {limits : AgentQuotaLimits} {tokensName costName : String}
    {amount limit : Amount} (h : checkedRequest request limits tokensName costName = .ok (amount, limit)) :
    amount.safe = true ∧ limit.safe = true := by
  obtain ⟨tokens, htokens, h⟩ := bind_ok h
  obtain ⟨costMicros, hcost, h⟩ := bind_ok h
  obtain ⟨tokenLimit, htokenLimit, h⟩ := bind_ok h
  obtain ⟨costLimit, hcostLimit, h⟩ := bind_ok h
  cases h
  exact ⟨Amount.safe_iff.mpr ⟨(nonNegativeInteger_ok htokens).2, (nonNegativeInteger_ok hcost).2⟩,
    Amount.safe_iff.mpr ⟨(nonNegativeInteger_ok htokenLimit).2, (nonNegativeInteger_ok hcostLimit).2⟩⟩

theorem ensureAgentRunQuota_quota {target : AgentQuotaRequest} {limits : AgentQuotaLimits} {expiresAt now : Time}
    (h : ensureAgentRunQuota run daily ownerId target limits expiresAt now = .ok (run', daily')) :
    QuotaStep False run.reservation daily run'.reservation daily' := by
  obtain ⟨⟨target, limit⟩, hrequest, h⟩ := bind_ok h
  obtain ⟨htarget, hlimit⟩ := checkedRequest_ok hrequest
  cases hfound : run.reservationOf ownerId with
  | none =>
    rw [hfound] at h
    cases h
  | some reservation =>
    rw [hfound] at h
    dsimp only at h
    obtain ⟨reserved, hraisable, h⟩ := bind_ok h
    split at h
    · cases h
      exact .same
    · cases hrow : dailyRow daily ownerId reservation.day with
      | none =>
        rw [hrow] at h
        cases h
      | some row =>
        rw [hrow] at h
        dsimp only at h
        obtain ⟨daily₁, hdaily, h⟩ := bind_ok h
        cases h
        obtain ⟨hstored, rfl⟩ := reservationOf_some hfound
        obtain ⟨rfl, hsafe⟩ := reserveDaily_ok hdaily
        -- the reservation that is raised is still held
        obtain ⟨_, hstatus, hraisable⟩ := bind_ok hraisable
        obtain ⟨pending, -, hraisable⟩ := bind_ok hraisable
        have hreserved : reserved = reservation.reserved ∧ reservation.reserved.safe = true := by
          split at hraisable
          · cases hraisable
          · exact storedAmount_ok hraisable
        obtain ⟨rfl, hreserved⟩ := hreserved
        refine .raised reservation row
          ⟨target.tokens - reservation.reserved.tokens,
            target.costMicros - reservation.reserved.costMicros⟩ _ now hstored
              (by simpa using check_ok hstatus) hrow ⟨?_, hsafe hlimit⟩
        rw [Amount.safe_iff] at htarget hreserved ⊢
        dsimp only
        omega

variable {input : TerminalizeAgentRunInput}

theorem terminalizeAgain_settles {current : AgentTerminalRunStatus}
    (h : terminalizeAgain run daily current input = .ok (run', daily')) : (run' = run ∧ daily' = daily) ∨
    ∃ consumed status options charge, (persistedAgentRunUsage run.events >>= persistedCharge) = .ok charge ∧
    charge.Le consumed ∧ Settles run daily run.ownerId consumed status input.now options run' daily' := by
  obtain ⟨-, -, h⟩ := bind_ok h
  split at h
  · cases h
    exact .inl ⟨rfl, rfl⟩
  · obtain ⟨intent, -, h⟩ := bind_ok h
    cases intent with
    | none =>
      cases h
      exact .inl ⟨rfl, rfl⟩
    | some intent =>
      obtain ⟨usage, husage, h⟩ := bind_ok h
      obtain ⟨charge, hcharge, h⟩ := bind_ok h
      refine .inr ⟨_, _, _, charge, ?_, Amount.le_max_left charge intent, reconcile_settles h⟩
      rw [husage]
      exact hcharge

/-- The end of a run settles its reservation at what its events charge, or more. -/
theorem terminalizeActive_settles (h : terminalizeActive run daily input = .ok (run', daily')) :
    ∃ ended usage charge consumed status, ended.reservation = run.reservation
      ∧ ended.ownerId = run.ownerId ∧ persistedAgentRunUsage run'.events = .ok usage
      ∧ persistedCharge usage = .ok charge ∧ charge.Le consumed
      ∧ Settles ended daily ended.ownerId consumed status input.now
        ⟨input.quota.isNone, input.quota.isNone⟩ run' daily' := by
  obtain ⟨-, -, h⟩ := bind_ok h
  obtain ⟨usage, husage, h⟩ := bind_ok h
  obtain ⟨inputTokens, -, h⟩ := bind_ok h
  obtain ⟨outputTokens, -, h⟩ := bind_ok h
  obtain ⟨totalTokens, -, h⟩ := bind_ok h
  obtain ⟨estimatedCostMicros, -, h⟩ := bind_ok h
  obtain ⟨charge, consumed, status, hcharge, hle, h⟩ := settleEnded_ok h
  obtain ⟨reservation, hrun'⟩ := h.reservation_only
  refine ⟨_, usage, charge, consumed, status, ?_, ?_, ?_, hcharge, hle, h⟩
  · rfl
  · rfl
  · rw [hrun']
    exact husage

theorem RowStep.quota {o : Origin} (h : RowStep o run daily run' daily') :
    QuotaStep True run.reservation daily run'.reservation daily' := by
  cases h with
  | extended reservation expiresAt now hfound hreserved =>
    exact .touched reservation reservation.consumed expiresAt now hfound hreserved (.refl _)
  | intended reservation consumed now hfound hreserved =>
    exact .touched reservation _ reservation.expiresAt now hfound hreserved
      (Amount.le_max_left _ consumed)
  | raised ownerId target limits expiresAt now run' daily' h => exact (ensureAgentRunQuota_quota h).settling
  | released ownerId now run' daily' horigin h => exact h.quota
  | settled input current run' daily' hstatus h =>
    rcases terminalizeAgain_settles h with ⟨rfl, rfl⟩ | ⟨_, _, _, _, -, -, h⟩
    · exact .same
    · exact h.quota
  | ended input status run' daily' horigin hid hstatus hexpected h =>
    obtain ⟨ended, usage, charge, consumed, settledAs, hreservation, -, -, -, -, h⟩ := terminalizeActive_settles h
    rw [← hreservation]
    exact h.quota
  | _ => exact .same

/-! ## Conservation -/

theorem share_eq {part : Reservation → Amount} {day : Day} {c : Column} :
    Reservation.share part ownerId day c (some reservation)
      = if reservation.ownerId = ownerId ∧ reservation.day = day then (part reservation).at c
        else 0 := rfl

theorem dailyRow_setDaily {daily : List DailyRow} {old : DailyRow} (row : DailyRow)
    (hold : dailyRow daily row.ownerId row.day = some old) (ownerId : Int) (day : Day) :
    dailyRow (setDaily daily row) ownerId day
      = if row.ownerId = ownerId ∧ row.day = day then some row else dailyRow daily ownerId day := by
  rw [dailyRow, setDaily, Table.get_replace]
  by_cases hkey : row.ownerId = ownerId ∧ row.day = day
  · obtain ⟨rfl, rfl⟩ := hkey
    have hold : Table.get DailyRow.key daily row.key = some old := hold
    rw [show (row.ownerId, row.day) = row.key from rfl, if_pos rfl, if_pos ⟨rfl, rfl⟩, hold]
    rfl
  · have hne : (ownerId, day) ≠ row.key := by
      intro heq
      rw [DailyRow.key, Prod.mk.injEq] at heq
      exact hkey ⟨heq.1.symm, heq.2.symm⟩
    rw [if_neg hkey, if_neg hne]
    rfl

/-- The figure of a day after a row is written: of the row on its day, and the one before elsewhere. -/
theorem setDaily_figure {daily : List DailyRow} {row row' : DailyRow} {part : DailyRow → Amount} {day : Day}
    {c : Column} {before after : Nat} (hrow : dailyRow daily row.ownerId row.day = some row) (hkey : row'.key = row.key)
    (hbefore : ((dailyRow daily ownerId day).elim .zero part).at c = before)
    (hown : row.ownerId = ownerId ∧ row.day = day → (part row).at c = before → (part row').at c = after)
    (hother : ¬ (row.ownerId = ownerId ∧ row.day = day) → after = before) :
    ((dailyRow (setDaily daily row') ownerId day).elim .zero part).at c = after := by
  obtain ⟨howner, hday⟩ := Prod.mk.inj hkey
  rw [dailyRow_setDaily row' (by rw [howner, hday]; exact hrow), howner, hday]
  by_cases hsame : row.ownerId = ownerId ∧ row.day = day
  · rw [if_pos hsame, elim_some]
    refine hown hsame ?_
    rw [← hsame.1, ← hsame.2, hrow, elim_some] at hbefore
    exact hbefore
  · rw [if_neg hsame, hother hsame]
    exact hbefore

theorem Amount.add_at (a b : Amount) (c : Column) :
    (Amount.mk (a.tokens + b.tokens) (a.costMicros + b.costMicros)).at c = a.at c + b.at c := by
  cases c with
  | tokens | costMicros => rfl

theorem Amount.sub_at (a b : Amount) (c : Column) :
    (Amount.mk (a.tokens - b.tokens) (a.costMicros - b.costMicros)).at c = a.at c - b.at c := by
  cases c with
  | tokens | costMicros => rfl

/-- **Step.** The columns move with the sums. -/
theorem QuotaStep.balanced {settling : Prop} {runs runs' : List Run}
    (h : QuotaStep settling before daily after daily') (hb : Balanced daily runs)
    (hheld : ∀ ownerId day c,
      total Reservation.held ownerId day c runs' + Reservation.share Reservation.held ownerId day c before
        = total Reservation.held ownerId day c runs
          + Reservation.share Reservation.held ownerId day c after) (hcharged : ∀ ownerId day c,
      total Reservation.charged ownerId day c runs'
          + Reservation.share Reservation.charged ownerId day c before
        = total Reservation.charged ownerId day c runs + Reservation.share Reservation.charged ownerId day c after) :
    Balanced daily' runs' := by
  cases h with
  | same =>
    refine ⟨fun ownerId day c => ?_, fun ownerId day c => ?_⟩
    · have := hheld ownerId day c
      rw [hb.reserved]
      omega
    · have := hcharged ownerId day c
      rw [hb.consumed]
      omega
  | touched reservation consumed expiresAt heartbeatAt hfound hreserved hpending =>
    subst hfound
    refine ⟨fun ownerId day c => ?_, fun ownerId day c => ?_⟩
    · have := hheld ownerId day c
      rw [hb.reserved]
      simp only [share_eq, Reservation.held, hreserved, if_true] at this
      omega
    · have := hcharged ownerId day c
      rw [hb.consumed]
      simp only [share_eq, Reservation.charged, hreserved, reduceCtorEq, if_false] at this
      omega
  | raised reservation row additional expiresAt heartbeatAt hfound hreserved hrow =>
    subst hfound
    obtain ⟨-, hkey⟩ := Table.get_mem DailyRow.key hrow
    obtain ⟨howner, hday⟩ := Prod.mk.inj hkey
    rw [← howner, ← hday] at hrow
    refine ⟨fun ownerId day c => ?_, fun ownerId day c => ?_⟩
    · have hmoved := hheld ownerId day c
      simp only [share_eq, Reservation.held, hreserved, if_true, ← howner, ← hday] at hmoved
      refine setDaily_figure hrow rfl (hb.reserved ownerId day c) (fun hsame hbefore => ?_) fun hother => ?_
      · simp only [if_pos hsame, Amount.add_at] at hmoved ⊢
        omega
      · simp only [if_neg hother] at hmoved
        omega
    · have hmoved := hcharged ownerId day c
      simp only [share_eq, Reservation.charged, hreserved, reduceCtorEq, if_false] at hmoved
      refine setDaily_figure hrow rfl (hb.consumed ownerId day c) (fun _ hbefore => ?_) fun _ => ?_
      · dsimp only
        omega
      · omega
  | charged reservation row consumed status now hsettling hfound hreserved hpending hreleased hrow hle =>
    subst hfound
    obtain ⟨-, hkey⟩ := Table.get_mem DailyRow.key hrow
    obtain ⟨howner, hday⟩ := Prod.mk.inj hkey
    rw [← howner, ← hday] at hrow
    have hpart : (reservation.settle consumed status now).charged = consumed := by
      cases status with
      | consumed => rfl
      | released => exact (hreleased rfl).symm
    have hshare : ∀ part ownerId day c,
        Reservation.share part ownerId day c (some (reservation.settle consumed status now))
        = if row.ownerId = ownerId ∧ row.day = day
          then (part (reservation.settle consumed status now)).at c else 0 := by
      rw [howner, hday]
      exact fun _ _ _ _ => rfl
    refine ⟨fun ownerId day c => ?_, fun ownerId day c => ?_⟩
    · have hmoved := hheld ownerId day c
      have hle := hle.at c
      rw [hshare, share_eq, ← howner, ← hday] at hmoved
      simp only [Reservation.held, hreserved, if_true, Reservation.settle, reduceCtorEq, if_false,
        Amount.zero_at, ite_self] at hmoved
      refine setDaily_figure hrow rfl (hb.reserved ownerId day c) (fun hsame hbefore => ?_) fun hother => ?_
      · simp only [if_pos hsame, Amount.sub_at] at hmoved ⊢
        omega
      · simp only [if_neg hother] at hmoved
        omega
    · have hmoved := hcharged ownerId day c
      rw [hshare, hpart, share_eq, ← howner, ← hday] at hmoved
      simp only [Reservation.charged, hreserved, reduceCtorEq, if_false, Amount.zero_at, ite_self] at hmoved
      refine setDaily_figure hrow rfl (hb.consumed ownerId day c) (fun hsame hbefore => ?_) fun hother => ?_
      · simp only [if_pos hsame, Amount.add_at] at hmoved ⊢
        omega
      · simp only [if_neg hother] at hmoved
        omega

theorem insertDaily_balanced {daily : List DailyRow} {runs : List Run} (hb : Balanced daily runs)
    (ownerId : Int) (day : Day) : Balanced (insertDaily daily ownerId day) runs := by
  unfold insertDaily
  cases hrow : dailyRow daily ownerId day with
  | some row => exact hb
  | none =>
    have hget : ∀ ownerId' day', dailyRow (daily ++ [⟨ownerId, day, .zero, .zero, 0⟩]) ownerId' day'
        = (dailyRow daily ownerId' day').or
          (if ownerId = ownerId' ∧ day = day' then some ⟨ownerId, day, .zero, .zero, 0⟩
            else none) := by
      intro ownerId' day'
      rw [dailyRow, Table.get_append]
      congr 1
      simp [Table.get, DailyRow.key, find?_cons]
      split
      · rename_i heq
        simp_all
      · rename_i heq
        simp_all
    refine ⟨fun ownerId' day' c => ?_, fun ownerId' day' c => ?_⟩
    · rw [← hb.reserved, hget]
      cases hfound : dailyRow daily ownerId' day' with
      | some row => rfl
      | none =>
        rw [none_or]
        split
        · rfl
        · rfl
    · rw [← hb.consumed, hget]
      cases hfound : dailyRow daily ownerId' day' with
      | some row => rfl
      | none =>
        rw [none_or]
        split
        · rfl
        · rfl

theorem reserveQuota_ok {request : AgentQuotaRequest} {limits : AgentQuotaLimits} {now expiresAt : Time}
    (h : reserveQuota none daily ownerId request limits now expiresAt = .ok (reservation, daily')) :
    reservation.ownerId = ownerId ∧ reservation.status = .reserved ∧ reservation.consumed = .zero ∧
    reservation.day = dayKey now ∧ reservation.reconciledAt = none ∧
    QuotaStep True (some { reservation with reserved := .zero }) (insertDaily daily ownerId (dayKey now))
    (some reservation) daily' := by
  obtain ⟨⟨amount, limit⟩, hrequest, h⟩ := bind_ok h
  obtain ⟨hamount, hlimit⟩ := checkedRequest_ok hrequest
  dsimp only at h
  split at h
  · cases h
  · rename_i row hrow
    obtain ⟨daily₁, hdaily, h⟩ := bind_ok h
    cases h
    obtain ⟨rfl, hsafe⟩ := reserveDaily_ok hdaily
    refine ⟨rfl, rfl, rfl, rfl, rfl, ?_⟩
    let empty : Reservation := ⟨ownerId, dayKey now, .zero, .zero, .reserved, expiresAt, now, none⟩
    have hempty : dailyRow (insertDaily daily ownerId (dayKey now)) empty.ownerId empty.day = some row := hrow
    have hraised := @QuotaStep.raised True _ _ empty row amount expiresAt now rfl rfl hempty
      ⟨by simpa [Amount.zero, empty] using hamount, hsafe hlimit⟩
    simpa [Amount.zero, empty] using hraised

theorem resetAgentDailyTokenQuota_ok {users : List Int} {now : Time}
    (h : resetAgentDailyTokenQuota users daily ownerId now = .ok daily') :
    daily' = daily ∨ ∃ row credit, dailyRow daily row.ownerId row.day = some row
      ∧ daily' = setDaily daily { row with tokenResetCredit := credit } := by
  obtain ⟨-, -, h⟩ := bind_ok h
  obtain ⟨-, -, h⟩ := bind_ok h
  split at h
  · cases h
    exact .inl rfl
  · rename_i row hrow
    obtain ⟨credit, -, h⟩ := bind_ok h
    obtain ⟨consumed, -, h⟩ := bind_ok h
    obtain ⟨-, -, h⟩ := bind_ok h
    obtain ⟨-, -, h⟩ := bind_ok h
    obtain ⟨-, -, h⟩ := bind_ok h
    split at h
    · cases h
      exact .inl rfl
    · cases h
      obtain ⟨howner, hday⟩ := Prod.mk.inj (Table.get_mem DailyRow.key hrow).2
      rw [← howner, ← hday] at hrow
      exact .inr ⟨row, consumed, hrow, rfl⟩

theorem DbStep.balanced {o : Origin} {db db' : Database} (h : DbStep o db db') (hunique : (db.runs.map Run.id).Nodup)
    (hb : Balanced db.daily db.runs) : Balanced db'.daily db'.runs := by
  cases h with
  | row run run' daily' hrun hstep =>
    have hrun' : db.run run'.id = some run := by rw [hstep.id]; exact hrun
    have hsum : ∀ part ownerId day c,
        total part ownerId day c (db.put run' daily').runs + Reservation.share part ownerId day c run.reservation
        = total part ownerId day c db.runs
          + Reservation.share part ownerId day c run'.reservation := fun part ownerId day c =>
      Table.sum_replace Run.id (fun run => Reservation.share part ownerId day c run.reservation)
        hunique hrun'
    exact hstep.quota.balanced hb (hsum Reservation.held) (hsum Reservation.charged)
  | admitted input reservation daily' hsession hnew hreserve =>
    obtain ⟨howner, hreserved, hconsumed, -, -, hstep⟩ := reserveQuota_ok hreserve
    have hsum : ∀ part ownerId day c, total part ownerId day c (db.runs ++ [queuedRun input reservation])
        = total part ownerId day c db.runs + Reservation.share part ownerId day c (some reservation) := by
      intro part ownerId day c
      simp [total, queuedRun]
    refine hstep.balanced (insertDaily_balanced hb _ _) ?_ ?_
    · intro ownerId day c
      rw [hsum]
      simp [share_eq, Reservation.held]
    · intro ownerId day c
      rw [hsum]
      simp [share_eq, Reservation.charged, hreserved]
  | requested p sessions now hp =>
    have hsame : ∀ part ownerId day c,
        total part ownerId day c (Table.updateWhere p (requestedRun now) db.runs)
          = total part ownerId day c db.runs := by
      intro part ownerId day c
      rw [total, Table.updateWhere, List.map_map]
      congr 1
      refine map_congr_left fun run _ => ?_
      simp only [Function.comp_apply]
      split
      · rfl
      · rfl
    refine ⟨fun ownerId day c => ?_, fun ownerId day c => ?_⟩
    · rw [hb.reserved]
      exact (hsame _ ownerId day c).symm
    · rw [hb.consumed]
      exact (hsame _ ownerId day c).symm
  | credited ownerId now daily' hreset =>
    rcases resetAgentDailyTokenQuota_ok hreset with rfl | ⟨row, credit, hrow, rfl⟩
    · exact hb
    · exact ⟨fun ownerId day c =>
          setDaily_figure hrow rfl (hb.reserved ownerId day c) (fun _ hbefore => hbefore) fun _ => rfl,
        fun ownerId day c =>
          setDaily_figure hrow rfl (hb.consumed ownerId day c) (fun _ hbefore => hbefore) fun _ => rfl⟩
  | proposed => exact hb

theorem Steps.balanced {o : Origin} {db db' : Database} (h : Steps o db db') (hunique : (db.runs.map Run.id).Nodup)
    (hb : Balanced db.daily db.runs) : Balanced db'.daily db'.runs := by
  induction h with
  | refl => exact hb
  | tail hsteps hstep ih => exact hstep.balanced (Steps.ids hsteps hunique) ih

theorem Balanced.initial : Balanced [] [] :=
  ⟨fun _ _ c => by simp [dailyRow, Table.get, total], fun _ _ c => by simp [dailyRow, Table.get, total]⟩

theorem Balanced.of_reachable {users : List Int} {sessions : List AgentSession} {clock : Time}
    (h : (coordinator codec).Reachable (.initial users sessions clock) s) : Balanced s.db.daily s.db.runs :=
  h.invariant_under (J := fun s => Balanced s.db.daily s.db.runs) (Claiming.initial users sessions clock)
    (fun _ _ hop hs => hs.exec hop) .initial fun _ _ hop hs => Steps.balanced (exec_steps hs hop) hs.unique

/-! ## What a run has recorded -/

/-- The usage and unresolved exposure that the events of the run record. -/
def Run.charge (run : Run) : Except AgentRepositoryError Amount :=
  persistedAgentRunUsage run.events >>= persistedCharge

theorem charge_events (hrecords : dispatchRecords run'.events = dispatchRecords run.events)
    (husage : usageEvents run'.events = usageEvents run.events) : run'.charge = run.charge := by
  unfold Run.charge persistedAgentRunUsage
  rw [hrecords, husage]

/-- The end of a run records no usage. -/
theorem EndsAs.charge (h : EndsAs run input run') : run'.charge = run.charge := by
  obtain ⟨assistantStatus, hevents⟩ := h.events
  refine charge_events ?_ ?_
  · rw [hevents, dispatchRecords, filterMap_append]
    simp [dispatchRecords]
  · rw [hevents, usageEvents, filterMap_append]
    simp [usageEvents]

/-- What a reservation that is no longer held has been charged, the run has recorded at most; and
it is held no longer than the run is active. -/
structure Accounted (run : Run) (reservation : Reservation) : Prop where
  found : run.reservation = some reservation
  owner : reservation.ownerId = run.ownerId
  released : reservation.status = .settled .released → reservation.consumed = .zero
  charged : reservation.status ≠ .reserved → ∃ charge, run.charge = .ok charge ∧ charge.Le reservation.charged
  ended : run.isTerminal = true → reservation.status ≠ .reserved

/-- Maintenance gives no reservation back while its run has recorded usage or exposure, and no
usage is recorded after it has. -/
def ReleasesUnused (op : Op) (s : State) : Prop :=
  match op with
  | .releaseExpired runId _ _ => ∀ run ∈ s.db.run runId,
      (∀ reservation ∈ run.reservation, reservation.status ≠ .reserved) ∨ run.charge = .ok .zero
  | .appendPresentation lease event now => ∀ run ∈ s.db.run lease.id,
      (∀ reservation ∈ run.reservation, reservation.status = .reserved)
        ∨ (run.append lease.attempts event.body now).charge = .ok .zero
  | _ => True

theorem settle_charged {consumed : Amount} {status : SettledStatus} {now : Time}
    (hreleased : status = .released → consumed = .zero) :
    (reservation.settle consumed status now).charged = consumed := by
  cases status with
  | consumed => rfl
  | released => exact (hreleased rfl).symm

/-- A settlement at the charge of the run, or more. -/
theorem Settles.accounted {consumed charge : Amount} {status : SettledStatus} {now : Time}
    {options : ReconcileAgentQuotaOptions} (h : Settles run daily ownerId consumed status now options run' daily')
    (hfound : run.reservation = some reservation) (howner : reservation.ownerId = run.ownerId)
    (hmissing : options.allowMissing = true → ownerId = run.ownerId)
    (hreleased : reservation.status = .settled .released → reservation.consumed = .zero)
    (hcharged : reservation.status ≠ .reserved → ∃ charge, run.charge = .ok charge ∧ charge.Le reservation.charged)
    (hcharge : reservation.status = .reserved → run.charge = .ok charge ∧ charge.Le consumed) : ∃ reservation',
    Accounted run' reservation' ∧ reservation'.status ≠ .reserved := by
  cases h with
  | missing hnone hallow =>
    rw [hmissing hallow, Run.reservationOf, hfound, filter_some, howner] at hnone
    simp at hnone
  | already stored settled hstored hsettled hzero haccept =>
    obtain ⟨hstored, -⟩ := reservationOf_some hstored
    rw [hfound] at hstored
    cases hstored
    have hstatus : reservation.status ≠ .reserved := by simp [hsettled]
    exact ⟨reservation, ⟨hfound, howner, hreleased, hcharged, fun _ => hstatus⟩, hstatus⟩
  | charged stored row hstored hreserved hpending hintent hzero hsafe hrow hheld hsum =>
    obtain ⟨hstored, -⟩ := reservationOf_some hstored
    rw [hfound] at hstored
    cases hstored
    have hstatus : (reservation.settle consumed status now).status ≠ .reserved := by
      simp [Reservation.settle]
    refine ⟨reservation.settle consumed status now, ⟨rfl, howner, ?_, ?_, fun _ => hstatus⟩, hstatus⟩
    · intro hsettled
      exact hzero (by simpa [Reservation.settle] using hsettled)
    · intro _
      obtain ⟨hcharge, hle⟩ := hcharge hreserved
      refine ⟨charge, hcharge, ?_⟩
      rwa [settle_charged hzero]

/-- A write of an active run that keeps its events and its reservation. -/
theorem Accounted.kept (hrun : Accounted run reservation) (hreservation : run'.reservation = run.reservation)
    (howner : run'.ownerId = run.ownerId) (hevents : run'.events = run.events) (hactive : run'.isTerminal = false) :
    Accounted run' reservation := by
  have hcharge : run'.charge = run.charge := by
    unfold Run.charge
    rw [hevents]
  refine ⟨by rw [hreservation, hrun.found], by rw [howner, hrun.owner], hrun.released,
    by rw [hcharge]; exact hrun.charged, fun hterminal => ?_⟩
  rw [hactive] at hterminal
  cases hterminal

/-- A reservation that is still held. -/
theorem accounted_held {run : Run} (hfound : run.reservation = some reservation)
    (hreserved : reservation.status = .reserved) (howner : reservation.ownerId = run.ownerId)
    (hactive : run.isTerminal = false) : Accounted run reservation := by
  refine ⟨hfound, howner, ?_, fun hne => absurd hreserved hne, ?_⟩
  · intro hsettled
    rw [hreserved] at hsettled
    cases hsettled
  · intro hterminal
    rw [hactive] at hterminal
    cases hterminal

/-- A run that has ended keeps what it has settled. -/
theorem RowStep.accounted_terminal (h : RowStep (op.origin codec s) run daily run' daily')
    (hrun : Accounted run reservation) (hterminal : run.isTerminal = true) : Accounted run' reservation := by
  obtain ⟨after, rfl⟩ := h.of_terminal hterminal
  have hsettled := hrun.ended hterminal
  have hne : ∀ stored, run.reservation = some stored → stored.status ≠ .reserved := by
    intro stored hstored
    rw [hrun.found] at hstored
    cases hstored
    exact hsettled
  refine ⟨?_, hrun.owner, hrun.released, hrun.charged, hrun.ended⟩
  have hquota := h.quota
  generalize hafter : ({ run with reservation := after } : Run).reservation = after' at hquota ⊢
  cases hquota with
  | same => exact hrun.found
  | touched stored consumed expiresAt heartbeatAt hfound hreserved =>
    exact absurd hreserved (hne stored hfound)
  | raised stored row additional expiresAt heartbeatAt hfound hreserved =>
    exact absurd hreserved (hne stored hfound)
  | charged stored row consumed status now hsettling hfound hreserved =>
    exact absurd hreserved (hne stored hfound)

/-- **Step.** -/
theorem RowStep.accounted (hreleases : ReleasesUnused op s) (h : RowStep (op.origin codec s) run daily run' daily')
    (hrun : Accounted run reservation) : ∃ reservation', Accounted run' reservation' := by
  have hkept : run'.reservation = run.reservation → run'.ownerId = run.ownerId →
      run'.events = run.events → run'.isTerminal = false → ∃ reservation', Accounted run' reservation' :=
    fun hreservation howner hevents hactive => ⟨reservation, hrun.kept hreservation howner hevents hactive⟩
  have hheld : ∀ reservation', run'.reservation = some reservation' →
      reservation'.status = .reserved → reservation'.ownerId = run.ownerId →
      run'.ownerId = run.ownerId → run'.isTerminal = false → ∃ reservation', Accounted run' reservation' :=
    fun reservation' hfound hreserved howner howner' hactive =>
      ⟨reservation', accounted_held hfound hreserved (howner.trans howner'.symm) hactive⟩
  by_cases hterminal : run.isTerminal = true
  · exact ⟨reservation, h.accounted_terminal hrun hterminal⟩
  have hactive : run.isTerminal = false := by simpa using hterminal
  cases h with
  | moved | resumed | suspended | requeued => exact hkept rfl rfl rfl rfl
  | extended stored expiresAt now hfound hreserved =>
    rw [hrun.found] at hfound
    cases hfound
    exact hheld _ rfl hreserved hrun.owner rfl hactive
  | intended stored consumed now hfound hreserved =>
    rw [hrun.found] at hfound
    cases hfound
    exact hheld _ rfl hreserved hrun.owner rfl hactive
  | raised ownerId target limits expiresAt now run' daily' h =>
    have hquota := ensureAgentRunQuota_quota h
    obtain ⟨after, rfl⟩ := ensureAgentRunQuota_reservation_only h
    generalize hafter : ({ run with reservation := after } : Run).reservation = after' at hquota
    cases hquota with
    | same => exact hkept hafter rfl rfl hactive
    | touched stored consumed expiresAt heartbeatAt hfound hreserved =>
      rw [hrun.found] at hfound
      cases hfound
      exact hheld _ hafter hreserved hrun.owner rfl hactive
    | raised stored row additional expiresAt heartbeatAt hfound hreserved =>
      rw [hrun.found] at hfound
      cases hfound
      exact hheld _ hafter hreserved hrun.owner rfl hactive
    | charged _ _ _ _ _ hsettling => exact hsettling.elim
  | dispatched attempt record now hclaimed stored hfound hopen =>
    rw [hrun.found] at hfound
    cases hfound
    have hreserved : reservation.status = .reserved := by
      simp only [Reservation.open, Bool.and_eq_true, decide_eq_true_eq] at hopen
      exact hopen.1.1
    exact hheld reservation hrun.found hreserved hrun.owner rfl hactive
  | appended attempt event now horigin hclaimed =>
    obtain ⟨lease, event', now', rfl, hrow, heq⟩ := horigin
    by_cases hreserved : reservation.status = .reserved
    · exact hheld reservation hrun.found hreserved hrun.owner rfl hactive
    · rcases hreleases run hrow with hstill | hcharge
      · exact absurd (hstill reservation hrun.found) hreserved
      · refine ⟨reservation, hrun.found, hrun.owner, hrun.released, fun _ => ?_, fun hended => ?_⟩
        · rw [heq]
          exact ⟨.zero, hcharge, Amount.zero_le _⟩
        · rw [show (run.append attempt event.body now).isTerminal = run.isTerminal from rfl,
            hactive] at hended
          cases hended
  | settled input current run' daily' hstatus => simp [Run.isTerminal, hstatus] at hactive
  | ended input status run' daily' horigin hid hstatus hexpected h =>
    have hcharge := (terminalizeActive_endsAs h).charge
    obtain ⟨ended, usage, charge, consumed, settledAs, hreservation, howner, husage, hpersisted, hle,
      hsettles⟩ := terminalizeActive_settles h
    have hrecorded : run.charge = .ok charge := by
      rw [← hcharge, Run.charge, husage]
      exact hpersisted
    obtain ⟨after, hrun'⟩ := hsettles.reservation_only
    have hendedCharge : ended.charge = run.charge := by
      rw [← hcharge, hrun']
      rfl
    obtain ⟨reservation', haccounted, -⟩ := hsettles.accounted
      (hreservation.trans hrun.found) (hrun.owner.trans howner.symm) (fun _ => rfl) hrun.released
      (by rw [hendedCharge]; exact hrun.charged) fun _ => ⟨hendedCharge.trans hrecorded, hle⟩
    exact ⟨reservation', haccounted⟩
  | released ownerId now run' daily' horigin h =>
    obtain ⟨owner', now', rfl, hrow⟩ := horigin
    obtain ⟨reservation', haccounted, -⟩ := h.accounted hrun.found hrun.owner
      (by intro hallow; cases hallow) hrun.released hrun.charged (by
        intro hreserved
        rcases hreleases run hrow with hnone | hcharge
        · exact absurd hreserved (hnone reservation hrun.found)
        · exact ⟨hcharge, .refl _⟩)
    exact ⟨reservation', haccounted⟩
  | granted options candidate reclaiming leaseToken =>
    refine hkept rfl rfl rfl ?_
    unfold grantedRun Run.isTerminal
    dsimp only
    split
    · rfl
    · rename_i heq
      split at heq
      · cases heq
      · cases heq
  | _ => exact hkept rfl rfl rfl hactive

/-! ## Settlement intents -/

theorem QuotaStep.consumed_le {settling : Prop} (h : QuotaStep settling before daily after daily') {amount : Amount}
    (hbefore : ∃ reservation, before = some reservation ∧ amount.Le reservation.consumed) : ∃ reservation,
    after = some reservation ∧ amount.Le reservation.consumed := by
  obtain ⟨reservation, hfound, hle⟩ := hbefore
  cases h with
  | same => exact ⟨reservation, hfound, hle⟩
  | touched stored consumed expiresAt heartbeatAt hstored hreserved hpending =>
    rw [hfound] at hstored
    cases hstored
    exact ⟨_, rfl, hle.trans hpending⟩
  | raised stored row additional expiresAt heartbeatAt hstored =>
    rw [hfound] at hstored
    cases hstored
    exact ⟨_, rfl, hle⟩
  | charged stored row consumed status now hsettling hstored hreserved hpending =>
    rw [hfound] at hstored
    cases hstored
    exact ⟨_, rfl, hle.trans hpending⟩

/-- An intent of the log is nothing, or in the reservation of its run. -/
def Intended (db : Database) (id : Uuid) (amount : Amount) : Prop :=
  amount = .zero ∨ ∃ run, db.run id = some run
    ∧ ∃ reservation, run.reservation = some reservation ∧ amount.Le reservation.consumed

theorem persistIntent_intended {input : PersistSettlementIntentInput} {db' : Database}
    (h : transaction codec s.db (.persistIntent input) = .ok db') :
    Intended db' input.runId ⟨input.consumed.tokens.toNat, input.consumed.costMicros.toNat⟩ := by
  obtain ⟨run', hpersist, h⟩ := bind_ok h
  cases h
  obtain ⟨tokens, htokens, hpersist⟩ := bind_ok hpersist
  obtain ⟨costMicros, hcost, hpersist⟩ := bind_ok hpersist
  have htokens := (nonNegativeInteger_ok htokens).1
  have hcost := (nonNegativeInteger_ok hcost).1
  rw [htokens, hcost, Int.toNat_natCast, Int.toNat_natCast]
  split at hpersist
  · rename_i hzero
    left
    rw [hzero.1, hzero.2]
    rfl
  · right
    split at hpersist
    · cases hpersist
    · rename_i expected hexpected
      obtain ⟨-, -, hpersist⟩ := bind_ok hpersist
      split at hpersist
      · cases hpersist
      · rename_i run hfound
        obtain ⟨howned, -⟩ := filter_eq_some_iff.mp hfound
        obtain ⟨hrun, -⟩ := ownedRun_eq howned
        obtain ⟨-, hid⟩ := run_mem hrun
        unfold intendedRun at hpersist
        obtain ⟨-, -, hpersist⟩ := bind_ok hpersist
        obtain ⟨-, -, hpersist⟩ := bind_ok hpersist
        split at hpersist
        · cases hpersist
        · rename_i reservation hreservation
          obtain ⟨hstored, -⟩ := reservationOf_some hreservation
          obtain ⟨existing, hexisting, hpersist⟩ := bind_ok hpersist
          obtain ⟨rfl, -⟩ := storedAmount_ok hexisting
          split at hpersist
          · cases hpersist
          · dsimp only at hpersist
            split at hpersist
            · rename_i hsame
              cases hpersist
              refine ⟨run, hrun, reservation, hstored, ?_⟩
              rw [← hsame]
              exact Amount.le_max_right _ _
            · cases hpersist
              let intended : Run := { run with reservation := some { reservation with
                consumed := reservation.consumed.max ⟨tokens, costMicros⟩, heartbeatAt := input.now } }
              have hput : (s.db.put intended s.db.daily).run input.runId
                  = if input.runId = intended.id then some intended else s.db.run input.runId :=
                put_run (by rw [show intended.id = run.id from rfl, hid]; exact hrun) input.runId
              rw [if_pos hid.symm] at hput
              exact ⟨intended, hput, _, rfl, Amount.le_max_right _ _⟩

/-! ## Runs -/

/-- The reservations agree with the runs, and the log with both. -/
structure Quotas (s : State) : Prop where
  claiming : Claiming s
  accounted : ∀ run ∈ s.db.runs, ∃ reservation, Accounted run reservation
  intended : ∀ id amount, .intended id amount ∈ s.log → Intended s.db id amount

theorem Quotas.exec (hs : Quotas s) (hop : (coordinator codec).enabled op s)
    (hreleases : ReleasesUnused op s) : Quotas (exec codec op s) := by
  have hsteps := exec_steps hs.claiming hop
  have hcarry : ∀ id amount, Intended s.db id amount →
      Intended (Agents.exec codec op s).db id amount := by
    rintro id amount (hzero | ⟨run, hrun, hin⟩)
    · exact .inl hzero
    · exact .inr (hsteps.carries
        (P := fun run => ∃ reservation, run.reservation = some reservation ∧ amount.Le reservation.consumed)
        (fun _ _ _ _ hstep hin => hstep.quota.consumed_le hin) hrun hin)
  refine ⟨hs.claiming.exec hop, ?_, ?_⟩
  · refine hsteps.forall_runs (P := fun run => ∃ reservation, Accounted run reservation) ?_ ?_
      hs.accounted
    · rintro run daily run' daily' hstep ⟨reservation, hrun⟩
      exact hstep.accounted hreleases hrun
    · rintro input reservation ⟨daily, daily', hreserve⟩
      obtain ⟨howner, hreserved, hconsumed, -⟩ := reserveQuota_ok hreserve
      refine ⟨reservation, rfl, howner, fun _ => hconsumed, fun hne => absurd hreserved hne, ?_⟩
      intro hterminal
      cases hterminal
  · intro id amount hmem
    have hlog : Logs codec s op (Agents.exec codec op s).log := exec_log
    generalize hnew : (Agents.exec codec op s).log = log at hlog hmem
    cases hlog with
    | same => exact hcarry id amount (hs.intended id amount hmem)
    | granted claim leaseToken db' candidate reclaiming hclaimNext hclaim hround =>
      rcases mem_cons.mp hmem with heq | hmem
      · cases heq
      · exact hcarry id amount (hs.intended id amount hmem)
    | wrote e hentry hok =>
      rcases mem_cons.mp hmem with heq | hmem
      · subst heq
        cases op with
        | persistIntent input =>
          cases hentry
          exact persistIntent_intended hok
        | transition input =>
          simp only [entry] at hentry
          split at hentry <;> cases hentry
        | markSideEffectsStarted lease now =>
          simp only [entry, map_eq_some_iff] at hentry
          obtain ⟨run, -, hentry⟩ := hentry
          cases hentry
        | _ => cases hentry
      · exact hcarry id amount (hs.intended id amount hmem)

theorem Quotas.initial (users : List Int) (sessions : List AgentSession) (clock : Time) :
    Quotas (.initial users sessions clock) where
  claiming := .initial users sessions clock
  accounted := by simp [State.initial, Database.initial]
  intended := by simp [State.initial]

/-- **Quota conservation.** The columns of every day are the sums over its reservations; and
where maintenance gives back only what no usage is recorded for, every run that has ended has
been charged what it has recorded and what was intended for it, or more. -/
theorem quota_conservation {users : List Int} {sessions : List AgentSession} {clock : Time}
    (h : (coordinator codec).Reachable (.initial users sessions clock) s) :
    (∀ ownerId day c,
      ((dailyRow s.db.daily ownerId day).elim .zero (·.reserved)).at c = total Reservation.held ownerId day c s.db.runs
      ∧ ((dailyRow s.db.daily ownerId day).elim .zero (·.consumed)).at c
        = total Reservation.charged ownerId day c s.db.runs)
    ∧ (((coordinator codec).restrict ReleasesUnused).Reachable (.initial users sessions clock) s →
      ∀ run ∈ s.db.runs, run.isTerminal = true → ∃ reservation,
        run.reservation = some reservation ∧ reservation.status ≠ .reserved
        ∧ (∃ charge, run.charge = .ok charge ∧ charge.Le reservation.charged)
        ∧ ∀ amount, .intended run.id amount ∈ s.log → amount.Le reservation.charged) := by
  have hbalanced := Balanced.of_reachable h
  refine ⟨fun ownerId day c => ⟨hbalanced.reserved ownerId day c, hbalanced.consumed ownerId day c⟩,
    fun hunused run hrun hterminal => ?_⟩
  have hs : Quotas s := hunused.invariant (.initial users sessions clock) fun _ _ hop hs => hs.exec hop.1 hop.2
  obtain ⟨reservation, haccounted⟩ := hs.accounted run hrun
  have hended := haccounted.ended hterminal
  refine ⟨reservation, haccounted.found, hended, haccounted.charged hended, fun amount hmem => ?_⟩
  rcases hs.intended run.id amount hmem with rfl | ⟨stored, hstored, held, hheld, hle⟩
  · exact Amount.zero_le _
  · rw [run_of_mem hs.claiming.unique hrun] at hstored
    cases hstored
    rw [haccounted.found] at hheld
    cases hheld
    -- a settled reservation was charged what it has consumed
    cases hstatus : reservation.status with
    | reserved => exact absurd hstatus hended
    | settled settled =>
      cases settled with
      | consumed => rwa [Reservation.charged, hstatus, if_pos rfl]
      | released =>
        rw [haccounted.released hstatus] at hle
        exact hle.trans (Amount.zero_le _)

instance (op : Op) (s : State) : Decidable (ReleasesUnused op s) :=
  match op with
  | .releaseExpired runId _ _ => inferInstanceAs (Decidable (∀ run ∈ s.db.run runId,
      (∀ reservation ∈ run.reservation, reservation.status ≠ .reserved) ∨ run.charge = .ok .zero))
  | .appendPresentation lease event now => inferInstanceAs (Decidable (∀ run ∈ s.db.run lease.id,
      (∀ reservation ∈ run.reservation, reservation.status = .reserved)
        ∨ (run.append lease.attempts event.body now).charge = .ok .zero))
  | .admitRun .. | .beginClaim .. | .selectCandidates .. | .claimNext .. | .heartbeat ..
  | .heartbeatReservation .. | .transition .. | .resumeApproval .. | .persistContinuation ..
  | .markSideEffectsStarted .. | .requestCancellation .. | .terminalize .. | .ensureQuota ..
  | .persistIntent .. | .persistDispatch .. | .resetDailyTokenQuota .. | .clearContinuation ..
  | .createProposal .. | .recoverRuns .. | .tombstone .. | .finishTombstone | .selectExpired ..
  | .tick .. => .isTrue trivial

instance (op : Op) (s : State) :
    Decidable (((coordinator codec).restrict ReleasesUnused).enabled op s) :=
  inferInstanceAs (Decidable (_ ∧ _))

/-- The first run reserves a dispatch. -/
def exampleDispatched : List Op :=
  let record : AgentDispatchAccountingRecord := .reserved (js "d") ⟨30, 3⟩ (some ⟨.zero, .zero⟩)
  exampleClaimed ++ [.persistDispatch (exampleLease 1 (js "t1")) record 2]

/-- Its user cancels it when its lease has expired. -/
def exampleCharged : List Op :=
  exampleDispatched ++ [.requestCancellation 7 (js "A") 101]

theorem quota_conservation_example :
    let s := (coordinator exampleCodec).after exampleCharged exampleStart
    (∀ ownerId day c,
      ((dailyRow s.db.daily ownerId day).elim .zero (·.reserved)).at c = total Reservation.held ownerId day c s.db.runs
      ∧ ((dailyRow s.db.daily ownerId day).elim .zero (·.consumed)).at c
        = total Reservation.charged ownerId day c s.db.runs)
    ∧ ∀ run ∈ s.db.runs, run.isTerminal = true → ∃ reservation,
      run.reservation = some reservation ∧ reservation.status ≠ .reserved
      ∧ (∃ charge, run.charge = .ok charge ∧ charge.Le reservation.charged)
      ∧ ∀ amount, .intended run.id amount ∈ s.log → amount.Le reservation.charged :=
  have hunused : ((coordinator exampleCodec).restrict ReleasesUnused).Reachable exampleStart
      ((coordinator exampleCodec).after exampleCharged exampleStart) :=
    ⟨exampleCharged, by decide, rfl⟩
  have hconservation := quota_conservation (Machine.reachable_of_restrict hunused)
  ⟨hconservation.1, hconservation.2 hunused⟩

/-- Maintenance gives its reservation back before. -/
def exampleReleased : List Op :=
  exampleDispatched ++ [.selectExpired (js "A") 100, .releaseExpired (js "A") 7 100,
    .requestCancellation 7 (js "A") 101]

/-- A run ends with a recorded exposure that nothing is charged for. -/
theorem released_exposure :
    (coordinator exampleCodec).Valid exampleReleased exampleStart
    ∧ (((coordinator exampleCodec).after exampleReleased exampleStart).db.runs.map fun run =>
        (run.status, run.charge, run.reservation.map Reservation.charged))
      = [(.terminal .cancelled, .ok ⟨30, 3⟩, some .zero)]
    ∧ (((coordinator exampleCodec).after exampleReleased exampleStart).db.daily.map (·.consumed)) = [.zero] := by
  decide

end TsEpistle.Agents
