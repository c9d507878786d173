import TsEpistle.Library.Checked
import TsEpistle.Agents.Interleaving

/-! What the operations do to the tables: each of them is a sequence of steps, and a step
writes one run and the daily quotas, admits a run, or leaves runs as they are. What holds
of every run or of the quotas is proved for one step. -/

namespace TsEpistle.Agents
open Library Checked

/-! ## Writing one run -/

section
variable {db db' : Database} {run run' : Run} {daily : List DailyRow} {id : Uuid}

theorem run_mem (h : db.run id = some run) : run ∈ db.runs ∧ run.id = id := Table.get_mem Run.id h

theorem run_of_mem (hunique : (db.runs.map Run.id).Nodup) (h : run ∈ db.runs) : db.run run.id = some run :=
  (Table.get_eq_some_iff Run.id hunique).mpr ⟨h, rfl⟩

theorem ownedRun_eq {ownerId : Int} (h : db.ownedRun ownerId id = some run) :
    db.run id = some run ∧ run.ownerId = ownerId := by
  obtain ⟨hrun, howner⟩ := Option.filter_eq_some_iff.mp h
  exact ⟨hrun, by simpa using howner⟩

theorem mem_put {r : Run} (h : r ∈ (db.put run daily).runs) : r = run ∨ (r ∈ db.runs ∧ r.id ≠ run.id) :=
  Table.mem_replace Run.id h

theorem put_ids : (db.put run daily).runs.map Run.id = db.runs.map Run.id := Table.map_replace Run.id run db.runs

theorem put_run (hrun : db.run run'.id = some run) (id : Uuid) :
    (db.put run' daily).run id = if id = run'.id then some run' else db.run id := by
  rw [Database.run, Database.put, Table.get_replace]
  split
  · rename_i hid
    subst hid
    rw [show Table.get Run.id db.runs run'.id = some run from hrun, Option.map_some]
  · rfl

theorem updateRun_eq_some {cond : Run → Bool} {set : Run → Run} : db.updateRun id cond set = some db' ↔ ∃ run,
    db.run id = some run ∧ cond run = true ∧ db' = db.put (set run) db.daily := by
  unfold Database.updateRun
  cases hrun : db.run id with
  | none => simp
  | some run =>
    dsimp only
    by_cases hcond : cond run = true
    · rw [if_pos hcond]
      constructor
      · rintro ⟨⟩
        exact ⟨run, rfl, hcond, rfl⟩
      · rintro ⟨_, ⟨⟩, -, rfl⟩
        rfl
    · rw [if_neg hcond]
      constructor
      · rintro ⟨⟩
      · rintro ⟨_, ⟨⟩, hcond', -⟩
        exact absurd hcond' hcond

theorem updateRun_run {cond : Run → Bool} {set : Run → Run} (hset : ∀ run, (set run).id = run.id)
    (h : db.updateRun id cond set = some db') :
    ∃ run, db.run id = some run ∧ cond run = true ∧ db'.run id = some (set run) := by
  obtain ⟨run, hrun, hcond, rfl⟩ := updateRun_eq_some.mp h
  obtain ⟨-, hid⟩ := run_mem hrun
  have hput : (db.put (set run) db.daily).run id = if id = (set run).id then some (set run)
      else db.run id := put_run (by rw [hset, hid]; exact hrun) id
  rw [if_pos (by rw [hset, hid])] at hput
  exact ⟨run, hrun, hcond, hput⟩

end

/-! ## Settlement -/

/-- What `reconcileAgentRunQuota` did where it succeeded. -/
inductive Settles (run : Run) (daily : List DailyRow) (ownerId : Int) (consumed : Amount)
    (status : SettledStatus) (now : Time) (options : ReconcileAgentQuotaOptions) :
    Run → List DailyRow → Prop
  | missing (hnone : run.reservationOf ownerId = none) (hallow : options.allowMissing = true) :
      Settles run daily ownerId consumed status now options run daily
  | already (reservation : Reservation) (settled : SettledStatus)
      (hfound : run.reservationOf ownerId = some reservation)
      (hsettled : reservation.status = .settled settled)
      (hreleased : settled = .released → reservation.consumed = .zero)
      (haccept : options.acceptAnyReconciled = true ∨ reservation.consumed = consumed) :
      Settles run daily ownerId consumed status now options run daily
  | charged (reservation : Reservation) (row : DailyRow)
      (hfound : run.reservationOf ownerId = some reservation)
      (hreserved : reservation.status = .reserved)
      (hpending : reservation.reconciledAt = none)
      (hintent : reservation.consumed.Le consumed)
      (hreleased : status = .released → consumed = .zero)
      (hsafe : consumed.safe = true)
      (hrow : dailyRow daily ownerId reservation.day = some row)
      (hheld : reservation.reserved.Le row.reserved)
      (hsum : row.consumed.tokens + consumed.tokens ≤ maxSafeInteger
        ∧ row.consumed.costMicros + consumed.costMicros ≤ maxSafeInteger) :
      Settles run daily ownerId consumed status now options
        { run with reservation := some (reservation.settle consumed status now) }
        (setDaily daily { row with
          reserved := ⟨row.reserved.tokens - reservation.reserved.tokens,
            row.reserved.costMicros - reservation.reserved.costMicros⟩
          consumed := ⟨row.consumed.tokens + consumed.tokens, row.consumed.costMicros + consumed.costMicros⟩ })

section
variable {run run' : Run} {daily daily' : List DailyRow} {ownerId : Int} {consumed : Amount}
  {status : SettledStatus} {now : Time} {options : ReconcileAgentQuotaOptions}

theorem nonNegativeInteger_ok {value : Int} {name : String} {n : Nat} (h : nonNegativeInteger value name = .ok n) :
    value = n ∧ n ≤ maxSafeInteger := by
  unfold nonNegativeInteger at h
  split at h
  · rename_i hvalue
    cases h
    omega
  · cases h

theorem storedQuotaInteger_ok {value : Nat} {name : String} {n : Nat}
    (h : storedQuotaInteger value name = .ok n) : n = value ∧ value ≤ maxSafeInteger := by
  unfold storedQuotaInteger at h
  split at h
  · rename_i hvalue
    cases h
    exact ⟨rfl, hvalue⟩
  · cases h

theorem storedQuotaSum_ok {left right : Nat} {name : String} {n : Nat} (h : storedQuotaSum left right name = .ok n) :
    n = left + right ∧ left + right ≤ maxSafeInteger := by
  unfold storedQuotaSum at h
  split at h
  · rename_i hsum
    cases h
    exact ⟨rfl, hsum⟩
  · cases h

theorem storedQuotaDifference_ok {left right : Nat} {name : String} {n : Nat}
    (h : storedQuotaDifference left right name = .ok n) : n = left - right ∧ right ≤ left := by
  unfold storedQuotaDifference at h
  split at h
  · rename_i hle
    cases h
    exact ⟨rfl, hle⟩
  · cases h

theorem storedAmount_ok {amount amount' : Amount} {name : String}
    (h : storedAmount amount name = .ok amount') : amount' = amount ∧ amount.safe = true := by
  obtain ⟨tokens, htokens, h⟩ := bind_ok h
  obtain ⟨costMicros, hcost, h⟩ := bind_ok h
  obtain ⟨rfl, hsafeTokens⟩ := storedQuotaInteger_ok htokens
  obtain ⟨rfl, hsafeCost⟩ := storedQuotaInteger_ok hcost
  cases h
  exact ⟨rfl, Amount.safe_iff.mpr ⟨hsafeTokens, hsafeCost⟩⟩

theorem settledDaily_ok {day : Day} {reserved : Amount}
    (h : settledDaily daily ownerId day reserved consumed = .ok daily') :
    ∃ row, dailyRow daily ownerId day = some row ∧ reserved.Le row.reserved
      ∧ row.consumed.tokens + consumed.tokens ≤ maxSafeInteger
      ∧ row.consumed.costMicros + consumed.costMicros ≤ maxSafeInteger
      ∧ daily' = setDaily daily { row with
          reserved := ⟨row.reserved.tokens - reserved.tokens, row.reserved.costMicros - reserved.costMicros⟩
          consumed := ⟨row.consumed.tokens + consumed.tokens, row.consumed.costMicros + consumed.costMicros⟩ } := by
  unfold settledDaily at h
  cases hrow : dailyRow daily ownerId day with
  | none =>
    rw [hrow] at h
    cases h
  | some row =>
    rw [hrow] at h
    dsimp only at h
    obtain ⟨reservedTokens, h₁, h⟩ := bind_ok h
    obtain ⟨consumedTokens, h₂, h⟩ := bind_ok h
    obtain ⟨reservedCost, h₃, h⟩ := bind_ok h
    obtain ⟨consumedCost, h₄, h⟩ := bind_ok h
    obtain ⟨u, hcheck, h⟩ := bind_ok h
    obtain ⟨nextReservedTokens, h₅, h⟩ := bind_ok h
    obtain ⟨nextConsumedTokens, h₆, h⟩ := bind_ok h
    obtain ⟨nextReservedCost, h₇, h⟩ := bind_ok h
    obtain ⟨nextConsumedCost, h₈, h⟩ := bind_ok h
    obtain ⟨rfl, -⟩ := storedQuotaInteger_ok h₁
    obtain ⟨rfl, -⟩ := storedQuotaInteger_ok h₂
    obtain ⟨rfl, -⟩ := storedQuotaInteger_ok h₃
    obtain ⟨rfl, -⟩ := storedQuotaInteger_ok h₄
    obtain ⟨rfl, hheldTokens⟩ := storedQuotaDifference_ok h₅
    obtain ⟨rfl, hsumTokens⟩ := storedQuotaSum_ok h₆
    obtain ⟨rfl, hheldCost⟩ := storedQuotaDifference_ok h₇
    obtain ⟨rfl, hsumCost⟩ := storedQuotaSum_ok h₈
    cases h
    exact ⟨row, rfl, ⟨hheldTokens, hheldCost⟩, hsumTokens, hsumCost, rfl⟩

theorem checkSettlement_ok {intent : Amount} {u : Unit} (h : checkSettlement intent consumed status = .ok u) :
    intent.Le consumed ∧ (status = .released → consumed = .zero) := by
  unfold checkSettlement at h
  split at h
  · cases h
  · rename_i hrelease
    split at h
    · cases h
    · split at h
      · cases h
      · rename_i hbelow
        simp only [Bool.or_eq_true, decide_eq_true_eq, not_or, Nat.not_lt] at hbelow
        refine ⟨⟨hbelow.1, hbelow.2⟩, fun hreleased => ?_⟩
        simp only [hreleased, decide_true, Bool.true_and, Bool.not_eq_true] at hrelease
        exact Amount.positive_eq_false_iff.mp hrelease

/-- **Reconciliation.** -/
theorem reconcile_settles
    (h : reconcileAgentRunQuota run daily ownerId consumed status now options = .ok (run', daily')) :
    Settles run daily ownerId consumed status now options run' daily' := by
  obtain ⟨tokens, htokens, h⟩ := bind_ok h
  obtain ⟨costMicros, hcost, h⟩ := bind_ok h
  have hsafe : consumed.safe = true := by
    have h₁ := nonNegativeInteger_ok htokens
    have h₂ := nonNegativeInteger_ok hcost
    rw [Amount.safe_iff]
    omega
  cases hfound : run.reservationOf ownerId with
  | none =>
    rw [hfound] at h
    dsimp only at h
    split at h
    · rename_i hallow
      cases h
      exact .missing hfound hallow
    · cases h
  | some reservation =>
    rw [hfound] at h
    dsimp only at h
    obtain ⟨reserved, hreserved, h⟩ := bind_ok h
    obtain ⟨reconciled, hreconciled, h⟩ := bind_ok h
    obtain ⟨rfl, -⟩ := storedAmount_ok hreserved
    obtain ⟨rfl, -⟩ := storedAmount_ok hreconciled
    split at h
    · cases h
    · rename_i hcorrupt
      cases hstatus : reservation.status with
      | settled settled =>
        rw [hstatus] at h hcorrupt
        dsimp only at h
        split at h
        · rename_i haccept
          cases h
          refine .already reservation settled hfound hstatus ?_ ?_
          · rintro rfl
            simp only [decide_true, Bool.true_and, Bool.not_eq_true] at hcorrupt
            exact Amount.positive_eq_false_iff.mp hcorrupt
          · simp only [Bool.or_eq_true, Bool.and_eq_true, decide_eq_true_eq] at haccept
            exact haccept.imp id And.right
        · cases h
      | reserved =>
        rw [hstatus] at h
        dsimp only at h
        split at h
        · cases h
        · rename_i hpending
          obtain ⟨u, hcheck, h⟩ := bind_ok h
          obtain ⟨hintent, hreleased⟩ := checkSettlement_ok hcheck
          cases hdaily : settledDaily daily ownerId reservation.day reservation.reserved
              consumed with
          | error e =>
            rw [hdaily] at h
            dsimp only at h
            split at h <;> cases h
          | ok settledRows =>
            rw [hdaily] at h
            cases h
            obtain ⟨row, hrow, hheld, hsumTokens, hsumCost, rfl⟩ := settledDaily_ok hdaily
            exact .charged reservation row hfound hstatus (by simpa using hpending) hintent
              hreleased hsafe hrow hheld ⟨hsumTokens, hsumCost⟩

end

end TsEpistle.Agents
