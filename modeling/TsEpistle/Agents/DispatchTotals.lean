import TsEpistle.Agents.DispatchAccounting
import TsEpistle.Library.Checked

/-! What a dispatch journal amounts to. The journals that can be read are told apart by the records of
each dispatch alone, and the answer is the baseline with a sum over the dispatches. -/

namespace TsEpistle.Agents
open Library Checked List

namespace AgentDispatchAccountingRecord

def dispatchId : AgentDispatchAccountingRecord → Uuid
  | reserved dispatchId _ _ => dispatchId
  | reconciled dispatchId _ => dispatchId
  | released dispatchId => dispatchId

def baseline : AgentDispatchAccountingRecord → Option AgentDispatchAccountingState
  | reserved _ _ baseline => baseline
  | _ => none

def settles : AgentDispatchAccountingRecord → Bool
  | reserved _ _ _ => false
  | _ => true

def reservation : AgentDispatchAccountingRecord → Option (Uuid × Amount)
  | reserved dispatchId exposure _ => some (dispatchId, exposure)
  | _ => none

def measured : AgentDispatchAccountingRecord → Option Usage
  | reconciled _ usage => some usage
  | _ => none

end AgentDispatchAccountingRecord

open AgentDispatchAccountingRecord

variable {records rest rest' : List AgentDispatchAccountingRecord}
  {record : AgentDispatchAccountingRecord} {id : Uuid}

/-! ## The records of one dispatch -/

def recordsOf (id : Uuid) (records : List AgentDispatchAccountingRecord) :
    List AgentDispatchAccountingRecord :=
  records.filter fun record => record.dispatchId = id

/-- Nothing, a reservation, or a reservation and its settlement. -/
inductive Lifecycle : List AgentDispatchAccountingRecord → Prop
  | unknown : Lifecycle []
  | reserved {first : AgentDispatchAccountingRecord} (h : first.settles = false) : Lifecycle [first]
  | settled {first last : AgentDispatchAccountingRecord} (h : first.settles = false)
      (h' : last.settles = true) : Lifecycle [first, last]

theorem recordsOf_append (id : Uuid) (records rest : List AgentDispatchAccountingRecord) :
    recordsOf id (records ++ rest) = recordsOf id records ++ recordsOf id rest :=
  filter_append _ _

theorem recordsOf_self (record : AgentDispatchAccountingRecord) : recordsOf record.dispatchId [record] = [record] := by
  simp [recordsOf]

theorem recordsOf_other (h : record.dispatchId ≠ id) : recordsOf id [record] = [] := by
  simp [recordsOf, h]

theorem mem_recordsOf : record ∈ recordsOf id records ↔ record ∈ records ∧ record.dispatchId = id := by
  simp [recordsOf]

theorem Lifecycle.of_append (h : Lifecycle (records ++ [record])) : Lifecycle records := by
  generalize hall : records ++ [record] = all at h
  cases h with
  | unknown => simp at hall
  | reserved h =>
    obtain ⟨rfl, -⟩ := (append_eq_singleton_iff.mp hall).resolve_right (by simp)
    exact .unknown
  | @settled first last h h' =>
    have hsplit : records ++ [record] = [first] ++ [last] := hall
    obtain ⟨rfl, -⟩ := append_inj' hsplit rfl
    exact .reserved h

/-- A reservation comes first. -/
theorem Lifecycle.append_reserved (hrecord : record.settles = false) :
    Lifecycle (records ++ [record]) ↔ records = [] := by
  constructor
  · intro h
    generalize hall : records ++ [record] = all at h
    cases h with
    | unknown => simp at hall
    | reserved h => exact ((append_eq_singleton_iff.mp hall).resolve_right (by simp)).1
    | @settled first last h h' =>
      have hsplit : records ++ [record] = [first] ++ [last] := hall
      obtain ⟨-, hlast⟩ := append_inj' hsplit rfl
      obtain rfl := singleton_inj.mp hlast
      rw [hrecord] at h'
      cases h'
  · rintro rfl
    exact .reserved hrecord

/-- A settlement follows the reservation. -/
theorem Lifecycle.append_settled (hrecord : record.settles = true) :
    Lifecycle (records ++ [record]) ↔ ∃ first, first.settles = false ∧ records = [first] := by
  constructor
  · intro h
    generalize hall : records ++ [record] = all at h
    cases h with
    | unknown => simp at hall
    | reserved h =>
      obtain ⟨-, hlast⟩ := (append_eq_singleton_iff.mp hall).resolve_right (by simp)
      obtain rfl := singleton_inj.mp hlast
      rw [hrecord] at h
      cases h
    | @settled first last h h' =>
      have hsplit : records ++ [record] = [first] ++ [last] := hall
      obtain ⟨rfl, -⟩ := append_inj' hsplit rfl
      exact ⟨first, h, rfl⟩
  · rintro ⟨first, h, rfl⟩
    exact .settled h hrecord

theorem lifecycles_append : (∀ id, Lifecycle (recordsOf id (records ++ [record]))) ↔
    (∀ id, Lifecycle (recordsOf id records)) ∧ Lifecycle (recordsOf record.dispatchId records ++ [record]) := by
  constructor
  · intro h
    refine ⟨fun id => ?_, ?_⟩
    · have hid := h id
      rw [recordsOf_append] at hid
      by_cases hrecord : record.dispatchId = id
      · subst hrecord
        rw [recordsOf_self] at hid
        exact hid.of_append
      · rwa [recordsOf_other hrecord, append_nil] at hid
    · have hid := h record.dispatchId
      rwa [recordsOf_append, recordsOf_self] at hid
  · rintro ⟨h, hrecord⟩ id
    rw [recordsOf_append]
    by_cases hid : record.dispatchId = id
    · subst hid
      rwa [recordsOf_self]
    · rw [recordsOf_other hid, append_nil]
      exact h id

/-! ## Sums -/

def settledIn (records : List AgentDispatchAccountingRecord) (id : Uuid) : Bool :=
  records.any fun record => record.settles && record.dispatchId = id

/-- The dispatches that were reserved and neither reconciled nor released. -/
def unsettled (records : List AgentDispatchAccountingRecord) : List (Uuid × Amount) :=
  (records.filterMap reservation).filter fun dispatch => !settledIn records dispatch.1

def measuredUsages (records : List AgentDispatchAccountingRecord) : List Usage :=
  records.filterMap measured

/-- A usage and the usages of reconciled dispatches, number by number. -/
def usageWith (baseline : Usage) (usages : List Usage) : Usage where
  inputTokens := baseline.inputTokens + (usages.map (·.inputTokens)).sum
  outputTokens := baseline.outputTokens + (usages.map (·.outputTokens)).sum
  totalTokens := baseline.totalTokens + (usages.map (·.totalTokens)).sum
  costMicros := baseline.costMicros + (usages.map (·.costMicros)).sum

def exposureWith (baseline : Amount) (dispatches : List (Uuid × Amount)) : Amount where
  tokens := baseline.tokens + (dispatches.map (·.2.tokens)).sum
  costMicros := baseline.costMicros + (dispatches.map (·.2.costMicros)).sum

theorem usageWith_append (baseline usage : Usage) (usages : List Usage) :
    usageWith baseline (usages ++ [usage]) =
      ⟨(usageWith baseline usages).inputTokens + usage.inputTokens,
        (usageWith baseline usages).outputTokens + usage.outputTokens,
        (usageWith baseline usages).totalTokens + usage.totalTokens,
        (usageWith baseline usages).costMicros + usage.costMicros⟩ := by
  simp [usageWith, Nat.add_assoc]

theorem usageWith_perm (baseline : Usage) {usages usages' : List Usage} (h : usages.Perm usages') :
    usageWith baseline usages = usageWith baseline usages' := by
  simp only [usageWith, (h.map _).sum_eq]

theorem exposureWith_perm (baseline : Amount) {dispatches dispatches' : List (Uuid × Amount)}
    (h : dispatches.Perm dispatches') : exposureWith baseline dispatches = exposureWith baseline dispatches' := by
  simp only [exposureWith, (h.map _).sum_eq]

theorem usage_safe_iff {usage : Usage} : usage.safe = true ↔ usage.inputTokens ≤ maxSafeInteger ∧
    usage.outputTokens ≤ maxSafeInteger ∧ usage.totalTokens ≤ maxSafeInteger ∧ usage.costMicros ≤ maxSafeInteger := by
  simp [Usage.safe, and_assoc]

theorem usage_consistent_iff {usage : Usage} : usage.consistent = true ↔
    usage.safe = true ∧ usage.inputTokens + usage.outputTokens ≤ usage.totalTokens := by
  simp [Usage.consistent]

/-- Sums of consistent usages are consistent as long as they are safe. -/
theorem usageWith_consistent {baseline : Usage} {usages : List Usage} (hbaseline : baseline.consistent = true)
    (husages : ∀ usage ∈ usages, usage.consistent = true) (hsafe : (usageWith baseline usages).safe = true) :
    (usageWith baseline usages).consistent = true := by
  refine usage_consistent_iff.mpr ⟨hsafe, ?_⟩
  clear hsafe
  have hfirst := (usage_consistent_iff.mp hbaseline).2
  induction usages with
  | nil => simpa [usageWith] using hfirst
  | cons usage usages ih =>
    have hhead := (usage_consistent_iff.mp (husages usage mem_cons_self)).2
    have hrest := ih fun other hother => husages other (mem_cons_of_mem _ hother)
    simp only [usageWith, map_cons, sum_cons] at hrest ⊢
    omega

/-- The loop over the dispatches that are left adds them all, or some sum is not safe. -/
theorem foldlM_addExposure (dispatches : List (Uuid × Amount)) (baseline : Amount)
    (hbaseline : baseline.safe = true) :
    dispatches.foldlM (fun sum dispatch => addExposure sum dispatch.2) baseline =
      if (exposureWith baseline dispatches).safe then .ok (exposureWith baseline dispatches)
      else .error dispatchCorrupt := by
  induction dispatches generalizing baseline with
  | nil =>
    have hnone : exposureWith baseline [] = baseline := by simp [exposureWith]
    rw [hnone, if_pos hbaseline]
    rfl
  | cons dispatch dispatches ih =>
    have hsum : exposureWith baseline (dispatch :: dispatches) = exposureWith
        ⟨baseline.tokens + dispatch.2.tokens, baseline.costMicros + dispatch.2.costMicros⟩ dispatches := by
      simp [exposureWith, Nat.add_assoc]
    rw [foldlM_cons, addExposure, hsum]
    by_cases hsafe : (Amount.safe ⟨baseline.tokens + dispatch.2.tokens,
        baseline.costMicros + dispatch.2.costMicros⟩) = true
    · rw [if_pos hsafe]
      exact ih _ hsafe
    · have hrest : ¬ (exposureWith ⟨baseline.tokens + dispatch.2.tokens,
          baseline.costMicros + dispatch.2.costMicros⟩ dispatches).safe = true := by
        intro h
        rw [Amount.safe_iff] at h hsafe
        simp only [exposureWith] at h
        dsimp only at hsafe
        omega
      rw [if_neg hsafe, if_neg hrest]
      rfl

/-! ## Reading -/

/-- The baseline of the first record. -/
def baselineOf (records : List AgentDispatchAccountingRecord) : Option AgentDispatchAccountingState :=
  records.head?.bind baseline

/-- The variables of the loop after these records. -/
def summary (records : List AgentDispatchAccountingRecord) : DispatchJournal where
  state := (baselineOf records).map fun baseline =>
    { baseline with usage := usageWith baseline.usage (measuredUsages records) }
  active := unsettled records
  identified := (records.filterMap reservation).map (·.1)

/-- The records that the loop gets through. -/
structure Readable (records : List AgentDispatchAccountingRecord) : Prop where
  accepted : ∀ record ∈ records, record.accepted = true
  lifecycle : ∀ id, Lifecycle (recordsOf id records)
  consistent : ∀ usage ∈ measuredUsages records, usage.consistent = true
  begun : ∀ first rest, records = first :: rest → ∃ baseline, first.baseline = some baseline ∧
    baseline.usage.consistent = true ∧
    (usageWith baseline.usage (measuredUsages records)).safe = true ∧
    ∀ record ∈ rest, record.baseline = none

theorem reserved_of_settles (h : record.settles = false) :
    ∃ exposure baseline, record = .reserved record.dispatchId exposure baseline := by
  cases record with
  | reserved id exposure baseline => exact ⟨exposure, baseline, rfl⟩
  | reconciled | released => cases h

variable {exposure : Amount}

theorem mem_reservations : (id, exposure) ∈ records.filterMap reservation ↔
    ∃ baseline, .reserved id exposure baseline ∈ records := by
  rw [mem_filterMap]
  constructor
  · rintro ⟨record, hmem, hrecord⟩
    cases record with
    | reserved other exposure' baseline =>
      cases hrecord
      exact ⟨baseline, hmem⟩
    | reconciled | released => cases hrecord
  · rintro ⟨baseline, hmem⟩
    exact ⟨_, hmem, rfl⟩

theorem settledIn_append (id : Uuid) : settledIn (records ++ [record]) id =
    (settledIn records id || (record.settles && record.dispatchId = id)) := by
  simp [settledIn]

theorem settledIn_iff : settledIn records id = true ↔ ∃ record ∈ recordsOf id records, record.settles = true := by
  simp only [settledIn, any_eq_true, Bool.and_eq_true, decide_eq_true_eq, mem_recordsOf]
  constructor
  · rintro ⟨record, hmem, hsettles, hid⟩
    exact ⟨record, ⟨hmem, hid⟩, hsettles⟩
  · rintro ⟨record, ⟨hmem, hid⟩, hsettles⟩
    exact ⟨record, hmem, hsettles, hid⟩

/-- A settlement reserves nothing. -/
theorem filterMap_settles (h : record.settles = true) : [record].filterMap reservation = [] := by
  cases record with
  | reserved id exposure baseline => cases h
  | reconciled | released => rfl

theorem unsettled_append_settles (h : record.settles = true) :
    unsettled (records ++ [record]) = (unsettled records).filter fun dispatch => dispatch.1 ≠ record.dispatchId := by
  rw [unsettled, unsettled, filterMap_append, filterMap_settles h, append_nil, filter_filter]
  refine filter_congr fun dispatch _ => ?_
  rw [settledIn_append, h]
  by_cases hid : dispatch.1 = record.dispatchId
  · simp [hid]
  · have hid' : ¬ record.dispatchId = dispatch.1 := fun heq => hid heq.symm
    simp [hid, hid']

variable {baseline : Option AgentDispatchAccountingState}

theorem unsettled_append_reserved (h : recordsOf id records = []) :
    unsettled (records ++ [.reserved id exposure baseline]) = unsettled records ++ [(id, exposure)] := by
  have hsame : ∀ other, settledIn (records ++ [.reserved id exposure baseline]) other =
      settledIn records other := by
    intro other
    rw [settledIn_append]
    simp [settles]
  have hopen : settledIn records id = false := by
    by_contra hsettled
    obtain ⟨record, hmem, -⟩ := settledIn_iff.mp (by simpa using hsettled)
    rw [h] at hmem
    cases hmem
  rw [unsettled, unsettled, filterMap_append, filter_append]
  simp only [hsame]
  simp [reservation, hopen]

namespace Readable

theorem reservation_of_ne_nil (h : Readable records) (hne : recordsOf id records ≠ []) :
    ∃ exposure baseline, .reserved id exposure baseline ∈ recordsOf id records := by
  have hreserved : ∀ record, record.settles = false → record ∈ recordsOf id records →
      ∃ exposure baseline, .reserved id exposure baseline ∈ recordsOf id records := by
    intro record hrecord hmem
    obtain ⟨exposure, baseline, heq⟩ := reserved_of_settles hrecord
    rw [(mem_recordsOf.mp hmem).2] at heq
    exact ⟨exposure, baseline, heq ▸ hmem⟩
  have hlife := h.lifecycle id
  generalize hof : recordsOf id records = own at hlife hne hreserved
  cases hlife with
  | unknown => exact absurd rfl hne
  | reserved hfirst => exact hreserved _ hfirst mem_cons_self
  | settled hfirst hlast => exact hreserved _ hfirst mem_cons_self

theorem identified_iff (h : Readable records) :
    (summary records).identified.contains id = true ↔ recordsOf id records ≠ [] := by
  rw [contains_iff_mem, summary, mem_map]
  constructor
  · rintro ⟨⟨other, exposure⟩, hmem, rfl⟩ hnone
    obtain ⟨baseline, hrecord⟩ := mem_reservations.mp hmem
    have hown : AgentDispatchAccountingRecord.reserved other exposure baseline ∈ recordsOf other records :=
      mem_recordsOf.mpr ⟨hrecord, rfl⟩
    rw [hnone] at hown
    cases hown
  · intro hne
    obtain ⟨exposure, baseline, hmem⟩ := h.reservation_of_ne_nil hne
    exact ⟨(id, exposure), mem_reservations.mpr ⟨baseline, (mem_recordsOf.mp hmem).1⟩, rfl⟩

theorem active_iff (h : Readable records) : ((summary records).active.any fun dispatch => dispatch.1 = id) = true ↔
    ∃ first, first.settles = false ∧ recordsOf id records = [first] := by
  simp only [summary, unsettled, any_eq_true, mem_filter, decide_eq_true_eq, Bool.not_eq_true']
  constructor
  · rintro ⟨⟨other, exposure⟩, ⟨hmem, hopen⟩, rfl⟩
    obtain ⟨baseline, hrecord⟩ := mem_reservations.mp hmem
    have hown : AgentDispatchAccountingRecord.reserved other exposure baseline ∈ recordsOf other records :=
      mem_recordsOf.mpr ⟨hrecord, rfl⟩
    have hnone : ∀ record ∈ recordsOf other records, record.settles = true → False := by
      intro record hrecord hsettles
      have hsettled := settledIn_iff.mpr ⟨record, hrecord, hsettles⟩
      rw [hopen] at hsettled
      cases hsettled
    have hlife := h.lifecycle other
    generalize hof : recordsOf other records = own at hlife hown hnone ⊢
    cases hlife with
    | unknown => cases hown
    | reserved hfirst => exact ⟨_, hfirst, rfl⟩
    | settled hfirst hlast => exact (hnone _ (by simp) hlast).elim
  · rintro ⟨first, hfirst, hof⟩
    have hmem : first ∈ recordsOf id records := by rw [hof]; exact mem_cons_self
    obtain ⟨exposure, baseline, heq⟩ := reserved_of_settles hfirst
    rw [(mem_recordsOf.mp hmem).2] at heq
    refine ⟨(id, exposure), ⟨mem_reservations.mpr ⟨baseline, heq ▸ (mem_recordsOf.mp hmem).1⟩, ?_⟩, rfl⟩
    by_contra hsettled
    obtain ⟨record, hrecord, hsettles⟩ := settledIn_iff.mp (by simpa using hsettled)
    rw [hof, mem_singleton] at hrecord
    rw [hrecord, hfirst] at hsettles
    cases hsettles

theorem nil : Readable [] := by
  refine ⟨by simp, fun _ => .unknown, by simp [measuredUsages], fun first rest h => ?_⟩
  cases h

/-- The loop has a state after the first record. -/
theorem state (h : Readable records) (hne : records ≠ []) : ∃ baseline, baselineOf records = some baseline ∧
    baseline.usage.consistent = true ∧ (usageWith baseline.usage (measuredUsages records)).safe = true ∧
    ∀ record ∈ records.tail, record.baseline = none := by
  cases records with
  | nil => exact absurd rfl hne
  | cons first rest =>
    obtain ⟨baseline, hfirst, hconsistent, hsafe, hrest⟩ := h.begun first rest rfl
    exact ⟨baseline, hfirst, hconsistent, hsafe, hrest⟩

end Readable

theorem measuredUsages_append : measuredUsages (records ++ [record]) =
    measuredUsages records ++ record.measured.toList := by
  rw [measuredUsages, measuredUsages, filterMap_append]
  cases record <;> rfl

theorem baselineOf_append (hne : records ≠ []) : baselineOf (records ++ rest) = baselineOf records := by
  cases records with
  | nil => exact absurd rfl hne
  | cons first records => rfl

/-- What a record must be to be read after others. -/
structure Follows (records : List AgentDispatchAccountingRecord) (record : AgentDispatchAccountingRecord) :
    Prop where
  accepted : record.accepted = true
  lifecycle : Lifecycle (recordsOf record.dispatchId records ++ [record])
  consistent : ∀ usage, record.measured = some usage → usage.consistent = true
  first : records = [] → ∃ baseline, record.baseline = some baseline ∧ baseline.usage.consistent = true
  later : ∀ baseline, baselineOf records = some baseline → record.baseline = none ∧
    (usageWith baseline.usage (measuredUsages records ++ record.measured.toList)).safe = true

theorem measured_of_baseline {baseline : AgentDispatchAccountingState}
    (h : record.baseline = some baseline) : record.measured = none := by
  cases record with
  | reserved id exposure own => rfl
  | reconciled | released => cases h

theorem usageWith_nil (baseline : Usage) : usageWith baseline [] = baseline := by
  simp [usageWith]

theorem Readable.append (h : Readable records) : Readable (records ++ [record]) ↔ Follows records record := by
  constructor
  · intro hall
    refine ⟨hall.accepted _ (by simp), (lifecycles_append.mp hall.lifecycle).2, fun usage husage => ?_,
      fun hnil => ?_, fun baseline hbaseline => ?_⟩
    · exact hall.consistent usage (by rw [measuredUsages_append, husage]; simp)
    · subst hnil
      obtain ⟨baseline, hfirst, hconsistent, -, -⟩ := hall.begun record [] rfl
      exact ⟨baseline, hfirst, hconsistent⟩
    · have hne : records ≠ [] := by
        rintro rfl
        cases hbaseline
      obtain ⟨own, hown, -, hsafe, hrest⟩ := hall.state (by simp)
      rw [baselineOf_append hne, hbaseline] at hown
      obtain rfl := Option.some.inj hown
      rw [measuredUsages_append] at hsafe
      refine ⟨hrest record ?_, hsafe⟩
      rw [tail_append_of_ne_nil hne]
      simp
  · intro hfollows
    refine ⟨?_, lifecycles_append.mpr ⟨h.lifecycle, hfollows.lifecycle⟩, ?_, ?_⟩
    · exact forall_mem_append.mpr ⟨h.accepted, forall_mem_singleton.mpr hfollows.accepted⟩
    · intro usage husage
      rw [measuredUsages_append, mem_append, Option.mem_toList] at husage
      exact husage.elim (h.consistent usage) (hfollows.consistent usage)
    · intro first rest hsplit
      cases records with
      | nil =>
        obtain ⟨rfl, rfl⟩ := List.cons.inj hsplit
        obtain ⟨baseline, hbaseline, hconsistent⟩ := hfollows.first rfl
        refine ⟨baseline, hbaseline, hconsistent, ?_, by simp⟩
        rw [measuredUsages_append, measured_of_baseline hbaseline]
        have hsafe := (usage_consistent_iff.mp hconsistent).1
        simpa [measuredUsages, usageWith_nil] using hsafe
      | cons head tail =>
        obtain ⟨rfl, rfl⟩ := List.cons.inj hsplit
        obtain ⟨baseline, hbaseline, hconsistent, -, hrest⟩ := h.begun head tail rfl
        obtain ⟨hnone, hsafe⟩ := hfollows.later baseline hbaseline
        rw [← measuredUsages_append] at hsafe
        refine ⟨baseline, hbaseline, hconsistent, hsafe, fun other hother => ?_⟩
        rcases mem_append.mp hother with hother | hother
        · exact hrest other hother
        · rw [mem_singleton.mp hother]
          exact hnone

theorem Readable.of_append (h : Readable (records ++ [record])) : Readable records := by
  refine ⟨fun other hother => h.accepted other (by simp [hother]),
    (lifecycles_append.mp h.lifecycle).1, fun usage husage => h.consistent usage ?_,
    fun first rest hsplit => ?_⟩
  · rw [measuredUsages_append]
    exact mem_append_left _ husage
  · obtain ⟨baseline, hbaseline, hconsistent, hsafe, hrest⟩ := h.begun first (rest ++ [record])
      (by rw [hsplit]; rfl)
    refine ⟨baseline, hbaseline, hconsistent, ?_, fun other hother => hrest other (by simp [hother])⟩
    rw [measuredUsages_append, usage_safe_iff] at hsafe
    rw [usage_safe_iff]
    simp only [usageWith, map_append, sum_append] at hsafe ⊢
    omega

/-! ## The loop -/

open DispatchJournal

theorem summary_state {baseline : AgentDispatchAccountingState} (h : baselineOf records = some baseline) :
    (summary records).state = some { baseline with usage := usageWith baseline.usage (measuredUsages records) } := by
  rw [summary, h]
  rfl

variable {journal : DispatchJournal}

theorem reserve_summary (h : Readable records) : (summary records).reserve id exposure baseline = .ok journal ↔
    recordsOf id records = [] ∧ (records = [] → ∃ own, baseline = some own ∧ own.usage.consistent = true) ∧
    (records ≠ [] → baseline = none) ∧ journal = summary (records ++ [.reserved id exposure baseline]) := by
  unfold reserve
  by_cases hid : (summary records).identified.contains id = true
  · rw [if_pos hid]
    refine iff_of_false nofun fun hall => ?_
    exact h.identified_iff.mp hid hall.1
  have hnone : recordsOf id records = [] := by
    by_contra hne
    exact hid (h.identified_iff.mpr hne)
  have hactive : unsettled (records ++ [.reserved id exposure baseline]) = unsettled records ++ [(id, exposure)] :=
    unsettled_append_reserved hnone
  rw [if_neg hid]
  by_cases hne : records = []
  · subst hne
    cases baseline with
    | none => simp [summary, baselineOf]
    | some own =>
      by_cases hconsistent : own.usage.consistent = true
      · have hjournal : summary ([] ++ [.reserved id exposure (some own)]) =
            ⟨some own, unsettled [] ++ [(id, exposure)], [id]⟩ := by
          have husages : measuredUsages ([] ++ [.reserved id exposure (some own)]) = [] := rfl
          rw [summary, hactive, husages]
          simp [baselineOf, AgentDispatchAccountingRecord.baseline, usageWith_nil, reservation]
        have hstate : (summary []).state = none := rfl
        rw [hjournal]
        simp only [hstate, hconsistent, if_true]
        constructor
        · intro hok
          exact ⟨hnone, fun _ => ⟨own, rfl, hconsistent⟩, fun hne => absurd rfl hne, (Except.ok.inj hok).symm⟩
        · rintro ⟨-, -, -, rfl⟩
          rfl
      · simp [summary, baselineOf, hconsistent, hnone]
  · obtain ⟨own, hown, -⟩ := h.state hne
    rw [summary_state hown]
    cases baseline with
    | some other => simp [hne]
    | none =>
      have hbaseline : baselineOf (records ++ [.reserved id exposure none]) = some own := by
        rw [baselineOf_append hne, hown]
      have husages : measuredUsages (records ++ [.reserved id exposure none]) =
          measuredUsages records := by
        rw [measuredUsages_append]
        exact append_nil _
      have hjournal : summary (records ++ [.reserved id exposure none]) =
          ⟨some { own with usage := usageWith own.usage (measuredUsages records) },
            unsettled records ++ [(id, exposure)],
            (records.filterMap reservation).map (·.1) ++ [id]⟩ := by
        rw [summary, hbaseline, hactive, husages, filterMap_append, map_append]
        rfl
      rw [hjournal]
      constructor
      · intro hok
        exact ⟨hnone, fun hnil => absurd hnil hne, fun _ => rfl, (Except.ok.inj hok).symm⟩
      · rintro ⟨-, -, -, rfl⟩
        rfl

theorem settle_summary (h : Readable records)
    {found : AgentDispatchAccountingState × List (Uuid × Amount)} :
    (summary records).settle id = .ok found ↔
      ∃ baseline, baselineOf records = some baseline ∧
        (∃ first, first.settles = false ∧ recordsOf id records = [first]) ∧
        found = ({ baseline with usage := usageWith baseline.usage (measuredUsages records) },
          (unsettled records).filter fun dispatch => dispatch.1 ≠ id) := by
  unfold settle
  by_cases hne : records = []
  · subst hne
    simp [summary, baselineOf]
  · obtain ⟨own, hown, -⟩ := h.state hne
    rw [summary_state hown]
    dsimp only
    by_cases hid : ((summary records).active.any fun dispatch => dispatch.1 = id) = true
    · rw [if_pos hid]
      constructor
      · intro hok
        exact ⟨own, hown, h.active_iff.mp hid, (Except.ok.inj hok).symm⟩
      · rintro ⟨baseline, hbaseline, -, rfl⟩
        rw [hown] at hbaseline
        obtain rfl := Option.some.inj hbaseline
        rfl
    · rw [if_neg hid]
      refine iff_of_false nofun ?_
      rintro ⟨-, -, hopen, -⟩
      exact hid (h.active_iff.mpr hopen)

theorem summary_append_settles (hne : records ≠ []) (h : record.settles = true) :
    summary (records ++ [record]) =
      ⟨(baselineOf records).map fun baseline => { baseline with
          usage := usageWith baseline.usage (measuredUsages records ++ record.measured.toList) },
        (unsettled records).filter fun dispatch => dispatch.1 ≠ record.dispatchId,
        (summary records).identified⟩ := by
  rw [summary, baselineOf_append hne, unsettled_append_settles h, measuredUsages_append,
    filterMap_append, filterMap_settles h, append_nil]
  rfl

theorem ne_nil_of_baseline {baseline : AgentDispatchAccountingState}
    (h : baselineOf records = some baseline) : records ≠ [] := by
  rintro rfl
  cases h

theorem ne_nil_of_open
    (h : ∃ first : AgentDispatchAccountingRecord, first.settles = false ∧ recordsOf id records = [first]) :
    records ≠ [] := by
  rintro rfl
  obtain ⟨first, -, hfirst⟩ := h
  cases hfirst

theorem read_reserved (h : Readable records) (haccepted : (reserved id exposure baseline).accepted = true) :
    (summary records).read (.reserved id exposure baseline) = .ok journal ↔
    Follows records (.reserved id exposure baseline) ∧
    journal = summary (records ++ [.reserved id exposure baseline]) := by
  unfold DispatchJournal.read
  rw [if_neg (by simpa using haccepted)]
  dsimp only
  rw [reserve_summary h]
  constructor
  · rintro ⟨hnone, hfirst, hlater, rfl⟩
    refine ⟨⟨haccepted, (Lifecycle.append_reserved rfl).mpr hnone,
      fun _ husage => (Option.some_ne_none _ husage.symm).elim, hfirst, fun own hown => ⟨?_, ?_⟩⟩, rfl⟩
    · exact hlater (ne_nil_of_baseline hown)
    · have hne := ne_nil_of_baseline hown
      obtain ⟨other, hother, -, hsafe, -⟩ := h.state hne
      rw [hown] at hother
      obtain rfl := Option.some.inj hother
      simpa [measured] using hsafe
  · rintro ⟨hfollows, rfl⟩
    refine ⟨(Lifecycle.append_reserved rfl).mp hfollows.lifecycle, hfollows.first, fun hne => ?_, rfl⟩
    obtain ⟨own, hown, -⟩ := h.state hne
    exact (hfollows.later own hown).1

theorem read_reconciled (h : Readable records) {usage : Usage} (haccepted : (reconciled id usage).accepted = true) :
    (summary records).read (.reconciled id usage) = .ok journal ↔ Follows records (.reconciled id usage) ∧
    journal = summary (records ++ [.reconciled id usage]) := by
  unfold DispatchJournal.read
  rw [if_neg (by simpa using haccepted)]
  dsimp only
  constructor
  · intro hok
    obtain ⟨found, hfound, hok⟩ := bind_ok hok
    obtain ⟨baseline, hbaseline, hopen, rfl⟩ := (settle_summary h).mp hfound
    dsimp only at hok
    split at hok
    · cases hok
    rename_i hconsistent
    obtain ⟨total, htotal, hok⟩ := bind_ok hok
    unfold addUsage at htotal
    dsimp only at htotal
    split at htotal
    swap
    · cases htotal
    rename_i hsafe
    obtain rfl := Except.ok.inj htotal
    obtain rfl := Except.ok.inj hok
    rw [← usageWith_append] at hsafe
    have hne := ne_nil_of_baseline hbaseline
    refine ⟨⟨haccepted, (Lifecycle.append_settled rfl).mpr hopen, ?_, fun hnil => absurd hnil hne, ?_⟩, ?_⟩
    · rintro other hother
      obtain rfl := Option.some.inj hother
      simpa using hconsistent
    · intro own hown
      rw [hbaseline] at hown
      obtain rfl := Option.some.inj hown
      exact ⟨rfl, hsafe⟩
    · rw [summary_append_settles hne rfl, hbaseline, ← usageWith_append]
      rfl
  · rintro ⟨hfollows, rfl⟩
    have hopen := (Lifecycle.append_settled rfl).mp hfollows.lifecycle
    have hne := ne_nil_of_open hopen
    obtain ⟨own, hown, -⟩ := h.state hne
    have hsafe := (hfollows.later own hown).2
    have hconsistent := hfollows.consistent usage rfl
    have htotal : addUsage (usageWith own.usage (measuredUsages records)) usage =
        .ok (usageWith own.usage (measuredUsages records ++ [usage])) := by
      rw [addUsage, usageWith_append]
      exact if_pos (usageWith_append own.usage usage _ ▸ hsafe)
    have hsettle : (summary records).settle id = .ok _ := (settle_summary h).mpr ⟨own, hown, hopen, rfl⟩
    rw [hsettle, summary_append_settles hne rfl, hown]
    simp only [bind, Except.bind, hconsistent, htotal]
    rfl

theorem read_released (h : Readable records) (haccepted : (released id).accepted = true) :
    (summary records).read (.released id) = .ok journal ↔
      Follows records (.released id) ∧ journal = summary (records ++ [.released id]) := by
  unfold DispatchJournal.read
  rw [if_neg (by simpa using haccepted)]
  dsimp only
  constructor
  · intro hok
    obtain ⟨found, hfound, hok⟩ := bind_ok hok
    obtain ⟨baseline, hbaseline, hopen, rfl⟩ := (settle_summary h).mp hfound
    obtain rfl := Except.ok.inj hok
    have hne := ne_nil_of_baseline hbaseline
    refine ⟨⟨haccepted, (Lifecycle.append_settled rfl).mpr hopen,
      fun _ husage => (Option.some_ne_none _ husage.symm).elim, fun hnil => absurd hnil hne, ?_⟩, ?_⟩
    · intro own hown
      obtain ⟨other, hother, -, hsafe, -⟩ := h.state hne
      rw [hown] at hother
      obtain rfl := Option.some.inj hother
      exact ⟨rfl, by simpa [measured] using hsafe⟩
    · have hsame : measuredUsages records ++ (released id).measured.toList =
          measuredUsages records := append_nil _
      rw [summary_append_settles hne rfl, hbaseline, hsame]
      rfl
  · rintro ⟨hfollows, rfl⟩
    have hopen := (Lifecycle.append_settled rfl).mp hfollows.lifecycle
    have hne := ne_nil_of_open hopen
    obtain ⟨own, hown, -⟩ := h.state hne
    have hsettle : (summary records).settle id = .ok _ := (settle_summary h).mpr ⟨own, hown, hopen, rfl⟩
    have hsame : measuredUsages records ++ (released id).measured.toList = measuredUsages records := append_nil _
    rw [hsettle, summary_append_settles hne rfl, hown, hsame]
    rfl

/-- The body of the loop keeps the summary, and fails where a record does not follow. -/
theorem read_summary (h : Readable records) :
    (summary records).read record = .ok journal ↔ Follows records record ∧ journal = summary (records ++ [record]) := by
  by_cases haccepted : record.accepted = true
  · cases record with
    | reserved id exposure baseline => exact read_reserved h haccepted
    | reconciled id usage => exact read_reconciled h haccepted
    | released id => exact read_released h haccepted
  · unfold DispatchJournal.read
    rw [if_pos (by simpa using haccepted)]
    exact iff_of_false (fun hok => by cases hok) fun hall => haccepted hall.1.accepted

theorem foldlM_read :
    records.foldlM DispatchJournal.read .empty = .ok journal ↔ Readable records ∧ journal = summary records := by
  induction records using List.reverseRecOn generalizing journal with
  | nil =>
    constructor
    · intro hok
      exact ⟨.nil, (Except.ok.inj hok).symm⟩
    · rintro ⟨-, rfl⟩
      rfl
  | append_singleton records record ih =>
    rw [foldlM_append]
    constructor
    · intro hok
      obtain ⟨middle, hmiddle, hok⟩ := bind_ok hok
      obtain ⟨hreadable, rfl⟩ := ih.mp hmiddle
      obtain ⟨last, hlast, hok⟩ := bind_ok hok
      obtain ⟨hfollows, rfl⟩ := (read_summary hreadable).mp hlast
      exact ⟨hreadable.append.mpr hfollows, (Except.ok.inj hok).symm⟩
    · rintro ⟨hall, rfl⟩
      have hreadable := hall.of_append
      have hlast := (read_summary hreadable).mpr ⟨hreadable.append.mp hall, rfl⟩
      rw [ih.mpr ⟨hreadable, rfl⟩]
      simp only [bind, Except.bind, foldlM_cons, foldlM_nil, hlast]
      rfl

/-! ## The answer -/

theorem readAgentDispatchAccounting_ok_iff {state : AgentDispatchAccountingState} :
    readAgentDispatchAccounting records = .ok (some state) ↔ Readable records ∧ ∃ baseline,
    baselineOf records = some baseline ∧
    state = ⟨usageWith baseline.usage (measuredUsages records), exposureWith baseline.exposure (unsettled records)⟩ ∧
    state.exposure.safe = true := by
  unfold readAgentDispatchAccounting
  by_cases hne : records = []
  · subst hne
    simp [baselineOf]
  rw [if_neg (by simpa using hne)]
  constructor
  · intro hok
    obtain ⟨journal, hjournal, hok⟩ := bind_ok hok
    obtain ⟨hreadable, rfl⟩ := foldlM_read.mp hjournal
    obtain ⟨baseline, hbaseline, -⟩ := hreadable.state hne
    rw [summary_state hbaseline] at hok
    dsimp only at hok
    obtain ⟨exposure, hexposure, hok⟩ := bind_ok hok
    obtain rfl := Option.some.inj (Except.ok.inj hok)
    have hsafe : baseline.exposure.safe = true := by
      cases records with
      | nil => exact absurd rfl hne
      | cons first rest =>
        have haccepted := hreadable.accepted first mem_cons_self
        cases first with
        | reserved id own other =>
          obtain rfl : other = some baseline := hbaseline
          simp only [accepted, Bool.and_eq_true] at haccepted
          exact haccepted.2
        | reconciled | released => cases hbaseline
    rw [foldlM_addExposure _ _ hsafe] at hexposure
    split at hexposure
    next htotal =>
      obtain rfl := Except.ok.inj hexposure
      exact ⟨hreadable, baseline, hbaseline, rfl, htotal⟩
    next => cases hexposure
  · rintro ⟨hreadable, baseline, hbaseline, rfl, htotal⟩
    rw [foldlM_read.mpr ⟨hreadable, rfl⟩]
    have hstate := summary_state hbaseline
    have hsafe : baseline.exposure.safe = true := by
      rw [Amount.safe_iff] at htotal ⊢
      simp only [exposureWith] at htotal
      omega
    have hexposure := foldlM_addExposure (unsettled records) baseline.exposure hsafe
    rw [if_pos htotal] at hexposure
    have hactive : (summary records).active = unsettled records := rfl
    simp only [bind, Except.bind, hstate, hactive, hexposure]

theorem foldlM_error {α β ε : Type} {f : β → α → Except ε β} {failure error : ε} {l : List α} {b : β}
    (hf : ∀ b a e, f b a = .error e → e = failure) (h : l.foldlM f b = .error error) : error = failure := by
  induction l generalizing b with
  | nil => cases h
  | cons a l ih =>
    rw [foldlM_cons] at h
    cases hstep : f b a with
    | error e =>
      rw [hstep] at h
      obtain rfl := Except.error.inj h
      exact hf b a e hstep
    | ok b' =>
      rw [hstep] at h
      exact ih h

variable {error : AgentRepositoryError}

theorem settle_error (h : journal.settle id = .error error) : error = dispatchCorrupt := by
  unfold settle at h
  split at h
  · exact (Except.error.inj h).symm
  · split at h
    · cases h
    · exact (Except.error.inj h).symm

theorem reserve_error (h : journal.reserve id exposure baseline = .error error) : error = dispatchCorrupt := by
  unfold reserve at h
  split at h
  · exact (Except.error.inj h).symm
  · dsimp only at h
    split at h
    · split at h
      · cases h
      · exact (Except.error.inj h).symm
    · cases h
    · exact (Except.error.inj h).symm
    · exact (Except.error.inj h).symm

theorem read_error (h : journal.read record = .error error) : error = dispatchCorrupt := by
  unfold DispatchJournal.read at h
  split at h
  · exact (Except.error.inj h).symm
  cases record with
  | reserved id exposure baseline => exact reserve_error h
  | reconciled id usage =>
    dsimp only at h
    cases hsettle : journal.settle id with
    | error failure =>
      rw [hsettle] at h
      exact Except.error.inj h ▸ settle_error hsettle
    | ok found =>
      rw [hsettle] at h
      simp only [bind, Except.bind] at h
      split at h
      · exact (Except.error.inj h).symm
      · unfold addUsage at h
        dsimp only at h
        split at h
        · rename_i hsum
          split at hsum
          · cases hsum
          · exact Except.error.inj h ▸ (Except.error.inj hsum).symm
        · cases h
  | released id =>
    dsimp only at h
    cases hsettle : journal.settle id with
    | error failure =>
      rw [hsettle] at h
      exact Except.error.inj h ▸ settle_error hsettle
    | ok found =>
      rw [hsettle] at h
      cases h

/-- There is one way to fail. -/
theorem readAgentDispatchAccounting_error (h : readAgentDispatchAccounting records = .error error) :
    error = dispatchCorrupt := by
  unfold readAgentDispatchAccounting at h
  split at h
  · cases h
  cases hfold : records.foldlM DispatchJournal.read .empty with
  | error failure =>
    rw [hfold] at h
    exact Except.error.inj h ▸ foldlM_error (fun _ _ _ => read_error) hfold
  | ok journal =>
    rw [hfold] at h
    simp only [bind, Except.bind] at h
    split at h
    · exact (Except.error.inj h).symm
    · split at h
      · rename_i hsum
        refine Except.error.inj h ▸ foldlM_error (fun sum dispatch e he => ?_) hsum
        unfold addExposure at he
        dsimp only at he
        split at he
        · cases he
        · exact (Except.error.inj he).symm
      · cases h

theorem readAgentDispatchAccounting_ne_none (hne : records ≠ []) : readAgentDispatchAccounting records ≠ .ok none := by
  intro h
  unfold readAgentDispatchAccounting at h
  rw [if_neg (by simpa using hne)] at h
  obtain ⟨journal, -, h⟩ := bind_ok h
  split at h
  · cases h
  · obtain ⟨exposure, -, h⟩ := bind_ok h
    cases h

theorem readAgentDispatchAccounting_cases (hne : records ≠ []) :
    (∃ state, readAgentDispatchAccounting records = .ok (some state)) ∨
      readAgentDispatchAccounting records = .error dispatchCorrupt := by
  cases hread : readAgentDispatchAccounting records with
  | error error => exact .inr (by rw [readAgentDispatchAccounting_error hread])
  | ok found =>
    cases found with
    | none => exact absurd hread (readAgentDispatchAccounting_ne_none hne)
    | some state => exact .inl ⟨state, rfl⟩

/-! ## Interleavings -/

/-- Lists with the same records of each dispatch hold the same records. -/
theorem perm_of_recordsOf (h : ∀ id, recordsOf id rest = recordsOf id rest') : rest.Perm rest' := by
  refine perm_iff_count.mpr fun record => ?_
  have hcount : ∀ records, records.count record = (recordsOf record.dispatchId records).count record :=
    fun records => (count_filter (by simp)).symm
  rw [hcount rest, hcount rest', h]

theorem Readable.interleaved {first : AgentDispatchAccountingRecord} (h : ∀ id, recordsOf id rest = recordsOf id rest')
    (hreadable : Readable (first :: rest)) : Readable (first :: rest') := by
  have hperm := (perm_of_recordsOf h).cons first
  have husages := hperm.filterMap measured
  refine ⟨fun record hrecord => hreadable.accepted record (hperm.mem_iff.mpr hrecord), fun id => ?_,
    fun usage husage => hreadable.consistent usage (husages.mem_iff.mpr husage),
    fun head tail hsplit => ?_⟩
  · have hlife := hreadable.lifecycle id
    have hsplit : ∀ records, recordsOf id (first :: records) =
        recordsOf id [first] ++ recordsOf id records := fun records => recordsOf_append id [first] records
    rw [hsplit, h] at hlife
    rwa [hsplit]
  · obtain ⟨rfl, rfl⟩ := List.cons.inj hsplit
    obtain ⟨baseline, hbaseline, hconsistent, hsafe, hrest⟩ := hreadable.begun first rest rfl
    refine ⟨baseline, hbaseline, hconsistent, ?_, fun record hrecord =>
      hrest record ((perm_of_recordsOf h).mem_iff.mpr hrecord)⟩
    rwa [measuredUsages, ← usageWith_perm _ husages]

theorem unsettled_perm {records' : List AgentDispatchAccountingRecord} (h : records.Perm records') :
    (unsettled records).Perm (unsettled records') := by
  have hsame : settledIn records = settledIn records' := by
    funext id
    rw [Bool.eq_iff_iff, settledIn_iff, settledIn_iff]
    simp only [mem_recordsOf, h.mem_iff]
  unfold unsettled
  rw [hsame]
  exact (h.filterMap reservation).filter _

theorem readAgentDispatchAccounting_interleaved {first : AgentDispatchAccountingRecord}
    (h : ∀ id, recordsOf id rest = recordsOf id rest') {state : AgentDispatchAccountingState}
    (hread : readAgentDispatchAccounting (first :: rest) = .ok (some state)) :
    readAgentDispatchAccounting (first :: rest') = .ok (some state) := by
  obtain ⟨hreadable, baseline, hbaseline, rfl, hsafe⟩ := readAgentDispatchAccounting_ok_iff.mp hread
  have hperm := (perm_of_recordsOf h).cons first
  refine readAgentDispatchAccounting_ok_iff.mpr ⟨hreadable.interleaved h, baseline, hbaseline, ?_, hsafe⟩
  rw [measuredUsages, usageWith_perm _ (hperm.filterMap measured), exposureWith_perm _ (unsettled_perm hperm)]
  rfl

/-! ## Misuse -/

/-- A dispatch settled twice, settled before it is reserved or reserved twice, or a baseline that is
missing or repeated. -/
inductive Misused : List AgentDispatchAccountingRecord → Prop
  | settledTwice {before between after : List AgentDispatchAccountingRecord}
      {first second : AgentDispatchAccountingRecord} (hid : first.dispatchId = second.dispatchId)
      (hfirst : first.settles = true) (hsecond : second.settles = true) :
      Misused (before ++ first :: (between ++ second :: after))
  | settledEarly {before after : List AgentDispatchAccountingRecord}
      {record : AgentDispatchAccountingRecord} (hrecord : record.settles = true)
      (hbefore : ∀ other ∈ before, other.dispatchId = record.dispatchId → other.settles = true) :
      Misused (before ++ record :: after)
  | reservedTwice {before between after : List AgentDispatchAccountingRecord}
      {first second : AgentDispatchAccountingRecord} (hid : first.dispatchId = second.dispatchId)
      (hfirst : first.settles = false) (hsecond : second.settles = false) :
      Misused (before ++ first :: (between ++ second :: after))
  | baselineMissing {first : AgentDispatchAccountingRecord} {rest : List AgentDispatchAccountingRecord}
      (h : first.baseline = none) : Misused (first :: rest)
  | baselineRepeated {first record : AgentDispatchAccountingRecord}
      {rest : List AgentDispatchAccountingRecord} (hrecord : record ∈ rest)
      (h : record.baseline ≠ none) : Misused (first :: rest)

theorem Misused.ne_nil (h : Misused records) : records ≠ [] := by
  cases h <;> simp

theorem recordsOf_split {before after : List AgentDispatchAccountingRecord} :
    recordsOf record.dispatchId (before ++ record :: after) =
      recordsOf record.dispatchId before ++ record :: recordsOf record.dispatchId after := by
  rw [recordsOf_append, ← singleton_append, recordsOf_append, recordsOf_self]
  rfl

/-- Of two records of a dispatch the first one reserves it and the second one settles it. -/
theorem Lifecycle.pair {before between after : List AgentDispatchAccountingRecord}
    {first second : AgentDispatchAccountingRecord} (h : Lifecycle (before ++ first :: (between ++ second :: after))) :
    first.settles = false ∧ second.settles = true := by
  generalize hall : before ++ first :: (between ++ second :: after) = all at h
  have hlength := congrArg List.length hall
  simp only [length_append, length_cons] at hlength
  cases h with
  | unknown => simp at hlength
  | reserved h =>
    simp only [length_singleton] at hlength
    omega
  | @settled head last h h' =>
    simp only [length_cons, length_nil] at hlength
    obtain rfl : before = [] := length_eq_zero_iff.mp (by omega)
    obtain rfl : between = [] := length_eq_zero_iff.mp (by omega)
    obtain rfl : after = [] := length_eq_zero_iff.mp (by omega)
    obtain ⟨rfl, hrest⟩ := List.cons.inj hall
    obtain ⟨rfl, -⟩ := List.cons.inj hrest
    exact ⟨h, h'⟩

theorem Lifecycle.opened {before after : List AgentDispatchAccountingRecord} (hrecord : record.settles = true)
    (h : Lifecycle (before ++ record :: after)) : ∃ other ∈ before, other.settles = false := by
  cases before with
  | nil =>
    have hfirst : record.settles = false := by cases h <;> assumption
    rw [hrecord] at hfirst
    cases hfirst
  | cons first before =>
    have hfirst : first.settles = false := by
      rw [cons_append] at h
      generalize before ++ record :: after = others at h
      cases h <;> assumption
    exact ⟨first, mem_cons_self, hfirst⟩

theorem Readable.pair {before between after : List AgentDispatchAccountingRecord}
    {first second : AgentDispatchAccountingRecord} (hid : first.dispatchId = second.dispatchId)
    (h : Readable (before ++ first :: (between ++ second :: after))) :
    first.settles = false ∧ second.settles = true := by
  have hlife := h.lifecycle first.dispatchId
  rw [recordsOf_split, hid, recordsOf_split] at hlife
  exact hlife.pair

theorem Readable.not_misused (hreadable : Readable records) : ¬ Misused records := by
  intro h
  cases h with
  | settledTwice hid hfirst hsecond =>
    rw [(hreadable.pair hid).1] at hfirst
    cases hfirst
  | @settledEarly before after record hrecord hbefore =>
    have hlife := hreadable.lifecycle record.dispatchId
    rw [recordsOf_split] at hlife
    obtain ⟨other, hother, hopen⟩ := hlife.opened hrecord
    obtain ⟨hmem, hid⟩ := mem_recordsOf.mp hother
    rw [hbefore other hmem hid] at hopen
    cases hopen
  | reservedTwice hid hfirst hsecond =>
    rw [(hreadable.pair hid).2] at hsecond
    cases hsecond
  | @baselineMissing first rest h =>
    obtain ⟨baseline, hbaseline, -⟩ := hreadable.begun first rest rfl
    rw [h] at hbaseline
    cases hbaseline
  | @baselineRepeated first record rest hrecord h =>
    obtain ⟨baseline, -, -, -, hrest⟩ := hreadable.begun first rest rfl
    exact h (hrest record hrecord)

/-- **Each dispatch is counted once.** What a journal answers is its baseline with the usages of the
reconciled dispatches and the exposures of the unsettled ones; after the first record only the order
within a dispatch matters; and a journal that misuses a dispatch or the baseline is corrupt. -/
theorem readAgentDispatchAccounting_once :
    (∀ records state, readAgentDispatchAccounting records = .ok (some state) →
      ∃ baseline, baselineOf records = some baseline ∧
        state.usage = usageWith baseline.usage (measuredUsages records) ∧
        state.exposure = exposureWith baseline.exposure (unsettled records) ∧
        state.usage.consistent = true ∧ state.exposure.safe = true) ∧
    (∀ first rest rest', (∀ id, recordsOf id rest = recordsOf id rest') →
      readAgentDispatchAccounting (first :: rest) = readAgentDispatchAccounting (first :: rest')) ∧
    (∀ records, Misused records → readAgentDispatchAccounting records = .error dispatchCorrupt) := by
  refine ⟨fun records state hread => ?_, fun first rest rest' h => ?_, fun records h => ?_⟩
  · obtain ⟨hreadable, baseline, hbaseline, rfl, hexposure⟩ :=
      readAgentDispatchAccounting_ok_iff.mp hread
    have hne : records ≠ [] := by
      rintro rfl
      cases hbaseline
    obtain ⟨own, hown, hconsistent, hsafe, -⟩ := hreadable.state hne
    rw [hbaseline] at hown
    obtain rfl := Option.some.inj hown
    exact ⟨baseline, hbaseline, rfl, rfl, usageWith_consistent hconsistent hreadable.consistent hsafe, hexposure⟩
  · have hsame : ∀ id, recordsOf id rest' = recordsOf id rest := fun id => (h id).symm
    rcases readAgentDispatchAccounting_cases (cons_ne_nil first rest) with ⟨state, hread⟩ | hread
    · rw [hread, readAgentDispatchAccounting_interleaved h hread]
    · rcases readAgentDispatchAccounting_cases (cons_ne_nil first rest') with ⟨state, hread'⟩ | hread'
      · rw [readAgentDispatchAccounting_interleaved hsame hread', hread']
      · rw [hread, hread']
  · rcases readAgentDispatchAccounting_cases h.ne_nil with ⟨state, hread⟩ | hread
    · exact absurd h (readAgentDispatchAccounting_ok_iff.mp hread).1.not_misused
    · exact hread

/-- Two dispatches at once: one is measured, the other one is still open. -/
example : readAgentDispatchAccounting
    [.reserved [1] ⟨8, 1⟩ (some ⟨⟨1, 1, 2, 0⟩, ⟨3, 0⟩⟩), .reserved [2] ⟨9, 2⟩ none,
      .reconciled [1] ⟨4, 2, 6, 1⟩] = .ok (some ⟨⟨5, 3, 8, 1⟩, ⟨12, 2⟩⟩) := by
  decide

end TsEpistle.Agents
