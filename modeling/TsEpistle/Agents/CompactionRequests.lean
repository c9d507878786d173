import TsEpistle.Agents.CompactionBytes

/-! Plans of context compaction: what their windows keep, and that a request with other summaries is no longer than
the planned one exactly where the last budget of each scope is even. -/

namespace TsEpistle.Agents.Compaction
open Library Json List
open LiveNotes (byteLength)

section
variable {ν : Type} {numbers : Numbers ν} {sha256 : JsString → JsString} {input : Input ν}

/-! ## Budgets -/

/-- The last budget of each scope is even. -/
def EvenBudgets (windows : List (AgentCompactionWindow ν)) : Prop :=
  ∀ scope window, (windows.filter (·.scope = scope)).getLast? = some window → 2 ∣ window.maximumSummaryBytes

theorem Planned.filters {state projected : AgentCompactionPromptState ν} {windows past current : List (AgentCompactionWindow ν)}
    {pastCut currentCut : Nat} (h : Planned state windows projected past current pastCut currentCut) :
    windows.filter (·.scope = .history) = past ∧ windows.filter (·.scope = .active) = current := by
  have hpast := h.pastCuts.scopes
  have hcurrent := h.currentCuts.scopes
  rw [h.order, filter_append, filter_append]
  constructor
  · rw [filter_eq_self.mpr fun window hwindow => by simp [hpast window hwindow],
      filter_eq_nil_iff.mpr fun window hwindow => by simp [hcurrent window hwindow], append_nil]
  · rw [filter_eq_nil_iff.mpr fun window hwindow => by simp [hpast window hwindow],
      filter_eq_self.mpr fun window hwindow => by simp [hcurrent window hwindow], nil_append]

/-! What the policy and the messages say of the budgets. -/

theorem byteLength_joinComma {text : JsString} {texts : List JsString} (h : text ∈ texts) :
    byteLength text ≤ byteLength (joinComma texts) := by
  induction texts with
  | nil => cases h
  | cons first texts ih =>
    by_cases hnil : texts = []
    · subst hnil
      rw [mem_singleton.mp h]
      simp [joinComma]
    · rw [joinComma_cons hnil, byteLength_before _ (by decide), byteLength_cons (by decide)]
      rcases mem_cons.mp h with rfl | h
      · omega
      · have := ih h
        omega

theorem byteLength_le_jsonBytes {message : Message ν} {messages : List (Message ν)} (h : message ∈ messages) :
    byteLength (write numbers message) ≤ jsonBytes numbers messages := by
  have hitem : byteLength (write numbers message) ≤ byteLength (joinComma (writeItems numbers messages)) :=
    byteLength_joinComma (by rw [writeItems_eq]; exact mem_map_of_mem h)
  rw [jsonBytes, write, byteLength_cons (by decide), byteLength_before _ (by decide)]
  omega

variable (numbers) in
/-- The budget of a window comes from the messages up to its end. -/
def Budgeted (policy : AgentCompactionPolicy) (window : AgentCompactionWindow ν) : Prop :=
  ∃ before, window.maximumSummaryBytes
    = min policy.summaryBytes ((jsonBytes numbers (before ++ window.messages) / 4 : Nat) : Int)

theorem compactRound_budgeted {scope : Scope} {progress progress' : Progress ν}
    (h : compactRound numbers sha256 input scope progress = .ok (some progress'))
    (hwindows : ∀ window ∈ progress.windows, Budgeted numbers input.policy window) :
    ∀ window ∈ progress'.windows, Budgeted numbers input.policy window := by
  obtain ⟨end_, -, hnext, -, -⟩ := compactRound_some h
  intro window hwindow
  rw [hnext] at hwindow
  rcases mem_append.mp hwindow with hwindow | hwindow
  · exact hwindows window hwindow
  · rw [mem_singleton.mp hwindow]
    refine ⟨((progress.state.messages scope).take end_).take (progress.state.start scope), ?_⟩
    show summaryBudget numbers input.policy (progress.state.messages scope) end_ = min _ ((jsonBytes numbers
      (((progress.state.messages scope).take end_).take _ ++ ((progress.state.messages scope).take end_).drop _)
        / 4 : Nat) : Int)
    rw [summaryBudget, List.take_append_drop]

theorem compactScopes_budgeted {scopes : List Scope} {progress progress' : Progress ν}
    (h : compactScopes numbers sha256 input scopes progress = .ok progress')
    (hwindows : ∀ window ∈ progress.windows, Budgeted numbers input.policy window) :
    ∀ window ∈ progress'.windows, Budgeted numbers input.policy window := by
  induction scopes generalizing progress with
  | nil =>
    cases h
    exact hwindows
  | cons scope scopes ih =>
    rw [compactScopes] at h
    split at h
    · exact ih h hwindows
    · obtain ⟨middle, hmiddle, h⟩ := Checked.bind_ok h
      exact ih h (compactRounds_ok (fun _ _ hround => compactRound_budgeted hround) hmiddle hwindows)

theorem Cuts.member {state : AgentCompactionPromptState ν} (hstate : Batched state) {scope : Scope}
    {windows : List (AgentCompactionWindow ν)} {cut : Nat} (h : Cuts state scope windows cut) :
    ∀ window ∈ windows, ∃ message ∈ window.messages, message ∈ state.messages scope := by
  induction h with
  | none => intro window hwindow; cases hwindow
  | @next _ cut cut' _ before hlt hend hscope hmessages hremove hindex hbudget ih =>
    intro window hwindow
    rcases mem_append.mp hwindow with hwindow | hwindow
    · exact ih window hwindow
    · rw [mem_singleton.mp hwindow, hmessages]
      have hpositive : 0 < (((state.messages scope).take cut').drop cut).length := by
        have hbound := (ends_bounds hstate hend).2
        rw [length_drop, length_take]
        omega
      obtain ⟨message, hmessage⟩ := exists_mem_of_length_pos hpositive
      exact ⟨message, hmessage, mem_of_mem_take (mem_of_mem_drop hmessage)⟩

/-- An even budget that no window falls below. -/
theorem evenBudgets_of_long {plan : AgentCompactionPlan ν}
    (h : planAgentContextCompaction numbers sha256 input = .ok (some plan)) (hstate : Batched input.state)
    (heven : 2 ∣ input.policy.summaryBytes)
    (hlong : ∀ scope, ∀ message ∈ input.state.messages scope,
      4 * input.policy.summaryBytes ≤ byteLength (write numbers message)) : EvenBudgets plan.windows := by
  obtain ⟨-, past, current, pastCut, currentCut, hplanned⟩ := planAgentContextCompaction_some h hstate
  obtain ⟨progress, hprogress, hplan, -⟩ := planned_windows h
  intro scope window hlast
  have hwindow := (mem_filter.mp (mem_of_getLast? hlast)).1
  obtain ⟨message, hmessage, hstored⟩ : ∃ message ∈ window.messages,
      message ∈ input.state.messages .history ∨ message ∈ input.state.messages .active := by
    rw [hplanned.order] at hwindow
    rcases mem_append.mp hwindow with hwindow | hwindow
    · obtain ⟨message, hmessage, hstored⟩ := hplanned.pastCuts.member hstate window hwindow
      exact ⟨message, hmessage, .inl hstored⟩
    · obtain ⟨message, hmessage, hstored⟩ := hplanned.currentCuts.member hstate window hwindow
      exact ⟨message, hmessage, .inr hstored⟩
  have hbytes : 4 * input.policy.summaryBytes ≤ byteLength (write numbers message) :=
    hstored.elim (hlong .history message) (hlong .active message)
  rw [hplan] at hwindow
  obtain ⟨before, hbudget⟩ := compactScopes_budgeted hprogress (fun window hwindow => by cases hwindow) window hwindow
  have hle := @byteLength_le_jsonBytes _ numbers _ _ (mem_append_right before hmessage)
  rw [hbudget, min_eq_left (by omega)]
  exact heven

theorem forall₂_split {α β : Type} {R : α → β → Prop} {first second : List α} {l : List β}
    (h : List.Forall₂ R (first ++ second) l) :
    ∃ left right, l = left ++ right ∧ List.Forall₂ R first left ∧ List.Forall₂ R second right := by
  induction first generalizing l with
  | nil => exact ⟨[], l, rfl, .nil, h⟩
  | cons a first ih =>
    cases h with
    | cons hab hrest =>
      obtain ⟨left, right, rfl, hleft, hright⟩ := ih hrest
      exact ⟨_ :: left, right, rfl, .cons hab hleft, hright⟩

/-- The last summary fits its window. -/
theorem last_fits {windows : List (AgentCompactionWindow ν)} {summaries : List JsString}
    (h : List.Forall₂ Fits windows summaries) : (windows = [] ∧ summaries = []) ∨
      ∃ window summary, windows.getLast? = some window ∧ summaries.getLast? = some summary ∧ Fits window summary := by
  rcases eq_nil_or_concat windows with rfl | ⟨front, window, rfl⟩
  · cases h
    exact .inl ⟨rfl, rfl⟩
  · rw [concat_eq_append] at h ⊢
    obtain ⟨left, right, rfl, -, hright⟩ := forall₂_split h
    cases hright with
    | cons hfits hrest =>
      cases hrest
      exact .inr ⟨window, _, getLast?_concat, getLast?_concat, hfits⟩

theorem fits_maximum {windows : List (AgentCompactionWindow ν)} (h : ∀ window ∈ windows, 256 ≤ window.maximumSummaryBytes) :
    List.Forall₂ Fits windows (windows.map fun window => maximumSummary window.maximumSummaryBytes) := by
  induction windows with
  | nil => exact .nil
  | cons window windows ih =>
    exact .cons (maximumSummary_fits (h window mem_cons_self))
      (ih fun other hother => h other (mem_cons_of_mem _ hother))

theorem lastSummary_map (windows : List (AgentCompactionWindow ν)) :
    (windows.map fun window => maximumSummary window.maximumSummaryBytes).getLast? = lastSummary windows := by
  rw [lastSummary, getLast?_map]

/-- Windows with an odd last budget take summaries that are longer than planned. -/
theorem odd_summaries {windows : List (AgentCompactionWindow ν)} {window : AgentCompactionWindow ν}
    (h : ∀ window ∈ windows, 256 ≤ window.maximumSummaryBytes) (hlast : windows.getLast? = some window)
    (hodd : ¬ 2 ∣ window.maximumSummaryBytes) : ∃ summaries summary, List.Forall₂ Fits windows summaries ∧
      summaries.getLast? = some summary ∧ nestedBytes (maximumSummary window.maximumSummaryBytes) < nestedBytes summary := by
  obtain ⟨front, rfl⟩ := getLast?_eq_some_iff.mp hlast
  obtain ⟨summary, hfits, hlonger⟩ := nestedBytes_odd (h window (by simp)) hodd
  exact ⟨_ ++ [summary], summary, rel_append (fits_maximum fun other hother => h other (by simp [hother]))
    (.cons hfits .nil), getLast?_concat, hlonger⟩

variable {state projected : AgentCompactionPromptState ν} {windows past current : List (AgentCompactionWindow ν)}
  {pastCut currentCut : Nat}

/-- The planned state with other summaries. -/
def resummarized (state : AgentCompactionPromptState ν) (pastCut currentCut : Nat) (past current : Option JsString) :
    AgentCompactionPromptState ν :=
  projectedState (projectedState state .history pastCut past) .active currentCut current

theorem Planned.applied (h : Planned state windows projected past current pastCut currentCut) {left right : List JsString}
    (hleft : past.length = left.length) (hright : current.length = right.length) :
    applyWindows state windows (left ++ right)
      = resummarized state pastCut currentCut left.getLast? right.getLast? := by
  have hfold : applyWindows state (past ++ current) (left ++ right)
      = applyWindows (applyWindows state past left) current right := by
    unfold applyWindows
    rw [zip_append hleft, foldl_append]
  rw [h.order, hfold, applyWindows_cuts h.pastCuts hleft, applyWindows_cuts (Cuts.active_iff.mpr h.currentCuts) hright]
  rfl

variable {exposure : AgentCompactionPromptState ν → AgentCompactionRequestExposure}

theorem past_bytes (h : Encodes numbers exposure) (state : AgentCompactionPromptState ν) (pastCut currentCut : Nat)
    (current : Option JsString) : ∃ rest : Int, ∀ summary,
      (exposure (resummarized state pastCut currentCut (some summary) current)).serializedRequestBytes
        = rest + nestedBytes summary := by
  cases current with
  | none => exact cutState_bytes h state .history pastCut
  | some current => exact cutState_bytes h (cutState state .active currentCut current) .history pastCut

theorem current_bytes (h : Encodes numbers exposure) (state : AgentCompactionPromptState ν) (pastCut currentCut : Nat)
    (past : Option JsString) : ∃ rest : Int, ∀ summary,
      (exposure (resummarized state pastCut currentCut past (some summary))).serializedRequestBytes
        = rest + nestedBytes summary :=
  cutState_bytes h (projectedState state .history pastCut past) .active currentCut

/-- **Bytes.** Other summaries give no longer request than planned exactly where the last budgets are even. -/
theorem Planned.bytes_iff (h : Planned state windows projected past current pastCut currentCut)
    (hencodes : Encodes numbers exposure) : (∀ summaries, List.Forall₂ Fits windows summaries →
      (exposure (applyWindows state windows summaries)).serializedRequestBytes
        ≤ (exposure projected).serializedRequestBytes) ↔ EvenBudgets windows := by
  have hpastBudgets := h.pastCuts.budgets
  have hcurrentBudgets := h.currentCuts.budgets
  have hprojected : projected = resummarized state pastCut currentCut (lastSummary past) (lastSummary current) := h.rest
  constructor
  · intro hbound scope window hlast
    by_contra hodd
    cases scope with
    | history =>
      rw [h.filters.1] at hlast
      obtain ⟨left, summary, hfits, hleft, hlonger⟩ := odd_summaries hpastBudgets hlast hodd
      obtain ⟨rest, hrest⟩ := past_bytes hencodes state pastCut currentCut (lastSummary current)
      have hle := hbound (left ++ _) (by
        rw [h.order]
        exact rel_append hfits (fits_maximum hcurrentBudgets))
      have hpastLast : lastSummary past = some (maximumSummary window.maximumSummaryBytes) := by
        rw [lastSummary, hlast, Option.map_some]
      rw [h.applied hfits.length_eq (by simp), lastSummary_map, hleft, hprojected, hpastLast, hrest, hrest] at hle
      omega
    | active =>
      rw [h.filters.2] at hlast
      obtain ⟨right, summary, hfits, hright, hlonger⟩ := odd_summaries hcurrentBudgets hlast hodd
      obtain ⟨rest, hrest⟩ := current_bytes hencodes state pastCut currentCut (lastSummary past)
      have hle := hbound (_ ++ right) (by
        rw [h.order]
        exact rel_append (fits_maximum hpastBudgets) hfits)
      have hcurrentLast : lastSummary current = some (maximumSummary window.maximumSummaryBytes) := by
        rw [lastSummary, hlast, Option.map_some]
      rw [h.applied (by simp) hfits.length_eq, lastSummary_map, hright, hprojected, hcurrentLast, hrest, hrest] at hle
      omega
  · intro heven summaries hfits
    rw [h.order] at hfits
    obtain ⟨left, right, rfl, hleft, hright⟩ := forall₂_split hfits
    rw [h.applied hleft.length_eq hright.length_eq, hprojected]
    -- first the summary of the history is made the planned one, then that of the active messages
    have hpast : (exposure (resummarized state pastCut currentCut left.getLast? right.getLast?)).serializedRequestBytes
        ≤ (exposure (resummarized state pastCut currentCut (lastSummary past) right.getLast?)).serializedRequestBytes := by
      rcases last_fits hleft with ⟨rfl, rfl⟩ | ⟨window, summary, hwindow, hsummary, hfits⟩
      · exact le_refl _
      · obtain ⟨rest, hrest⟩ := past_bytes hencodes state pastCut currentCut right.getLast?
        have hbudget := hpastBudgets window (mem_of_getLast? hwindow)
        have hle := nestedBytes_maximum hbudget (heven .history window (h.filters.1 ▸ hwindow)) hfits
        rw [lastSummary, hwindow, hsummary, Option.map_some, hrest, hrest]
        omega
    refine le_trans hpast ?_
    rcases last_fits hright with ⟨rfl, rfl⟩ | ⟨window, summary, hwindow, hsummary, hfits⟩
    · exact le_refl _
    · obtain ⟨rest, hrest⟩ := current_bytes hencodes state pastCut currentCut (lastSummary past)
      have hbudget := hcurrentBudgets window (mem_of_getLast? hwindow)
      have hle := nestedBytes_maximum hbudget (heven .active window (h.filters.2 ▸ hwindow)) hfits
      have hcurrentLast : lastSummary current = some (maximumSummary window.maximumSummaryBytes) := by
        rw [lastSummary, hwindow, Option.map_some]
      rw [hcurrentLast, hsummary, hrest, hrest]
      omega

/-! ## What is kept -/

/-- The history after its windows. -/
structure HistoryCompacted (state projected : AgentCompactionPromptState ν) (windows : List (AgentCompactionWindow ν))
    (cut : Nat) : Prop where
  cuts : Cuts state .history windows cut
  covered : windows.flatMap (·.messages) ++ state.conversation.drop cut = state.conversation.drop (state.start .history)
  indexes : ∃ indexes : List Int, windows.map (·.throughSourceIndex) = indexes.map some ∧ indexes.Pairwise (· < ·)
  same : windows = [] → projected.conversation = state.conversation ∧ projected.sourceIndexes = state.sourceIndexes
  replaced : windows ≠ [] → ∃ summary,
    projected.conversation = agentCompactionContextMessage summary .history :: state.conversation.drop cut ∧
    projected.sourceIndexes = -1 :: state.sourceIndexes.drop cut
  aligned : projected.sourceIndexes.length = projected.conversation.length
  newest : windows ≠ [] → ∀ index message, state.conversation[index]? = some message → isUser message = true →
    (∀ later message, index < later → state.conversation[later]? = some message → isUser message = false) → cut ≤ index

/-- The active messages after their windows. -/
structure ActiveCompacted (state projected : AgentCompactionPromptState ν) (windows : List (AgentCompactionWindow ν))
    (cut : Nat) : Prop where
  cuts : Cuts state .active windows cut
  covered : windows.flatMap (·.messages) ++ state.active.drop cut = state.active.drop (state.start .active)
  same : windows = [] → projected.active = state.active ∧ projected.activeEnds = state.activeEnds
  replaced : windows ≠ [] → ∃ summary,
    projected.active = agentCompactionContextMessage summary .active :: state.active.drop cut
  aligned : projected.activeEnds.map projected.active.drop = (state.activeEnds.filter (cut < ·)).map state.active.drop
  batched : Batched projected
  last : windows ≠ [] → ∃ front before end_, state.activeEnds = front ++ [before, end_] ∧ cut ≤ before

theorem Cuts.covered_rest {scope : Scope} {cut : Nat} (h : Cuts state scope windows cut) :
    windows.flatMap (·.messages) ++ (state.messages scope).drop cut = (state.messages scope).drop (state.start scope) := by
  have hslice := slice_append (state.messages scope) h.start_le
    (Nat.le_max_left cut (state.messages scope).length)
  rw [take_of_length_le (Nat.le_max_right cut (state.messages scope).length)] at hslice
  rw [h.covered, hslice]

theorem lastSummary_some (h : windows ≠ []) : ∃ summary, lastSummary windows = some summary := by
  rw [lastSummary, getLast?_eq_some_getLast h]
  exact ⟨_, rfl⟩

/-- What is before the last element of an increasing list is at most the one before it. -/
theorem before_last {l : List Nat} (h : l.Pairwise (· < ·)) {n : Nat} (hn : n ∈ l.dropLast) :
    ∃ front before last, l = front ++ [before, last] ∧ n ≤ before := by
  rcases eq_nil_or_concat l with rfl | ⟨rest, last, rfl⟩
  · cases hn
  · rw [concat_eq_append] at h hn ⊢
    rw [dropLast_concat] at hn
    rcases eq_nil_or_concat rest with rfl | ⟨front, before, rfl⟩
    · cases hn
    · rw [concat_eq_append] at h hn ⊢
      refine ⟨front, before, last, by simp, ?_⟩
      rcases mem_append.mp hn with hfront | hbefore
      · have hpairs := (pairwise_append.mp (pairwise_append.mp h).1).2.2
        exact (hpairs n hfront before (mem_singleton.mpr rfl)).le
      · exact (mem_singleton.mp hbefore).le

theorem historyCompacted (hstate : WellFormed state) {cut : Nat} (h : Cuts state .history windows cut)
    (hconversation : projected.conversation = (projectedState state .history cut (lastSummary windows)).conversation)
    (hindexes : projected.sourceIndexes = (projectedState state .history cut (lastSummary windows)).sourceIndexes) :
    HistoryCompacted state projected windows cut := by
  obtain ⟨indexes, hmap, hpairwise, -⟩ := h.indexes hstate
  have hsame : windows = [] → projected.conversation = state.conversation ∧
      projected.sourceIndexes = state.sourceIndexes := by
    rintro rfl
    exact ⟨hconversation, hindexes⟩
  have hreplaced : windows ≠ [] → ∃ summary,
      projected.conversation = agentCompactionContextMessage summary .history :: state.conversation.drop cut ∧
      projected.sourceIndexes = -1 :: state.sourceIndexes.drop cut := by
    intro hne
    obtain ⟨summary, hsummary⟩ := lastSummary_some hne
    rw [hsummary] at hconversation hindexes
    exact ⟨summary, hconversation, hindexes⟩
  refine ⟨h, h.covered_rest, ⟨indexes, hmap, hpairwise⟩, hsame, hreplaced, ?_, ?_⟩
  · by_cases hnil : windows = []
    · rw [(hsame hnil).1, (hsame hnil).2]
      exact hstate.aligned
    · obtain ⟨summary, hnew, hnewIndexes⟩ := hreplaced hnil
      rw [hnew, hnewIndexes, length_cons, length_cons, length_drop, length_drop, hstate.aligned]
  · intro hne index message hmessage huser hlater
    obtain ⟨-, next, hnext, hnextUser⟩ := mem_historicalEnds.mp (h.end_mem hne)
    by_contra hlt
    rw [hlater cut next (not_le.mp hlt) hnext] at hnextUser
    cases hnextUser

theorem activeCompacted (hstate : Batched state) {cut : Nat} (h : Cuts state .active windows cut)
    (hprojected : projected = projectedState (projectedState state .history pastCut (lastSummary past)) .active cut
      (lastSummary windows)) : ActiveCompacted state projected windows cut := by
  have hbase := projectedState_batched hstate pastCut (lastSummary past)
  have hactive : (projectedState state .history pastCut (lastSummary past)).active = state.active ∧
      (projectedState state .history pastCut (lastSummary past)).activeEnds = state.activeEnds := by
    cases lastSummary past <;> exact ⟨rfl, rfl⟩
  by_cases hnil : windows = []
  · subst hnil
    obtain rfl := h.cut_of_nil rfl
    have hsame : projected = projectedState state .history pastCut (lastSummary past) := hprojected
    have hall : state.activeEnds.filter (state.start .active < ·) = state.activeEnds :=
      filter_eq_self.mpr fun end_ hend => by simpa using (hstate.bounded end_ hend).1
    refine ⟨h, h.covered_rest, fun _ => hsame ▸ hactive, fun hne => absurd rfl hne, ?_, hsame ▸ hbase,
      fun hne => absurd rfl hne⟩
    rw [hsame, hactive.1, hactive.2, hall]
  · obtain ⟨summary, hsummary⟩ := lastSummary_some hnil
    have hmem := h.end_mem hnil
    have hbounds := ends_bounds hstate hmem
    have hnew : projected.active = agentCompactionContextMessage summary .active :: state.active.drop cut ∧
        projected.activeEnds = (state.activeEnds.filter (cut < ·)).map (fun end_ => end_ - cut + 1) ∧
        projected.start .active = 1 := by
      rw [hprojected, hsummary, ← hactive.1, ← hactive.2]
      exact ⟨rfl, rfl, rfl⟩
    obtain ⟨hmessages, hends, hstart⟩ := hnew
    refine ⟨h, h.covered_rest, fun heq => absurd heq hnil, fun _ => ⟨summary, hmessages⟩, ?_, ⟨?_, ?_⟩, fun _ => ?_⟩
    · rw [hmessages, hends, map_map]
      refine map_congr_left fun end_ hend => ?_
      have hbehind : cut < end_ := by simpa using (mem_filter.mp hend).2
      change List.drop (end_ - cut + 1) _ = _
      rw [drop_succ_cons, drop_drop]
      congr 1
      omega
    · rw [hends]
      refine pairwise_map.mpr ((hstate.batches.sublist filter_sublist).imp_of_mem ?_)
      intro earlier later hearlier _ hlt
      have hbehind : cut < earlier := by simpa using (mem_filter.mp hearlier).2
      omega
    · rw [hends, hstart, hmessages]
      intro end_ hend
      obtain ⟨original, horiginal, rfl⟩ := mem_map.mp hend
      obtain ⟨hmemOriginal, hbehind⟩ := mem_filter.mp horiginal
      have hbehind' : cut < original := by simpa using hbehind
      have hle := (hstate.bounded original hmemOriginal).2
      rw [length_cons, length_drop]
      omega
    · exact before_last hstate.batches hmem

/-- **Compaction.** Both loops end by themselves. The windows of a plan are the start of what they are cut from, in
order; the projected state holds the rest, with its indexes and ends; and other summaries give no longer request
exactly where the last budgets are even. -/
theorem planAgentContextCompaction_compacts (numbers : Numbers ν) (sha256 : JsString → JsString) (input : Input ν) :
    (∀ scope progress progress', compactScope numbers sha256 input scope progress = .ok progress' →
      compactRound numbers sha256 input scope progress' = .ok none) ∧
    ∀ plan, planAgentContextCompaction numbers sha256 input = .ok (some plan) → WellFormed input.state →
      (∃ cut, HistoryCompacted input.state plan.projected (plan.windows.filter (·.scope = .history)) cut) ∧
      (∃ cut, ActiveCompacted input.state plan.projected (plan.windows.filter (·.scope = .active)) cut) ∧
      (Encodes numbers input.ordinaryExposure → ((∀ summaries, List.Forall₂ Fits plan.windows summaries →
          (input.ordinaryExposure (applyWindows input.state plan.windows summaries)).serializedRequestBytes
            ≤ plan.ordinaryExposure.serializedRequestBytes) ↔ EvenBudgets plan.windows)) ∧
      (2 ∣ input.policy.summaryBytes → (∀ scope, ∀ message ∈ input.state.messages scope,
        4 * input.policy.summaryBytes ≤ byteLength (write numbers message)) → EvenBudgets plan.windows) := by
  refine ⟨fun scope progress progress' h => compactRounds_done (le_refl _) h, fun plan h hstate => ?_⟩
  obtain ⟨hexposure, past, current, pastCut, currentCut, hplanned⟩ := planAgentContextCompaction_some h hstate.toBatched
  have hhistory : plan.projected.conversation
        = (projectedState input.state .history pastCut (lastSummary past)).conversation ∧
      plan.projected.sourceIndexes
        = (projectedState input.state .history pastCut (lastSummary past)).sourceIndexes := by
    rw [hplanned.rest]
    cases lastSummary current <;> exact ⟨rfl, rfl⟩
  refine ⟨⟨pastCut, ?_⟩, ⟨currentCut, ?_⟩, fun hencodes => ?_, evenBudgets_of_long h hstate.toBatched⟩
  · rw [hplanned.filters.1]
    exact historyCompacted hstate hplanned.pastCuts hhistory.1 hhistory.2
  · rw [hplanned.filters.2]
    exact activeCompacted hstate.toBatched hplanned.currentCuts hplanned.rest
  · rw [hexposure]
    exact hplanned.bytes_iff hencodes

end

/-! ## Examples -/

def userMessage (text : JsString) : Message Empty :=
  .object [(js "role", .string (js "user")), (js "content", .string text)]

/-- A long message and a short one, where requests are measured by the text of their messages. -/
def longInput (summaryBytes : Int) : Input Empty where
  state := ⟨[userMessage (List.replicate 1100 120), userMessage (js "Go on.")], [0, 1], none, [], [], none⟩
  policy := ⟨1, summaryBytes, 1, 0, 0, 0, 1⟩
  contextTokens := 100000
  canCompactHistory := true
  force := true
  eager := false
  preserveCachePrefix := false
  historyOnly := false
  ordinaryExposure state :=
    let bytes : Int := byteLength (write Memory.noNumbers (.array (state.conversation ++ state.active)))
    ⟨bytes, 0, bytes, bytes⟩
  summaryExposure _ := ⟨0, 0, 0, 0⟩
  cost tokens := tokens

theorem longInput_wellFormed (summaryBytes : Int) : WellFormed (longInput summaryBytes).state :=
  ⟨⟨Pairwise.nil, fun end_ hend => by cases hend⟩, rfl, (by decide : ([0, 1] : List Int).Pairwise (· < ·))⟩

theorem longInput_encodes (summaryBytes : Int) : Encodes Memory.noNumbers (longInput summaryBytes).ordinaryExposure :=
  ⟨[], [], [], fun state => by
    rw [nil_append, nil_append, append_nil]
    rfl⟩

theorem planAgentContextCompaction_compacts_example : ∃ plan,
    planAgentContextCompaction Memory.noNumbers id (longInput 256) = .ok (some plan) ∧ plan.windows.length = 1 ∧
    (∃ cut, HistoryCompacted (longInput 256).state plan.projected (plan.windows.filter (·.scope = .history)) cut) ∧
    ∀ summaries, List.Forall₂ Fits plan.windows summaries →
      ((longInput 256).ordinaryExposure (applyWindows (longInput 256).state plan.windows summaries)).serializedRequestBytes
        ≤ plan.ordinaryExposure.serializedRequestBytes := by
  generalize hrun : planAgentContextCompaction Memory.noNumbers id (longInput 256) = run
  have hcheck : (run.toOption.join.any fun plan =>
      decide (plan.windows.length = 1) && plan.windows.all fun window => decide (window.maximumSummaryBytes = 256)) = true := by
    rw [← hrun]
    decide +kernel
  obtain ⟨plan, rfl⟩ : ∃ plan, run = .ok (some plan) := by
    cases run with
    | error e => cases hcheck
    | ok plan =>
      cases plan with
      | none => cases hcheck
      | some plan => exact ⟨plan, rfl⟩
  obtain ⟨hlength, hall⟩ := Bool.and_eq_true_iff.mp (show _ = true from hcheck)
  obtain ⟨hhistory, -, hbytes, -⟩ :=
    (planAgentContextCompaction_compacts Memory.noNumbers id (longInput 256)).2 plan hrun (longInput_wellFormed 256)
  refine ⟨plan, rfl, of_decide_eq_true hlength, hhistory, (hbytes (longInput_encodes 256)).mpr ?_⟩
  intro scope window hlast
  have hmem := (mem_filter.mp (mem_of_getLast? hlast)).1
  rw [of_decide_eq_true (all_eq_true.mp hall window hmem)]
  decide

/-- A budget of 257 bytes is planned with 127 backslashes; a letter behind them fits as well. -/
theorem compaction_overfilled : ¬ ∀ plan,
    planAgentContextCompaction Memory.noNumbers id (longInput 257) = .ok (some plan) →
    ∀ summaries, List.Forall₂ Fits plan.windows summaries →
      ((longInput 257).ordinaryExposure (applyWindows (longInput 257).state plan.windows summaries)).serializedRequestBytes
        ≤ plan.ordinaryExposure.serializedRequestBytes := by
  intro h
  generalize hrun : planAgentContextCompaction Memory.noNumbers id (longInput 257) = run at h
  have hcheck : (run.toOption.join.map fun plan => (plan.windows.map fun window => window.maximumSummaryBytes,
      plan.ordinaryExposure.serializedRequestBytes, ((longInput 257).ordinaryExposure
        (applyWindows (longInput 257).state plan.windows [backslashes 127 true])).serializedRequestBytes))
      = some ([257], 778, 779) := by
    rw [← hrun]
    decide +kernel
  obtain ⟨plan, rfl⟩ : ∃ plan, run = .ok (some plan) := by
    cases run with
    | error e => cases hcheck
    | ok plan =>
      cases plan with
      | none => cases hcheck
      | some plan => exact ⟨plan, rfl⟩
  have hvalues := Option.some.inj hcheck
  simp only [Prod.mk.injEq] at hvalues
  obtain ⟨hwindows, hplanned, happlied⟩ := hvalues
  obtain ⟨window, hsingle, hbudget⟩ := map_eq_singleton_iff.mp hwindows
  have hfits : List.Forall₂ Fits plan.windows [backslashes 127 true] := by
    rw [hsingle]
    refine .cons ?_ .nil
    unfold Fits
    rw [hbudget]
    decide +kernel
  have hle := h plan rfl _ hfits
  rw [hplanned, happlied] at hle
  exact absurd hle (by decide)

end TsEpistle.Agents.Compaction
