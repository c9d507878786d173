import TsEpistle.Agents.Compaction
import TsEpistle.Library.Checked

/-! The windows of a plan: in order they cover the start of what they are cut from, and the projected state holds
the rest. A cut into a state that was cut before is a later cut into the state before both. -/

namespace TsEpistle.Agents.Compaction
open Library Library.Checked Json List

section
variable {ν : Type}

/-! ## Cuts -/

/-- The state with a summary in place of its first messages. -/
def cutState (state : AgentCompactionPromptState ν) (scope : Scope) (cut : Nat) (summary : JsString) :
    AgentCompactionPromptState ν :=
  applyAgentCompactionWindow state ⟨scope, [], cut, none, 0, []⟩ summary

theorem apply_eq_cut (state : AgentCompactionPromptState ν) (window : AgentCompactionWindow ν) (summary : JsString) :
    applyAgentCompactionWindow state window summary = cutState state window.scope window.removeCount summary := rfl

theorem cutState_messages (state : AgentCompactionPromptState ν) (scope : Scope) (cut : Nat) (summary : JsString) :
    (cutState state scope cut summary).messages scope
      = agentCompactionContextMessage summary scope :: (state.messages scope).drop cut := by
  cases scope <;> rfl

theorem cutState_start (state : AgentCompactionPromptState ν) (scope : Scope) (cut : Nat) (summary : JsString) :
    (cutState state scope cut summary).start scope = 1 := by
  cases scope <;> rfl

theorem filter_shift (ends : List Nat) (cut removed : Nat) (h : 1 ≤ removed) :
    ((((ends.filter (cut < ·)).map fun end_ => end_ - cut + 1).filter (removed < ·)).map fun end_ => end_ - removed + 1)
      = (ends.filter (cut + removed - 1 < ·)).map fun end_ => end_ - (cut + removed - 1) + 1 := by
  induction ends with
  | nil => rfl
  | cons end_ ends ih =>
    by_cases hcut : cut < end_
    · by_cases hremoved : removed < end_ - cut + 1
      · have hboth : cut + removed - 1 < end_ := by omega
        have hshift : end_ - cut + 1 - removed = end_ - (cut + removed - 1) := by omega
        simp only [filter_cons, hcut, hboth, decide_true, if_true, map_cons, hremoved, hshift, ih]
      · have hboth : ¬ cut + removed - 1 < end_ := by omega
        simp only [filter_cons, hcut, hboth, decide_true, decide_false, if_true, Bool.false_eq_true, if_false,
          map_cons, hremoved, ih]
    · have hboth : ¬ cut + removed - 1 < end_ := by omega
      simp only [filter_cons, hcut, hboth, decide_false, Bool.false_eq_true, if_false, ih]

theorem drop_cons_drop {α : Type} (first : α) (l : List α) (cut : Nat) {removed : Nat} (h : 1 ≤ removed) :
    (first :: l.drop cut).drop removed = l.drop (cut + removed - 1) := by
  obtain ⟨n, rfl⟩ := Nat.exists_eq_add_of_le' h
  rw [drop_succ_cons, drop_drop]
  congr 1

/-- **Two cuts are one.** -/
theorem cutState_cutState (state : AgentCompactionPromptState ν) (scope : Scope) (cut : Nat) (summary : JsString)
    {removed : Nat} (h : 1 ≤ removed) (summary' : JsString) :
    cutState (cutState state scope cut summary) scope removed summary'
      = cutState state scope (cut + removed - 1) summary' := by
  cases scope with
  | history =>
    simp only [cutState, applyAgentCompactionWindow, drop_cons_drop _ _ _ h]
  | active =>
    simp only [cutState, applyAgentCompactionWindow, drop_cons_drop _ _ _ h, filter_shift _ _ _ h]

/-! ## Ends -/

variable {state : AgentCompactionPromptState ν}

theorem mem_historicalEnds {end_ : Nat} : end_ ∈ historicalEnds state ↔ state.start .history < end_ ∧ ∃ message,
    state.conversation[end_]? = some message ∧ isUser message = true := by
  unfold historicalEnds
  rw [mem_filter, mem_range, Bool.and_eq_true, decide_eq_true_iff]
  constructor
  · rintro ⟨-, hstart, huser⟩
    cases hmessage : state.conversation[end_]? with
    | none =>
      rw [hmessage] at huser
      cases huser
    | some message =>
      rw [hmessage] at huser
      exact ⟨hstart, message, rfl, huser⟩
  · rintro ⟨hstart, message, hmessage, huser⟩
    refine ⟨?_, hstart, by rw [hmessage]; exact huser⟩
    by_contra hlength
    rw [getElem?_eq_none (not_lt.mp hlength)] at hmessage
    cases hmessage

/-- In an increasing list the elements before the last one are those below another one. -/
theorem mem_dropLast_iff {l : List Nat} (h : l.Pairwise (· < ·)) (n : Nat) :
    n ∈ l.dropLast ↔ n ∈ l ∧ ∃ m ∈ l, n < m := by
  induction l with
  | nil => simp
  | cons first rest ih =>
    obtain ⟨hfirst, hrest⟩ := pairwise_cons.mp h
    cases rest with
    | nil =>
      simp only [dropLast_singleton, not_mem_nil, mem_singleton, exists_eq_left, false_iff]
      omega
    | cons second rest =>
      rw [dropLast_cons_cons, mem_cons, ih hrest]
      constructor
      · rintro (rfl | ⟨hmem, m, hm, hlt⟩)
        · exact ⟨mem_cons_self, second, by simp, hfirst second mem_cons_self⟩
        · exact ⟨mem_cons_of_mem _ hmem, m, mem_cons_of_mem _ hm, hlt⟩
      · rintro ⟨hmem, m, hm, hlt⟩
        rcases mem_cons.mp hmem with rfl | hlater
        · exact .inl rfl
        · rcases mem_cons.mp hm with rfl | hm
          · exact absurd (hfirst n hlater) (by omega)
          · exact .inr ⟨hlater, m, hm, hlt⟩

/-- The ends of batches of active messages. -/
structure Batched (state : AgentCompactionPromptState ν) : Prop where
  batches : state.activeEnds.Pairwise (· < ·)
  bounded : ∀ end_ ∈ state.activeEnds, state.start .active < end_ ∧ end_ ≤ state.active.length

/-- A state whose indexes and ends belong to its messages. -/
structure WellFormed (state : AgentCompactionPromptState ν) : Prop extends Batched state where
  aligned : state.sourceIndexes.length = state.conversation.length
  sources : state.sourceIndexes.Pairwise (· < ·)

variable {scope : Scope}

theorem ends_bounds (h : Batched state) {end_ : Nat} (hend : end_ ∈ state.ends scope) :
    state.start scope < end_ ∧ end_ ≤ (state.messages scope).length := by
  cases scope with
  | history =>
    obtain ⟨hstart, message, hmessage, -⟩ := mem_historicalEnds.mp hend
    obtain ⟨hlength, -⟩ := List.getElem?_eq_some_iff.mp hmessage
    exact ⟨hstart, hlength.le⟩
  | active => exact h.bounded end_ (dropLast_subset _ hend)

variable {cut : Nat}

/-- An end of a state that was cut before is an end behind the cut. -/
theorem ends_cutState (h : Batched state) (hcut : 1 ≤ cut) {summary : JsString} {end_ : Nat}
    (hend : end_ ∈ (cutState state scope cut summary).ends scope) : 2 ≤ end_ ∧ cut + end_ - 1 ∈ state.ends scope := by
  cases scope with
  | history =>
    obtain ⟨hstart, message, hmessage, huser⟩ := mem_historicalEnds.mp hend
    have htwo : 2 ≤ end_ := hstart
    have hindex : (cutState state .history cut summary).conversation[end_]? = state.conversation[cut + end_ - 1]? := by
      obtain ⟨n, rfl⟩ := Nat.exists_eq_add_of_le' htwo
      change (_ :: state.conversation.drop cut)[n + 1 + 1]? = _
      rw [getElem?_cons_succ, getElem?_drop]
      congr 1
    have hbefore : state.start .history < cut + end_ - 1 := by
      unfold AgentCompactionPromptState.start
      split <;> omega
    exact ⟨htwo, mem_historicalEnds.mpr ⟨hbefore, message, hindex ▸ hmessage, huser⟩⟩
  | active =>
    change end_ ∈ ((state.activeEnds.filter (cut < ·)).map fun end_ => end_ - cut + 1).dropLast at hend
    rw [← map_dropLast] at hend
    obtain ⟨original, horiginal, rfl⟩ := mem_map.mp hend
    have hfilter := h.batches.sublist (filter_sublist (p := fun end_ => decide (cut < end_)))
    obtain ⟨hmem, later, hlater, hlt⟩ := (mem_dropLast_iff hfilter original).mp horiginal
    obtain ⟨hmem, hbehind⟩ := mem_filter.mp hmem
    have hbehind' : cut < original := by simpa using hbehind
    have hoffset : cut + (original - cut + 1) - 1 = original := by omega
    refine ⟨by omega, ?_⟩
    rw [hoffset]
    exact (mem_dropLast_iff h.batches original).mpr ⟨hmem, later, (mem_filter.mp hlater).1, hlt⟩

/-- A cut uses up the end that it is made at. -/
theorem length_ends_cutState (summary : JsString) (hcut : cut ∈ state.ends scope) :
    ((cutState state scope cut summary).ends scope).length < (state.ends scope).length := by
  cases scope with
  | history =>
    have hmap : ((historicalEnds (cutState state .history cut summary)).map fun end_ => cut + end_ - 1)
        ⊆ (historicalEnds state).filter (cut < ·) := by
      intro end_ hend
      obtain ⟨shifted, hshifted, rfl⟩ := mem_map.mp hend
      obtain ⟨hstart, message, hmessage, huser⟩ := mem_historicalEnds.mp hshifted
      obtain ⟨hbefore, -⟩ := mem_historicalEnds.mp hcut
      have htwo : 2 ≤ shifted := hstart
      have hindex : (cutState state .history cut summary).conversation[shifted]?
          = state.conversation[cut + shifted - 1]? := by
        obtain ⟨n, rfl⟩ := Nat.exists_eq_add_of_le' htwo
        change (_ :: state.conversation.drop cut)[n + 1 + 1]? = _
        rw [getElem?_cons_succ, getElem?_drop]
        congr 1
      exact mem_filter.mpr ⟨mem_historicalEnds.mpr ⟨by omega, message, hindex ▸ hmessage, huser⟩,
        decide_eq_true (by omega)⟩
    have hnodup : ((historicalEnds (cutState state .history cut summary)).map fun end_ => cut + end_ - 1).Nodup := by
      refine Nodup.map_on (fun left hleft right hright heq => ?_) (nodup_range.filter _)
      have hl : 2 ≤ left := (mem_historicalEnds.mp hleft).1
      have hr : 2 ≤ right := (mem_historicalEnds.mp hright).1
      omega
    have hle := (hnodup.subperm hmap).length_le
    rw [length_map] at hle
    refine lt_of_le_of_lt hle (length_filter_lt_length_iff_exists.mpr ⟨cut, hcut, by simp⟩)
  | active =>
    change (((state.activeEnds.filter (cut < ·)).map fun end_ => end_ - cut + 1).dropLast).length
      < state.activeEnds.dropLast.length
    have hmem := dropLast_subset _ hcut
    have hlt := length_filter_lt_length_iff_exists (p := fun end_ => decide (cut < end_)).mpr
      ⟨cut, hmem, by simp⟩
    have htwo : 1 ≤ state.activeEnds.dropLast.length := length_pos_of_mem hcut
    simp only [length_dropLast, length_map] at htwo ⊢
    omega

/-! ## Rounds -/

variable {numbers : Numbers ν} {sha256 : JsString → JsString} {input : Input ν}

theorem eligibleEnds_subset (state : AgentCompactionPromptState ν) (ends : List Nat) (kept : Nat) :
    eligibleEnds input state ends kept ⊆ ends := by
  induction kept with
  | zero => exact List.Subset.refl _
  | succ kept ih =>
    rw [eligibleEnds]
    split
    · exact ih
    · simp only
      split
      · exact take_subset _ _
      · exact ih

theorem candidateEnds_subset (state : AgentCompactionPromptState ν) (scope : Scope) :
    candidateEnds numbers input state scope ⊆ state.ends scope := by
  cases scope with
  | history => exact eligibleEnds_subset _ _ _
  | active => exact List.Subset.refl _

theorem selectWindow_some {ends : List Nat} {before : Option (Selected ν)} {selected : Selected ν}
    (h : selectWindow numbers sha256 input state scope ends before = some selected) :
    before = some selected ∨ ∃ end_ ∈ ends, selected.window = windowAt numbers sha256 input state scope end_ ∧
      256 ≤ selected.window.maximumSummaryBytes ∧
      selected.projected = cutState state scope end_ (maximumSummary selected.window.maximumSummaryBytes) := by
  induction ends generalizing before with
  | nil => exact .inl h
  | cons end_ ends ih =>
    have hlater : ∀ before, selectWindow numbers sha256 input state scope ends before = some selected →
        before = some selected ∨ ∃ other ∈ end_ :: ends, selected.window = windowAt numbers sha256 input state scope other ∧
          256 ≤ selected.window.maximumSummaryBytes ∧
          selected.projected = cutState state scope other (maximumSummary selected.window.maximumSummaryBytes) := by
      intro before hbefore
      rcases ih hbefore with hsame | ⟨other, hother, hwindow⟩
      · exact .inl hsame
      · exact .inr ⟨other, mem_cons_of_mem _ hother, hwindow⟩
    rw [selectWindow] at h
    split at h
    · exact hlater before h
    · rename_i hbudget
      simp only at h
      split at h
      · exact .inl h
      · split at h
        · exact hlater before h
        · rcases hlater _ h with hsame | hfound
          · cases hsame
            exact .inr ⟨end_, mem_cons_self, rfl, not_lt.mp hbudget, rfl⟩
          · exact .inr hfound

variable {progress progress' : Progress ν}

/-- What a round does that does not end the loop. -/
theorem compactRound_some
    (h : compactRound numbers sha256 input scope progress = .ok (some progress')) :
    ∃ end_ ∈ progress.state.ends scope,
      progress'.windows = progress.windows ++ [windowAt numbers sha256 input progress.state scope end_] ∧
      256 ≤ (windowAt numbers sha256 input progress.state scope end_).maximumSummaryBytes ∧
      progress'.state = cutState progress.state scope end_
        (maximumSummary (windowAt numbers sha256 input progress.state scope end_).maximumSummaryBytes) := by
  unfold compactRound at h
  split at h
  · cases h
  · split at h
    · cases h
    · rename_i selected hselected
      obtain ⟨inputTokens, -, h⟩ := bind_ok h
      obtain ⟨outputTokens, -, h⟩ := bind_ok h
      obtain ⟨totalTokens, -, h⟩ := bind_ok h
      obtain ⟨costMicros, -, h⟩ := bind_ok h
      cases h
      rcases selectWindow_some hselected with hnone | ⟨end_, hend, hwindow, hbudget, hprojected⟩
      · cases hnone
      · rw [hwindow] at hbudget hprojected
        exact ⟨end_, candidateEnds_subset _ _ hend, by rw [hwindow], hbudget, hprojected⟩

/-- **Loop rule.** What every round keeps holds after the loop. -/
theorem compactRounds_ok {I : Progress ν → Prop}
    (hround : ∀ progress progress', compactRound numbers sha256 input scope progress = .ok (some progress') →
      I progress → I progress') {rounds : Nat}
    (h : compactRounds numbers sha256 input scope rounds progress = .ok progress') (hI : I progress) :
    I progress' := by
  induction rounds generalizing progress with
  | zero =>
    cases h
    exact hI
  | succ rounds ih =>
    rw [compactRounds] at h
    obtain ⟨next, hnext, h⟩ := bind_ok h
    split at h
    · cases h
      exact hI
    · exact ih h (hround _ _ hnext hI)

/-- **Termination.** The loop stops by itself within as many rounds as there are ends. -/
theorem compactRounds_done {rounds : Nat} (hrounds : (progress.state.ends scope).length ≤ rounds)
    (h : compactRounds numbers sha256 input scope rounds progress = .ok progress') :
    compactRound numbers sha256 input scope progress' = .ok none := by
  induction rounds generalizing progress with
  | zero =>
    cases h
    have hends : candidateEnds numbers input progress'.state scope = [] :=
      eq_nil_of_subset_nil (eq_nil_of_length_eq_zero (Nat.le_zero.mp hrounds) ▸ candidateEnds_subset _ _)
    unfold compactRound
    rw [hends]
    split
    · rfl
    · rfl
  | succ rounds ih =>
    rw [compactRounds] at h
    obtain ⟨next, hnext, h⟩ := bind_ok h
    split at h
    · cases h
      exact hnext
    · obtain ⟨end_, hend, -, -, hstate⟩ := compactRound_some hnext
      refine ih ?_ h
      have hlt := length_ends_cutState
        (maximumSummary (windowAt numbers sha256 input progress.state scope end_).maximumSummaryBytes) hend
      rw [← hstate] at hlt
      omega

/-! ## Windows in a row -/

/-- Windows that follow each other from the first message on that no summary stands for, each cut at an end. -/
inductive Cuts (state : AgentCompactionPromptState ν) (scope : Scope) : List (AgentCompactionWindow ν) → Nat → Prop
  | none : Cuts state scope [] (state.start scope)
  | next {windows : List (AgentCompactionWindow ν)} {cut cut' : Nat} {window : AgentCompactionWindow ν}
      (before : Cuts state scope windows cut) (hlt : cut < cut') (hend : cut' ∈ state.ends scope)
      (hscope : window.scope = scope)
      (hmessages : window.messages = ((state.messages scope).take cut').drop cut)
      (hremove : window.removeCount = if windows.isEmpty then cut' else cut' - cut + 1)
      (hindex : scope = .history → window.throughSourceIndex = state.sourceIndexes[cut' - 1]?)
      (hbudget : 256 ≤ window.maximumSummaryBytes) : Cuts state scope (windows ++ [window]) cut'

variable {windows : List (AgentCompactionWindow ν)}

theorem Cuts.end_mem (h : Cuts state scope windows cut) (hne : windows ≠ []) : cut ∈ state.ends scope := by
  cases h with
  | none => exact absurd rfl hne
  | next _ _ hend _ _ _ _ _ => exact hend

theorem Cuts.scopes (h : Cuts state scope windows cut) : ∀ window ∈ windows, window.scope = scope := by
  induction h with
  | none => intro window hwindow; cases hwindow
  | next before hlt hend hscope hmessages hremove hindex hbudget ih =>
    exact forall_mem_append.mpr ⟨ih, forall_mem_singleton.mpr hscope⟩

theorem Cuts.budgets (h : Cuts state scope windows cut) : ∀ window ∈ windows, 256 ≤ window.maximumSummaryBytes := by
  induction h with
  | none => intro window hwindow; cases hwindow
  | next before hlt hend hscope hmessages hremove hindex hbudget ih =>
    exact forall_mem_append.mpr ⟨ih, forall_mem_singleton.mpr hbudget⟩

theorem Cuts.start_le (h : Cuts state scope windows cut) : state.start scope ≤ cut := by
  induction h with
  | none => exact le_refl _
  | next before hlt hend hscope hmessages hremove hindex hbudget ih => omega

theorem Cuts.cut_of_nil (h : Cuts state scope windows cut) (hnil : windows = []) : cut = state.start scope := by
  cases h with
  | none => rfl
  | next before hlt hend hscope hmessages hremove hindex hbudget => simp at hnil

theorem slice_append {α : Type} (l : List α) {a b c : Nat} (hab : a ≤ b) (hbc : b ≤ c) :
    (l.take b).drop a ++ (l.take c).drop b = (l.take c).drop a := by
  have hsum : c - a = (b - a) + (c - b) := by omega
  have hdrop : l.drop b = (l.drop a).drop (b - a) := by
    rw [drop_drop]
    congr 1
    omega
  rw [drop_take, drop_take, drop_take, hsum, take_add, hdrop]

/-- **Coverage.** The windows are, in order, the messages up to the cut. -/
theorem Cuts.covered (h : Cuts state scope windows cut) :
    windows.flatMap (·.messages) = ((state.messages scope).take cut).drop (state.start scope) := by
  induction h with
  | none => simp
  | next before hlt hend hscope hmessages hremove hindex hbudget ih =>
    rw [flatMap_append, ih, flatMap_singleton, hmessages, slice_append _ before.start_le hlt.le]

/-- The source indexes of history windows increase. -/
theorem Cuts.indexes (hstate : WellFormed state) (h : Cuts state .history windows cut) :
    ∃ indexes : List Int, windows.map (·.throughSourceIndex) = indexes.map some ∧ indexes.Pairwise (· < ·) ∧
      ∀ index ∈ indexes, ∃ n, n < cut ∧ state.sourceIndexes[n]? = some index := by
  induction h with
  | none => exact ⟨[], rfl, Pairwise.nil, fun _ hindex => by cases hindex⟩
  | @next windows cut cut' window before hlt hend hscope hmessages hremove hindex hbudget ih =>
    obtain ⟨indexes, hmap, hpairwise, hfound⟩ := ih
    have hbounds := ends_bounds hstate.toBatched hend
    have hlength : cut' - 1 < state.sourceIndexes.length := by
      rw [hstate.aligned]
      exact lt_of_lt_of_le (by omega) hbounds.2
    have hlast : state.sourceIndexes[cut' - 1]? = some state.sourceIndexes[cut' - 1] := getElem?_eq_getElem hlength
    refine ⟨indexes ++ [state.sourceIndexes[cut' - 1]], ?_, ?_, ?_⟩
    · rw [map_append, map_append, hmap, map_singleton, map_singleton, hindex rfl, hlast]
    · refine pairwise_append.mpr ⟨hpairwise, pairwise_singleton _ _, fun index hmem last hlastMem => ?_⟩
      rw [mem_singleton.mp hlastMem]
      obtain ⟨n, hn, hindexAt⟩ := hfound index hmem
      obtain ⟨hnlength, rfl⟩ := List.getElem?_eq_some_iff.mp hindexAt
      exact pairwise_iff_getElem.mp hstate.sources n (cut' - 1) hnlength hlength (by omega)
    · intro index hmem
      rcases mem_append.mp hmem with hmem | hmem
      · obtain ⟨n, hn, hindexAt⟩ := hfound index hmem
        exact ⟨n, by omega, hindexAt⟩
      · rw [mem_singleton.mp hmem]
        exact ⟨cut' - 1, by omega, hlast⟩

/-- The state after windows up to a cut. -/
def projectedState (state : AgentCompactionPromptState ν) (scope : Scope) (cut : Nat) :
    Option JsString → AgentCompactionPromptState ν
  | none => state
  | some summary => cutState state scope cut summary

def lastSummary (windows : List (AgentCompactionWindow ν)) : Option JsString :=
  windows.getLast?.map fun window => maximumSummary window.maximumSummaryBytes

theorem lastSummary_append (windows : List (AgentCompactionWindow ν)) (window : AgentCompactionWindow ν) :
    lastSummary (windows ++ [window]) = some (maximumSummary window.maximumSummaryBytes) := by
  simp [lastSummary]

/-- What a round keeps of the state that the loop began with. -/
theorem compactRound_cuts (hstate : Batched state) {others windows : List (AgentCompactionWindow ν)}
    (h : compactRound numbers sha256 input scope progress = .ok (some progress'))
    (hcuts : Cuts state scope windows cut) (hwindows : progress.windows = others ++ windows)
    (hprojected : progress.state = projectedState state scope cut (lastSummary windows)) :
    ∃ windows' cut', Cuts state scope windows' cut' ∧ progress'.windows = others ++ windows' ∧
      progress'.state = projectedState state scope cut' (lastSummary windows') := by
  obtain ⟨end_, hend, hnext, hbudget, hnextState⟩ := compactRound_some h
  by_cases hnil : windows = []
  · subst hnil
    have hsame : progress.state = state := hprojected
    obtain rfl := hcuts.cut_of_nil rfl
    rw [hsame] at hend hnext hbudget hnextState
    refine ⟨[] ++ [windowAt numbers sha256 input state scope end_], end_,
      hcuts.next (ends_bounds hstate hend).1 hend rfl rfl rfl ?_ hbudget, ?_, ?_⟩
    · rintro rfl
      rfl
    · rw [hnext, hwindows, append_nil, nil_append]
    · rw [lastSummary_append]
      exact hnextState
  · obtain ⟨summary, hsummary⟩ : ∃ summary, lastSummary windows = some summary := by
      rw [lastSummary, getLast?_eq_some_getLast hnil]
      exact ⟨_, rfl⟩
    have hcut : progress.state = cutState state scope cut summary := by
      rw [hprojected, hsummary]
      rfl
    have hbounds := ends_bounds hstate (hcuts.end_mem hnil)
    have hone : 1 ≤ cut := Nat.one_le_of_lt hbounds.1
    rw [hcut] at hend hnext hbudget hnextState
    obtain ⟨htwo, hlater⟩ := ends_cutState hstate hone hend
    obtain ⟨n, rfl⟩ := Nat.exists_eq_add_of_le' htwo
    have hoffset : cut + (n + 2) - 1 = cut + (n + 1) := by omega
    rw [hoffset] at hlater
    refine ⟨windows ++ [windowAt numbers sha256 input (cutState state scope cut summary) scope (n + 2)],
      cut + (n + 1), hcuts.next (by omega) hlater rfl ?_ ?_ ?_ hbudget, ?_, ?_⟩
    · change (((cutState state scope cut summary).messages scope).take (n + 2)).drop
        ((cutState state scope cut summary).start scope) = _
      rw [cutState_messages, cutState_start, take_succ_cons, drop_succ_cons, drop_zero, drop_take,
        Nat.add_sub_cancel_left]
    · rw [if_neg (by simpa using hnil), Nat.add_sub_cancel_left]
      rfl
    · rintro rfl
      change (-1 :: state.sourceIndexes.drop cut)[n + 2 - 1]? = _
      rw [Nat.add_sub_cancel_right (m := 1) (n := n + 1), getElem?_cons_succ, getElem?_drop]
      congr 1
    · rw [hnext, hwindows, append_assoc]
    · rw [hnextState, cutState_cutState _ _ _ _ (by omega), lastSummary_append, hoffset]
      rfl

theorem compactScope_cuts (hstate : Batched state) {others : List (AgentCompactionWindow ν)}
    (h : compactScope numbers sha256 input scope progress = .ok progress') (hwindows : progress.windows = others)
    (hbase : progress.state = state) : ∃ windows cut, Cuts state scope windows cut ∧
    progress'.windows = others ++ windows ∧ progress'.state = projectedState state scope cut (lastSummary windows) :=
  compactRounds_ok
    (I := fun progress => ∃ windows cut, Cuts state scope windows cut ∧ progress.windows = others ++ windows ∧
      progress.state = projectedState state scope cut (lastSummary windows))
    (fun _ _ hround ⟨_, _, hcuts, hwindows, hprojected⟩ => compactRound_cuts hstate hround hcuts hwindows hprojected)
    h ⟨[], _, .none, by rw [hwindows, append_nil], hbase⟩

/-- The active messages are what they were after the history was cut. -/
theorem projectedState_batched (hstate : Batched state) (cut : Nat) (summary : Option JsString) :
    Batched (projectedState state .history cut summary) := by
  cases summary with
  | none => exact hstate
  | some summary => exact ⟨hstate.batches, hstate.bounded⟩

/-- The windows of a scope are told by its messages, ends and indexes. -/
theorem Cuts.congr {state state' : AgentCompactionPromptState ν}
    (hmessages' : state.messages scope = state'.messages scope) (hends : state.ends scope = state'.ends scope)
    (hstart : state.start scope = state'.start scope)
    (hindexes : scope = .history → state.sourceIndexes = state'.sourceIndexes) (h : Cuts state scope windows cut) :
    Cuts state' scope windows cut := by
  induction h with
  | none =>
    rw [hstart]
    exact .none
  | next before hlt hend hscope hmessages hremove hindex hbudget ih =>
    rw [hmessages'] at hmessages
    rw [hends] at hend
    exact ih.next hlt hend hscope hmessages hremove (fun hhistory => hindexes hhistory ▸ hindex hhistory) hbudget

theorem Cuts.active_iff {summary : Option JsString} {cut' : Nat} :
    Cuts (projectedState state .history cut summary) .active windows cut' ↔ Cuts state .active windows cut' := by
  have hsame : (projectedState state .history cut summary).messages .active = state.messages .active ∧
      (projectedState state .history cut summary).ends .active = state.ends .active ∧
      (projectedState state .history cut summary).start .active = state.start .active := by
    cases summary <;> exact ⟨rfl, rfl, rfl⟩
  obtain ⟨hmessages, hends, hstart⟩ := hsame
  exact ⟨Cuts.congr hmessages hends hstart (fun hhistory => nomatch hhistory),
    Cuts.congr hmessages.symm hends.symm hstart.symm (fun hhistory => nomatch hhistory)⟩

/-! ## Plans -/

/-- Windows from the history and from the active messages, and the state that they leave. -/
structure Planned (state : AgentCompactionPromptState ν) (windows : List (AgentCompactionWindow ν))
    (projected : AgentCompactionPromptState ν) (past current : List (AgentCompactionWindow ν)) (pastCut currentCut : Nat) :
    Prop where
  order : windows = past ++ current
  pastCuts : Cuts state .history past pastCut
  currentCuts : Cuts state .active current currentCut
  rest : projected = projectedState (projectedState state .history pastCut (lastSummary past)) .active currentCut
    (lastSummary current)

theorem compactScopes_active (hstate : Batched state) {past : List (AgentCompactionWindow ν)}
    {pastCut : Nat} (h : compactScopes numbers sha256 input [.active] progress = .ok progress')
    (hpast : Cuts state .history past pastCut) (hwindows : progress.windows = past)
    (hprojected : progress.state = projectedState state .history pastCut (lastSummary past)) :
    ∃ current currentCut, Planned state progress'.windows progress'.state past current pastCut currentCut := by
  rw [compactScopes, if_neg (by simp)] at h
  obtain ⟨last, hlast, h⟩ := bind_ok h
  cases h
  obtain ⟨current, currentCut, hcuts, hcurrent, hfinal⟩ :=
    compactScope_cuts (projectedState_batched hstate pastCut (lastSummary past)) hlast hwindows hprojected
  exact ⟨current, currentCut, hcurrent, hpast, Cuts.active_iff.mp hcuts, hfinal⟩

theorem compactScopes_planned (h : compactScopes numbers sha256 input input.scopes progress = .ok progress')
    (hstate : Batched progress.state) (hwindows : progress.windows = []) : ∃ past current pastCut currentCut,
    Planned progress.state progress'.windows progress'.state past current pastCut currentCut := by
  have hhistory : ∀ scopes, compactScopes numbers sha256 input (.history :: scopes) progress = .ok progress' →
      ∃ middle past pastCut, compactScopes numbers sha256 input scopes middle = .ok progress' ∧
        Cuts progress.state .history past pastCut ∧ middle.windows = past ∧
        middle.state = projectedState progress.state .history pastCut (lastSummary past) := by
    intro scopes h
    rw [compactScopes] at h
    split at h
    · exact ⟨progress, [], _, h, .none, hwindows, rfl⟩
    · obtain ⟨middle, hmiddle, h⟩ := bind_ok h
      obtain ⟨past, pastCut, hcuts, hpast, hprojected⟩ := compactScope_cuts hstate hmiddle hwindows rfl
      exact ⟨middle, past, pastCut, h, hcuts, hpast, hprojected⟩
  unfold Input.scopes at h
  split at h
  · obtain ⟨middle, past, pastCut, hrest, hcuts, hpast, hprojected⟩ := hhistory _ h
    cases hrest
    exact ⟨past, [], pastCut, _, by rw [hpast, append_nil], hcuts, .none, hprojected⟩
  · obtain ⟨middle, past, pastCut, hrest, hcuts, hpast, hprojected⟩ := hhistory _ h
    obtain ⟨current, currentCut, hplanned⟩ := compactScopes_active hstate hrest hcuts hpast hprojected
    exact ⟨past, current, pastCut, currentCut, hplanned⟩

theorem planned_windows {plan : AgentCompactionPlan ν}
    (h : planAgentContextCompaction numbers sha256 input = .ok (some plan)) : ∃ progress,
      compactScopes numbers sha256 input input.scopes ⟨input.state, [], 0, 0, 0, 0⟩ = .ok progress
        ∧ plan.windows = progress.windows ∧ plan.projected = progress.state
        ∧ plan.ordinaryExposure = input.ordinaryExposure plan.projected := by
  unfold planAgentContextCompaction at h
  split at h
  · cases h
  · obtain ⟨progress, hprogress, h⟩ := bind_ok h
    simp only at h
    split at h
    · cases h
    · split at h
      · cases h
      · obtain ⟨total, -, h⟩ := bind_ok h
        obtain ⟨cost, -, h⟩ := bind_ok h
        cases h
        exact ⟨progress, hprogress, rfl, rfl, rfl⟩

theorem planAgentContextCompaction_some {plan : AgentCompactionPlan ν}
    (h : planAgentContextCompaction numbers sha256 input = .ok (some plan)) (hstate : Batched input.state) :
    plan.ordinaryExposure = input.ordinaryExposure plan.projected ∧ ∃ past current pastCut currentCut,
      Planned input.state plan.windows plan.projected past current pastCut currentCut := by
  obtain ⟨progress, hprogress, hwindows, hprojected, hexposure⟩ := planned_windows h
  rw [hwindows, hprojected] at *
  exact ⟨hexposure, compactScopes_planned hprogress hstate rfl⟩

end

end TsEpistle.Agents.Compaction
