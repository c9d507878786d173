import TsEpistle.LinePatch.Snapshots
import TsEpistle.Library.Checked

/-! A patch that is accepted is an ordered splice: every line outside of its ranges stays once and
in its place, and every replacement and insertion stands in its own. -/

namespace TsEpistle.LinePatch
open Library Checked List

variable {env : Environment} {source : ValidatedWikiMarkdownSource}
  {disclosed : List DisclosedLineRange} {plan plan' : PatchPlan}

/-! ## Operations -/

/-- A range of lines and what replaces it. -/
def PatchOperation.range : PatchOperation → Option PlannedRange
  | insert .. => none
  | replace start stop lines => some ⟨start.line, stop.line, lines⟩
  | delete start stop => some ⟨start.line, stop.line, []⟩

/-- A gap, named by the line before it, and what is inserted there. -/
def PatchOperation.gap : PatchOperation → Option PlannedGap
  | insert after _ lines => some ⟨after.elim 0 (·.line), lines⟩
  | replace .. | delete .. => none

/-- The lines that a patch puts behind a line, or in front of all lines. -/
def insertedLines (operations : List PatchOperation) (gap : Nat) : List JsString :=
  (operations.filterMap (·.gap)).flatMap fun planned => if planned.gap = gap then planned.lines else []

/-- What stands for a line: the line itself, or the replacement of the range that starts with it,
or nothing inside of a range. -/
def standingLines (lines : List JsString) (operations : List PatchOperation) (line : Nat) :
    List JsString :=
  match (operations.filterMap (·.range)).find? fun range => range.start ≤ line && line ≤ range.stop with
  | some range => if range.start = line then range.lines else []
  | none => (lines[line - 1]?).toList

/-- The splice that a patch describes. -/
def spliced (lines : List JsString) (operations : List PatchOperation) : List JsString :=
  insertedLines operations 0 ++
    (List.range' 1 lines.length).flatMap fun line =>
      standingLines lines operations line ++ insertedLines operations line

/-! ## Plans -/

/-- A line that a patch may carry. -/
def CleanLine (line : JsString) : Prop := 10 ∉ line ∧ 13 ∉ line

/-- What the loop over the operations keeps: the ranges and gaps of the plan are those of the
operations so far, and lie in order. -/
structure Ordered (lineCount : Nat) (operations : List PatchOperation) (plan : PatchPlan) : Prop where
  ranges : plan.ranges = operations.filterMap (·.range)
  gaps : plan.gaps = operations.filterMap (·.gap)
  within : ∀ range ∈ plan.ranges, 1 ≤ range.start ∧ range.start ≤ range.stop ∧
    range.stop ≤ lineCount ∧ (range.stop : Int) * 2 - 1 ≤ plan.previousPositionEnd
  apart : plan.ranges.Pairwise fun first second => first.stop < second.start
  gapsWithin : ∀ gap ∈ plan.gaps, gap.gap ≤ lineCount ∧ (gap.gap : Int) * 2 ≤ plan.previousPositionEnd
  gapsApart : plan.gaps.Pairwise fun first second => first.gap < second.gap
  rangeLines : ∀ range ∈ plan.ranges, ∀ line ∈ range.lines, CleanLine line
  gapLines : ∀ gap ∈ plan.gaps, ∀ line ∈ gap.lines, CleanLine line

theorem ordered_empty (lineCount : Nat) : Ordered lineCount [] ⟨[], [], -1⟩ := by
  constructor <;> simp

variable {lines : List JsString}

theorem assertPatchLines_ok (h : assertPatchLines lines = .ok ()) : ∀ line ∈ lines, CleanLine line := by
  induction lines with
  | nil => simp
  | cons first lines ih =>
    obtain ⟨⟨⟩, hfirst, hrest⟩ := bind_ok (by simpa [assertPatchLines] using h)
    intro line hline
    rcases mem_cons.mp hline with rfl | hline
    · obtain ⟨-, -, hfirst⟩ := bind_ok hfirst
      split at hfirst
      · cases hfirst
      next hclean =>
        simp only [Bool.or_eq_true, not_or] at hclean
        exact ⟨fun hmem => hclean.1.2 (contains_iff_mem.mpr hmem), fun hmem => hclean.1.1 (contains_iff_mem.mpr hmem)⟩
    · exact ih hrest line hline

theorem resolveRange_ok {start stop : LineAnchor} {range : Nat × Nat}
    (h : resolveRange env start stop source disclosed = .ok range) :
    range = (start.line, stop.line) ∧ start.line ≤ stop.line ∧ stop.line ≤ source.lines.length ∧
      ∀ line, start.line ≤ line → line ≤ stop.line → lineIsDisclosed line disclosed = true := by
  unfold resolveRange at h
  split at h
  · cases h
  next hbounds =>
    split at h
    · cases h
    next hcovered =>
      split at h
      · cases h
      cases h
      simp only [Bool.or_eq_true, decide_eq_true_eq, not_or, not_lt] at hbounds
      refine ⟨rfl, hbounds.1.1.1, hbounds.1.1.2, ?_⟩
      intro line hstart hstop
      simp only [Bool.not_eq_true', Bool.not_eq_false, all_eq_true] at hcovered
      refine hcovered line ?_
      rw [linesBetween, mem_range'_1]
      omega

theorem gapIndex_ok {lineCount gap : Nat} {after before : Option LineAnchor}
    (h : gapIndex lineCount after before = .ok gap) : gap = after.elim 0 (·.line) := by
  unfold gapIndex at h
  split at h
  · split at h
    · cases h
    cases h
    rfl
  · split at h
    · cases h
    next heq =>
      cases h
      simpa using (not_not.mp heq).symm
  · split at h
    · cases h
    cases h
    rfl
  · cases h

/-- The existing neighbours of a gap are disclosed. -/
theorem resolveGap_ok {after before : Option LineAnchor} {gap : Nat}
    (h : resolveGap env after before source disclosed = .ok gap) : gap = after.elim 0 (·.line) ∧
    gap ≤ source.lines.length ∧ ∀ line, (line = gap ∨ line = gap + 1) → 1 ≤ line → line ≤ source.lines.length →
    lineIsDisclosed line disclosed = true := by
  unfold resolveGap at h
  dsimp only at h
  split at h
  next hempty =>
    split at h
    · cases h
    next hnone =>
      cases h
      simp only [Bool.or_eq_true, not_or, Bool.not_eq_true, Option.isSome_eq_false_iff,
        Option.isNone_iff_eq_none] at hnone
      refine ⟨by rw [hnone.1]; rfl, by omega, ?_⟩
      intro line _ hpos hle
      omega
  next hnonempty =>
    split at h
    · cases h
    split at h
    · cases h
    next hafter =>
      split at h
      · cases h
      obtain ⟨index, hindex, h⟩ := bind_ok h
      split at h
      next hcovered =>
        cases h
        have heq := gapIndex_ok hindex
        have hle : gap ≤ source.lines.length := by
          cases after with
          | none => simp [heq]
          | some anchor =>
            simp only [Option.any_some, anchorStale, Bool.or_eq_true, decide_eq_true_eq, not_or, not_lt] at hafter
            rw [heq]
            exact hafter.1
        refine ⟨heq, hle, ?_⟩
        intro line hline hpos hlines
        unfold gapCovered at hcovered
        split at hcovered
        · obtain rfl : line = 1 := by omega
          exact hcovered
        · split at hcovered
          · obtain rfl : line = source.lines.length := by omega
            exact hcovered
          · simp only [Bool.and_eq_true] at hcovered
            rcases hline with rfl | rfl
            · exact hcovered.1
            · exact hcovered.2
      · cases h

variable {operations : List PatchOperation}

theorem Ordered.planRange (hplan : Ordered source.lines.length operations plan) {operation : PatchOperation}
    {start stop : LineAnchor} (hstart : 1 ≤ start.line) (hrange : operation.range = some ⟨start.line, stop.line, lines⟩)
    (hgap : operation.gap = none) (h : planRange env source disclosed plan start stop lines = .ok plan') :
    Ordered source.lines.length (operations ++ [operation]) plan' := by
  obtain ⟨range, hresolved, h⟩ := bind_ok h
  obtain ⟨rfl, hle, hstop, -⟩ := resolveRange_ok hresolved
  split at h
  · cases h
  next horder =>
    obtain ⟨⟨⟩, hlines, h⟩ := bind_ok h
    cases h
    simp only [Bool.or_eq_true, decide_eq_true_eq, not_or, not_le] at horder
    refine ⟨?_, ?_, ?_, ?_, ?_, hplan.gapsApart, ?_, hplan.gapLines⟩
    · simp [hplan.ranges, hrange]
    · simp [hplan.gaps, hgap]
    · intro range hmem
      dsimp only
      rcases mem_append.mp hmem with hmem | hmem
      · have hold := hplan.within range hmem
        omega
      · obtain rfl := mem_singleton.mp hmem
        exact ⟨hstart, hle, hstop, le_refl _⟩
    · refine pairwise_append.mpr ⟨hplan.apart, pairwise_singleton _ _, ?_⟩
      intro first hfirst second hsecond
      obtain rfl := mem_singleton.mp hsecond
      have hold := hplan.within first hfirst
      dsimp only
      omega
    · intro gap hmem
      have hold := hplan.gapsWithin gap hmem
      dsimp only
      omega
    · exact forall_mem_append.mpr ⟨hplan.rangeLines, forall_mem_singleton.mpr (assertPatchLines_ok hlines)⟩

theorem Ordered.planOperation (hplan : Ordered source.lines.length operations plan)
    {operation : PatchOperation} (hanchors : ∀ anchor ∈ operation.anchors, 1 ≤ anchor.line)
    (h : planOperation env source disclosed plan operation = .ok plan') :
    Ordered source.lines.length (operations ++ [operation]) plan' := by
  cases operation with
  | insert after before lines =>
    obtain ⟨⟨⟩, hlines, h⟩ := bind_ok h
    obtain ⟨gap, hgap, h⟩ := bind_ok h
    obtain ⟨hindex, hle, -⟩ := resolveGap_ok hgap
    split at h
    · cases h
    next horder =>
      cases h
      simp only [Bool.or_eq_true, decide_eq_true_eq, not_or, not_le] at horder
      refine ⟨?_, ?_, ?_, hplan.apart, ?_, ?_, hplan.rangeLines, ?_⟩
      · simp [hplan.ranges, PatchOperation.range]
      · simp [hplan.gaps, PatchOperation.gap, hindex]
      · intro range hmem
        have hold := hplan.within range hmem
        dsimp only
        omega
      · intro planned hmem
        dsimp only
        rcases mem_append.mp hmem with hmem | hmem
        · have hold := hplan.gapsWithin planned hmem
          omega
        · obtain rfl := mem_singleton.mp hmem
          exact ⟨hle, le_refl _⟩
      · refine pairwise_append.mpr ⟨hplan.gapsApart, pairwise_singleton _ _, ?_⟩
        intro first hfirst second hsecond
        obtain rfl := mem_singleton.mp hsecond
        have hold := hplan.gapsWithin first hfirst
        dsimp only
        omega
      · exact forall_mem_append.mpr ⟨hplan.gapLines, forall_mem_singleton.mpr (assertPatchLines_ok hlines)⟩
  | replace start stop lines =>
    exact hplan.planRange (hanchors start (by simp [PatchOperation.anchors])) rfl rfl h
  | delete start stop =>
    exact hplan.planRange (hanchors start (by simp [PatchOperation.anchors])) rfl rfl h

theorem Ordered.planOperations {done operations : List PatchOperation} (hplan : Ordered source.lines.length done plan)
    (hanchors : ∀ operation ∈ operations, ∀ anchor ∈ operation.anchors, 1 ≤ anchor.line)
    (h : operations.foldlM (LinePatch.planOperation env source disclosed) plan = .ok plan') :
    Ordered source.lines.length (done ++ operations) plan' := by
  induction operations generalizing done plan with
  | nil =>
    cases h
    simpa using hplan
  | cons operation operations ih =>
    rw [foldlM_cons] at h
    obtain ⟨mid, hmid, h⟩ := bind_ok h
    have hnext := ih (hplan.planOperation (hanchors operation mem_cons_self) hmid)
      (fun operation hmem => hanchors operation (mem_cons_of_mem _ hmem)) h
    simpa using hnext

/-- What is known of a plan that was accepted. -/
theorem planPatch_ok (hanchors : ∀ operation ∈ operations, ∀ anchor ∈ operation.anchors, 1 ≤ anchor.line)
    (h : planPatch env source disclosed operations = .ok plan) : Ordered source.lines.length operations plan ∧
    ∀ gap ∈ plan.gaps, ∀ range ∈ plan.ranges, gap.gap + 1 < range.start ∨ range.stop < gap.gap := by
  obtain ⟨plan, hplan, h⟩ := bind_ok h
  split at h
  · cases h
  next hincident =>
    cases h
    refine ⟨by simpa using (ordered_empty _).planOperations hanchors hplan, ?_⟩
    intro gap hgap range hrange
    by_contra hmeet
    refine hincident (any_eq_true.mpr ⟨gap, hgap, any_eq_true.mpr ⟨range, hrange, ?_⟩⟩)
    simp only [Bool.and_eq_true, decide_eq_true_eq]
    omega

/-! ## The result lines -/

theorem find_gap {gaps : List PlannedGap} (h : gaps.Pairwise fun first second => first.gap < second.gap)
    (gap : Nat) :
    ((gaps.find? (·.gap = gap)).map (·.lines)).getD []
      = gaps.flatMap fun planned => if planned.gap = gap then planned.lines else [] := by
  induction gaps with
  | nil => rfl
  | cons first gaps ih =>
    obtain ⟨hfirst, hrest⟩ := pairwise_cons.mp h
    rw [flatMap_cons]
    by_cases hgap : first.gap = gap
    · have hnone : (gaps.flatMap fun planned => if planned.gap = gap then planned.lines else [])
          = [] := by
        rw [flatMap_eq_nil_iff]
        intro planned hmem
        have hlt := hfirst planned hmem
        rw [if_neg (by omega)]
      simp [hgap, hnone]
    · rw [find?_cons_of_neg (by simpa using hgap), ih hrest, if_neg hgap]
      rfl

variable {lineCount : Nat}

theorem insertedAt_eq (hplan : Ordered lineCount operations plan) (gap : Nat) :
    insertedAt plan gap = insertedLines operations gap := by
  rw [insertedAt, find_gap hplan.gapsApart, hplan.gaps]
  rfl

/-- Ranges that cover the same line are the same. -/
theorem range_unique (hplan : Ordered lineCount operations plan) {first second : PlannedRange} {line : Nat}
    (hfirst : first ∈ plan.ranges) (hsecond : second ∈ plan.ranges) (h₁ : first.start ≤ line ∧ line ≤ first.stop)
    (h₂ : second.start ≤ line ∧ line ≤ second.stop) : first = second := by
  by_contra hne
  have hapart : first.stop < second.start ∨ second.stop < first.start := by
    have hpairs : plan.ranges.Pairwise fun a b => a.stop < b.start ∨ b.stop < a.start := hplan.apart.imp fun h => .inl h
    have hsymm : Std.Symm fun a b : PlannedRange => a.stop < b.start ∨ b.stop < a.start := ⟨fun _ _ h => h.symm⟩
    exact hpairs.forall hfirst hsecond hne
  omega

theorem standingLines_of_cover (hplan : Ordered lineCount operations plan) {range : PlannedRange}
    {line : Nat} (hrange : range ∈ plan.ranges) (hcover : range.start ≤ line ∧ line ≤ range.stop)
    (lines : List JsString) :
    standingLines lines operations line = if range.start = line then range.lines else [] := by
  unfold standingLines
  rw [← hplan.ranges]
  cases hfind : plan.ranges.find? fun range => range.start ≤ line && line ≤ range.stop with
  | none =>
    have hnone := find?_eq_none.mp hfind range hrange
    simp [hcover.1, hcover.2] at hnone
  | some found =>
    have hfound := find?_some hfind
    simp only [Bool.and_eq_true, decide_eq_true_eq] at hfound
    rw [range_unique hplan (mem_of_find?_eq_some hfind) hrange hfound hcover]

theorem standingLines_of_free (hplan : Ordered lineCount operations plan) {line : Nat}
    (hfree : ∀ range ∈ plan.ranges, ¬ (range.start ≤ line ∧ line ≤ range.stop))
    (lines : List JsString) : standingLines lines operations line = (lines[line - 1]?).toList := by
  unfold standingLines
  rw [← hplan.ranges]
  have hnone : plan.ranges.find? (fun range => range.start ≤ line && line ≤ range.stop) = none := by
    rw [find?_eq_none]
    intro range hrange
    simpa using hfree range hrange
  rw [hnone]

/-- A range leaves nothing of its lines but the replacement. -/
theorem covered_lines (hplan : Ordered lineCount operations plan)
    (happart : ∀ gap ∈ plan.gaps, ∀ range ∈ plan.ranges,
      gap.gap + 1 < range.start ∨ range.stop < gap.gap) {range : PlannedRange}
    (hrange : range ∈ plan.ranges) (lines : List JsString) :
    ((List.range' range.start (range.stop + 1 - range.start)).flatMap fun line =>
      standingLines lines operations line ++ insertedAt plan line) = range.lines := by
  obtain ⟨-, hle, -, -⟩ := hplan.within range hrange
  have hnothing : ∀ line, range.start ≤ line → line ≤ range.stop → insertedAt plan line = [] := by
    intro line hstart hstop
    unfold insertedAt
    cases hfind : plan.gaps.find? (·.gap = line) with
    | none => rfl
    | some gap =>
      have hgap := find?_some hfind
      simp only [decide_eq_true_eq] at hgap
      have := happart gap (mem_of_find?_eq_some hfind) range hrange
      omega
  obtain ⟨rest, hrest⟩ : ∃ rest, range.stop + 1 - range.start = rest + 1 := ⟨range.stop - range.start, by omega⟩
  rw [hrest, List.range'_succ, flatMap_cons]
  have hinside : ((List.range' (range.start + 1) rest).flatMap fun line =>
      standingLines lines operations line ++ insertedAt plan line) = [] := by
    rw [flatMap_eq_nil_iff]
    intro line hline
    rw [mem_range'_1] at hline
    rw [standingLines_of_cover hplan hrange ⟨by omega, by omega⟩, if_neg (by omega),
      hnothing line (by omega) (by omega), append_nil]
  rw [hinside, standingLines_of_cover hplan hrange ⟨le_refl _, hle⟩, if_pos rfl,
    hnothing range.start (le_refl _) hle, append_nil, append_nil]

/-- **Rebuild.** From a line that no range before it reaches, the loop gives what stands for each
line and what is inserted behind it. -/
theorem rebuild_eq (hplan : Ordered lines.length operations plan)
    (happart : ∀ gap ∈ plan.gaps, ∀ range ∈ plan.ranges,
      gap.gap + 1 < range.start ∨ range.stop < gap.gap) {rounds line : Nat} (hline : 1 ≤ line)
    (hrounds : lines.length + 1 - line ≤ rounds)
    (hbehind : ∀ range ∈ plan.ranges, range.start < line → range.stop < line) :
    rebuild lines plan rounds line
      = (List.range' line (lines.length + 1 - line)).flatMap fun line =>
        standingLines lines operations line ++ insertedAt plan line := by
  induction rounds generalizing line with
  | zero =>
    have hzero : lines.length + 1 - line = 0 := by omega
    rw [hzero]
    rfl
  | succ rounds ih =>
    unfold rebuild
    by_cases hend : lines.length < line
    · have hzero : lines.length + 1 - line = 0 := by omega
      rw [if_pos hend, hzero]
      rfl
    · rw [if_neg hend]
      cases hfind : plan.ranges.find? (·.start = line) with
      | some range =>
        have hrange := mem_of_find?_eq_some hfind
        obtain ⟨-, hle, hstop, -⟩ := hplan.within range hrange
        have hstart : range.start = line := by simpa using find?_some hfind
        have hsplit : lines.length + 1 - line
            = (range.stop + 1 - range.start) + (lines.length + 1 - (range.stop + 1)) := by omega
        have hnext : line + (range.stop + 1 - range.start) = range.stop + 1 := by omega
        rw [hsplit, ← range'_append_1, flatMap_append, hnext]
        conv_rhs => rw [← hstart]
        rw [covered_lines hplan happart hrange]
        dsimp only
        rw [ih (by omega) (by omega)]
        intro other hother hlt
        by_cases hsame : other = range
        · rw [hsame]
          omega
        · obtain ⟨-, hle', -, -⟩ := hplan.within other hother
          by_contra hreach
          have hcover : other.start ≤ range.stop ∧ range.stop ≤ other.stop := ⟨by omega, by omega⟩
          exact hsame (range_unique hplan hother hrange hcover ⟨hle, le_refl _⟩)
      | none =>
        have hfree : ∀ range ∈ plan.ranges, ¬ (range.start ≤ line ∧ line ≤ range.stop) := by
          intro range hrange hcover
          have hne : range.start ≠ line := by
            simpa using find?_eq_none.mp hfind range hrange
          have := hbehind range hrange (by omega)
          omega
        obtain ⟨rest, hrest⟩ : ∃ rest, lines.length + 1 - line = rest + 1 := ⟨lines.length - line, by omega⟩
        have hget : lines[line - 1]? = some (lines.getD (line - 1) []) := by
          rw [getElem?_eq_getElem (by omega), getD_eq_getElem _ _ (by omega)]
        rw [hrest, List.range'_succ, flatMap_cons, standingLines_of_free hplan hfree, hget]
        dsimp only
        rw [ih (by omega) (by omega)]
        · have hlength : lines.length + 1 - (line + 1) = rest := by omega
          rw [hlength]
          rfl
        · intro range hrange hlt
          have := hfree range hrange
          omega

/-- The result lines are the splice. -/
theorem resultLines_eq (hplan : Ordered lines.length operations plan)
    (happart : ∀ gap ∈ plan.gaps, ∀ range ∈ plan.ranges, gap.gap + 1 < range.start ∨ range.stop < gap.gap) :
    resultLines lines plan = spliced lines operations := by
  unfold resultLines spliced
  rw [rebuild_eq hplan happart (le_refl 1) (by omega) (by
    intro range hrange hlt
    have := (hplan.within range hrange).1
    omega)]
  simp only [insertedAt_eq hplan, Nat.add_sub_cancel]

end TsEpistle.LinePatch
