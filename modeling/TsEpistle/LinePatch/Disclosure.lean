import TsEpistle.LinePatch.Patching
import TsEpistle.LinePatch.Bytes

/-! What the tokens of a chain of snapshots disclose, and what a patch may touch with them. -/

namespace TsEpistle.LinePatch
open Library Checked List

variable {env : Environment}

/-! ## Ranges -/

/-- Ranges in order that neither meet nor follow each other. -/
structure Separated (ranges : List DisclosedLineRange) : Prop where
  valid : ∀ range ∈ ranges, 1 ≤ range.startLine ∧ range.startLine ≤ range.endLine
  apart : ranges.Pairwise fun first second => first.endLine + 1 < second.startLine

variable {ranges : List DisclosedLineRange}

theorem lineIsDisclosed_iff {line : Nat} :
    lineIsDisclosed line ranges = true ↔ ∃ range ∈ ranges, range.startLine ≤ line ∧ line ≤ range.endLine := by
  simp [lineIsDisclosed]

variable {range : DisclosedLineRange}

theorem lineIsDisclosed_cons {line : Nat} : lineIsDisclosed line (range :: ranges) = true ↔
    (range.startLine ≤ line ∧ line ≤ range.endLine) ∨ lineIsDisclosed line ranges = true := by
  simp [lineIsDisclosed_iff]

theorem Separated.tail (h : Separated (range :: ranges)) : Separated ranges :=
  ⟨fun other hother => h.valid other (mem_cons_of_mem _ hother), h.apart.of_cons⟩

/-- The first range lies before all lines of the others. -/
theorem Separated.head_lt (h : Separated (range :: ranges)) {line : Nat} (hline : lineIsDisclosed line ranges = true) :
    range.endLine + 1 < line := by
  obtain ⟨other, hother, hstart, -⟩ := lineIsDisclosed_iff.mp hline
  have := rel_of_pairwise_cons h.apart hother
  omega

/-- One round: a range that starts no earlier than those before is taken in. -/
theorem Separated.addRange {normalized : List DisclosedLineRange} (h : Separated normalized)
    (hrange : 1 ≤ range.startLine ∧ range.startLine ≤ range.endLine)
    (hbehind : ∀ other ∈ normalized, other.startLine ≤ range.startLine) :
    Separated (addRange normalized range) ∧
      (∀ line, lineIsDisclosed line (addRange normalized range) = true
        ↔ lineIsDisclosed line normalized = true ∨ (range.startLine ≤ line ∧ line ≤ range.endLine)) ∧
      ∀ other ∈ addRange normalized range, other.startLine ≤ range.startLine := by
  rcases eq_nil_or_concat' normalized with rfl | ⟨init, last, rfl⟩
  · have hadd : LinePatch.addRange [] range = [range] := rfl
    rw [hadd]
    refine ⟨⟨?_, pairwise_singleton _ _⟩, ?_, ?_⟩
    · simpa using hrange
    · simp [lineIsDisclosed_iff]
    · simp
  · have hlast := h.valid last (by simp)
    have hbehindLast := hbehind last (by simp)
    have hinit : ∀ other ∈ init, other.endLine + 1 < last.startLine := by
      intro other hother
      exact (pairwise_append.mp h.apart).2.2 other hother last (mem_singleton_self _)
    have hvalidInit : ∀ other ∈ init, 1 ≤ other.startLine ∧ other.startLine ≤ other.endLine :=
      fun other hother => h.valid other (by simp [hother])
    have hapartInit := (pairwise_append.mp h.apart).1
    unfold LinePatch.addRange
    simp only [getLast?_append, getLast?_singleton, Option.some_or, dropLast_concat]
    split
    next hmeet =>
      refine ⟨⟨?_, ?_⟩, ?_, ?_⟩
      · refine forall_mem_append.mpr ⟨hvalidInit, forall_mem_singleton.mpr ?_⟩
        dsimp only
        omega
      · refine pairwise_append.mpr ⟨hapartInit, pairwise_singleton _ _, ?_⟩
        intro other hother merged hmerged
        obtain rfl := mem_singleton.mp hmerged
        exact hinit other hother
      · intro line
        simp only [lineIsDisclosed, any_append, any_cons, any_nil, Bool.or_false,
          Bool.or_eq_true, Bool.and_eq_true, decide_eq_true_eq]
        rw [or_assoc]
        refine or_congr_right ?_
        omega
      · intro other hother
        rcases mem_append.mp hother with hother | hother
        · exact hbehind other (mem_append_left _ hother)
        · obtain rfl := mem_singleton.mp hother
          exact hbehindLast
    next hapart =>
      refine ⟨⟨?_, ?_⟩, ?_, ?_⟩
      · exact forall_mem_append.mpr ⟨h.valid, forall_mem_singleton.mpr hrange⟩
      · refine pairwise_append.mpr ⟨h.apart, pairwise_singleton _ _, ?_⟩
        intro other hother added hadded
        obtain rfl := mem_singleton.mp hadded
        rcases mem_append.mp hother with hother | hother
        · have := hinit other hother
          omega
        · obtain rfl := mem_singleton.mp hother
          omega
      · intro line
        simp only [lineIsDisclosed, any_append, any_cons, any_nil, Bool.or_false,
          Bool.or_eq_true, Bool.and_eq_true, decide_eq_true_eq]
      · exact forall_mem_append.mpr ⟨hbehind, forall_mem_singleton.mpr (le_refl _)⟩

theorem Separated.foldl_addRange {ranges normalized : List DisclosedLineRange} (h : Separated normalized)
    (hranges : ∀ range ∈ ranges, 1 ≤ range.startLine ∧ range.startLine ≤ range.endLine)
    (hsorted : ranges.Pairwise fun first second => first.startLine ≤ second.startLine)
    (hbehind : ∀ other ∈ normalized, ∀ range ∈ ranges, other.startLine ≤ range.startLine) :
    Separated (ranges.foldl LinePatch.addRange normalized) ∧ ∀ line,
    lineIsDisclosed line (ranges.foldl LinePatch.addRange normalized) = true ↔ lineIsDisclosed line normalized = true ∨
    lineIsDisclosed line ranges = true := by
  induction ranges generalizing normalized with
  | nil => exact ⟨h, fun line => by simp [lineIsDisclosed]⟩
  | cons range ranges ih =>
    rw [forall_mem_cons] at hranges
    rw [pairwise_cons] at hsorted
    obtain ⟨hadded, hcovered, hstarts⟩ := h.addRange hranges.1
      fun other hother => hbehind other hother range mem_cons_self
    obtain ⟨hall, hcoveredAll⟩ := ih hadded hranges.2 hsorted.2 fun other hother next hnext =>
      le_trans (hstarts other hother) (hsorted.1 next hnext)
    refine ⟨hall, fun line => ?_⟩
    rw [foldl_cons, hcoveredAll, hcovered, lineIsDisclosed_cons, or_assoc]

theorem rangeLe_startLine {first second : DisclosedLineRange} (h : rangeLe first second) :
    first.startLine ≤ second.startLine := by
  unfold rangeLe at h
  omega

instance : Std.Total rangeLe where
  total first second := by
    unfold rangeLe
    omega

instance : IsTrans DisclosedLineRange rangeLe where
  trans first second third h h' := by
    unfold rangeLe at *
    omega

theorem mergeRanges_ok (hranges : ∀ range ∈ ranges, 1 ≤ range.startLine ∧ range.startLine ≤ range.endLine) :
    Separated (mergeRanges ranges) ∧ ∀ line, lineIsDisclosed line (mergeRanges ranges) = true ↔
    lineIsDisclosed line ranges = true := by
  have hsorted : (ranges.insertionSort rangeLe).Pairwise
      fun first second => first.startLine ≤ second.startLine :=
    (pairwise_insertionSort rangeLe ranges).imp rangeLe_startLine
  obtain ⟨hseparated, hcovered⟩ := Separated.foldl_addRange
    (show Separated [] from ⟨by simp, Pairwise.nil⟩)
    (fun range hrange => hranges range ((mem_insertionSort rangeLe).mp hrange)) hsorted (by simp)
  refine ⟨hseparated, fun line => ?_⟩
  rw [mergeRanges, hcovered, lineIsDisclosed_iff, lineIsDisclosed_iff]
  simp [lineIsDisclosed, mem_insertionSort]

/-- What the ranges of a token are: separated, and the union of the ranges that were given. -/
theorem normalizeRanges_ok {ranges disclosed : List DisclosedLineRange} {lineCount : Nat}
    (h : normalizeRanges ranges lineCount = .ok disclosed) : Separated disclosed ∧
    (∀ line, lineIsDisclosed line disclosed = true ↔ lineIsDisclosed line ranges = true) ∧ ∀ line,
    lineIsDisclosed line disclosed = true → 1 ≤ line ∧ line ≤ lineCount := by
  unfold normalizeRanges at h
  split at h
  · split at h
    next hnil =>
      cases h
      subst hnil
      exact ⟨⟨by simp, Pairwise.nil⟩, by simp, by simp [lineIsDisclosed]⟩
    · cases h
  · split at h
    · cases h
    next hvalid =>
      split at h
      · cases h
      cases h
      simp only [validRange, Bool.not_eq_true', Bool.not_eq_false, all_eq_true,
        Bool.and_eq_true, decide_eq_true_eq] at hvalid
      obtain ⟨hseparated, hcovered⟩ := mergeRanges_ok fun range hrange => (hvalid range hrange).1
      refine ⟨hseparated, hcovered, fun line hline => ?_⟩
      obtain ⟨range, hrange, hstart, hend⟩ := lineIsDisclosed_iff.mp ((hcovered line).mp hline)
      have := hvalid range hrange
      omega

/-- **Uniqueness.** Separated ranges are told by their lines. -/
theorem Separated.unique {ranges ranges' : List DisclosedLineRange} (h : Separated ranges) (h' : Separated ranges')
    (hlines : ∀ line, lineIsDisclosed line ranges = true ↔ lineIsDisclosed line ranges' = true) : ranges = ranges' := by
  induction ranges generalizing ranges' with
  | nil =>
    cases ranges' with
    | nil => rfl
    | cons range' ranges' =>
      have hrange' := h'.valid range' mem_cons_self
      have := (hlines range'.startLine).mpr (lineIsDisclosed_cons.mpr (.inl ⟨le_refl _, hrange'.2⟩))
      simp [lineIsDisclosed] at this
  | cons range ranges ih =>
    have hrange := h.valid range mem_cons_self
    cases ranges' with
    | nil =>
      have := (hlines range.startLine).mp (lineIsDisclosed_cons.mpr (.inl ⟨le_refl _, hrange.2⟩))
      simp [lineIsDisclosed] at this
    | cons range' ranges' =>
      have hrange' := h'.valid range' mem_cons_self
      simp only [lineIsDisclosed_cons] at hlines
      have hbehind : ∀ line, lineIsDisclosed line ranges = true → range.endLine + 1 < line :=
        fun line hline => h.head_lt hline
      have hbehind' : ∀ line, lineIsDisclosed line ranges' = true → range'.endLine + 1 < line :=
        fun line hline => h'.head_lt hline
      -- the first lines, and the lines behind the first ranges, are on both sides
      have hstart := hlines range.startLine
      have hstart' := hlines range'.startLine
      have hnext := hlines (range.endLine + 1)
      have hnext' := hlines (range'.endLine + 1)
      have hb := hbehind (range'.endLine + 1)
      have hb' := hbehind' (range.endLine + 1)
      have hs := hbehind range'.startLine
      have hs' := hbehind' range.startLine
      have hb₀ := hbehind (range.endLine + 1)
      have hb₀' := hbehind' (range'.endLine + 1)
      have hstarts : range.startLine = range'.startLine := by
        have hle : range'.startLine ≤ range.startLine := by
          rcases hstart.mp (.inl ⟨le_refl _, hrange.2⟩) with hin | hin
          · exact hin.1
          · have := hs' hin
            omega
        have hge : range.startLine ≤ range'.startLine := by
          rcases hstart'.mpr (.inl ⟨le_refl _, hrange'.2⟩) with hin | hin
          · exact hin.1
          · have := hs hin
            omega
        omega
      have hends : range.endLine = range'.endLine := by
        by_contra hne
        rcases Nat.lt_or_gt_of_ne hne with hlt | hlt
        · rcases hnext.mpr (.inl ⟨by omega, by omega⟩) with hin | hin
          · omega
          · have := hb₀ hin
            omega
        · rcases hnext'.mp (.inl ⟨by omega, by omega⟩) with hin | hin
          · omega
          · have := hb₀' hin
            omega
      have hsame : range = range' := by
        cases range
        cases range'
        simp_all
      subst hsame
      rw [ih h.tail h'.tail fun line => ?_]
      constructor
      · intro hline
        rcases (hlines line).mp (.inr hline) with hin | hin
        · have := hbehind line hline
          omega
        · exact hin
      · intro hline
        rcases (hlines line).mpr (.inr hline) with hin | hin
        · have := hbehind' line hline
          omega
        · exact hin

/-! ## Snapshots -/

variable {source : ValidatedWikiMarkdownSource} {requests : List (List DisclosedLineRange)}
  {snapshot : WikiLineSnapshotV1}

/-- A line that some call asked for. -/
def Requested (requests : List (List DisclosedLineRange)) (line : Nat) : Prop :=
  ∃ request ∈ requests, lineIsDisclosed line request = true

/-- Calls over one source, each with the token of the one before. -/
inductive Chain (env : Environment) (source : ValidatedWikiMarkdownSource) :
    List (List DisclosedLineRange) → WikiLineSnapshotV1 → Prop
  | first {now : Int} {input : SnapshotInput} {snapshot : WikiLineSnapshotV1}
      (hprevious : input.previousSnapshotToken.getD [] = [])
      (hsource : validateWikiMarkdownSource env.sha256 input.source = .ok source)
      (hrun : issueWikiLineSnapshot env now input = .ok snapshot) :
      Chain env source [requestedRanges input source.lines.length] snapshot
  | next {requests : List (List DisclosedLineRange)} {now : Int} {input : SnapshotInput}
      {previous snapshot : WikiLineSnapshotV1} (h : Chain env source requests previous)
      (hprevious : input.previousSnapshotToken = some previous.snapshotToken)
      (hsource : validateWikiMarkdownSource env.sha256 input.source = .ok source)
      (hrun : issueWikiLineSnapshot env now input = .ok snapshot) :
      Chain env source (requests ++ [requestedRanges input source.lines.length]) snapshot

/-- What a chain leaves: separated ranges, the union of the requests, that the token was signed for
and whose lines the snapshot shows. -/
structure Accumulated (env : Environment) (source : ValidatedWikiMarkdownSource)
    (requests : List (List DisclosedLineRange)) (snapshot : WikiLineSnapshotV1)
    (disclosed : List DisclosedLineRange) : Prop where
  separated : Separated disclosed
  union : ∀ line, lineIsDisclosed line disclosed = true ↔ Requested requests line
  shown : snapshot.disclosed = disclosed.map (disclosedLines env source)
  signed : ∃ input expiresAtEpochMs secret, snapshot.snapshotToken
    = env.token (snapshotPayload env input source disclosed expiresAtEpochMs) secret

theorem token_ne_nil (payload : TokenPayload) (secret : List UInt8) : env.token payload secret ≠ [] := by
  have hprefix : js "v1." ≠ [] := by decide
  simp [Environment.token, hprefix]

theorem issueWikiLineSnapshot_ok {now : Int} {input : SnapshotInput}
    (hsource : validateWikiMarkdownSource env.sha256 input.source = .ok source)
    (h : issueWikiLineSnapshot env now input = .ok snapshot) :
    ∃ prior disclosed, priorRanges env now input source = .ok prior ∧
      normalizeRanges (prior ++ requestedRanges input source.lines.length) source.lines.length = .ok disclosed ∧
      snapshot.disclosed = disclosed.map (disclosedLines env source) ∧
      ∃ expiresAtEpochMs, snapshot.snapshotToken
        = env.token (snapshotPayload env input source disclosed expiresAtEpochMs)
          input.signingSecret := by
  obtain ⟨source', hsource', h⟩ := bind_ok h
  rw [hsource] at hsource'
  cases hsource'
  obtain ⟨prior, hprior, h⟩ := bind_ok h
  obtain ⟨disclosed, hdisclosed, h⟩ := bind_ok h
  dsimp only at h
  split at h
  · cases h
  obtain ⟨snapshotToken, htoken, h⟩ := bind_ok h
  cases h
  refine ⟨prior, disclosed, hprior, hdisclosed, rfl, ?_⟩
  unfold signToken at htoken
  split at htoken
  · cases htoken
  · cases htoken
    exact ⟨_, rfl⟩

variable {disclosed : List DisclosedLineRange}

/-- A token that passes tells what its snapshot disclosed. -/
theorem Accumulated.payload (h : Accumulated env source requests snapshot disclosed)
    (hfaithful : env.Faithful) {now : Int} {secret : List UInt8} {payload : TokenPayload}
    (hpayload : verifyTokenSignature env now snapshot.snapshotToken secret = .ok payload) :
    ∃ input expiresAtEpochMs, payload = snapshotPayload env input source disclosed expiresAtEpochMs := by
  obtain ⟨input, expiresAtEpochMs, signer, htoken⟩ := h.signed
  unfold verifyTokenSignature at hpayload
  split at hpayload
  · cases hpayload
  split at hpayload
  · cases hpayload
  · cases hpayload
  · cases hpayload
  next read hread =>
    rw [htoken] at hread
    split at hpayload
    · cases hpayload
    · cases hpayload
      exact ⟨input, expiresAtEpochMs, hfaithful _ _ _ _ hread⟩

theorem Chain.accumulated (hfaithful : env.Faithful) (h : Chain env source requests snapshot) :
    ∃ disclosed, Accumulated env source requests snapshot disclosed := by
  induction h with
  | @first now input snapshot hprevious hsource hrun =>
    obtain ⟨prior, disclosed, hprior, hdisclosed, hshown, expires, htoken⟩ := issueWikiLineSnapshot_ok hsource hrun
    have hnone : input.previousSnapshotToken.filter (· ≠ []) = none := by
      cases hgiven : input.previousSnapshotToken with
      | none => rfl
      | some token =>
        rw [hgiven, Option.getD_some] at hprevious
        simp [hprevious]
    unfold priorRanges at hprior
    rw [hnone] at hprior
    cases hprior
    obtain ⟨hseparated, hcovered, -⟩ := normalizeRanges_ok hdisclosed
    refine ⟨disclosed, hseparated, fun line => ?_, hshown, input, expires, _, htoken⟩
    rw [hcovered]
    simp [Requested]
  | @next requests now input previous snapshot h hprevious hsource hrun ih =>
    obtain ⟨before, hbefore⟩ := ih
    obtain ⟨prior, disclosed, hprior, hdisclosed, hshown, expires, htoken⟩ := issueWikiLineSnapshot_ok hsource hrun
    have hsome : input.previousSnapshotToken.filter (· ≠ []) = some previous.snapshotToken := by
      obtain ⟨_, _, _, hsigned⟩ := hbefore.signed
      have hne : previous.snapshotToken ≠ [] := hsigned ▸ token_ne_nil _ _
      simp [hprevious, hne]
    unfold priorRanges at hprior
    rw [hsome] at hprior
    obtain ⟨payload, hpayload, hprior⟩ := bind_ok hprior
    obtain ⟨-, -, hprior⟩ := bind_ok hprior
    cases hprior
    obtain ⟨_, _, rfl⟩ := hbefore.payload hfaithful hpayload
    obtain ⟨hseparated, hcovered, -⟩ := normalizeRanges_ok hdisclosed
    refine ⟨disclosed, hseparated, fun line => ?_, hshown, input, expires, _, htoken⟩
    have hunion := hbefore.union line
    have hprior : lineIsDisclosed line (before ++ requestedRanges input source.lines.length) = true
        ↔ lineIsDisclosed line before = true
          ∨ lineIsDisclosed line (requestedRanges input source.lines.length) = true := by
      simp [lineIsDisclosed]
    rw [hcovered]
    refine hprior.trans ?_
    rw [hunion]
    simp only [Requested, mem_append, mem_singleton, or_and_right, exists_or, exists_eq_left]

/-- The lines that a snapshot shows. -/
theorem shown_iff (h : Separated disclosed) {number : Nat} {text : JsString} :
    (∃ shown ∈ (disclosed.map (disclosedLines env source)).flatMap (·.lines),
        shown.number = number ∧ shown.text = text)
      ↔ lineIsDisclosed number disclosed = true ∧ source.lines[number - 1]? = some text := by
  constructor
  · rintro ⟨shown, hshown, rfl, rfl⟩
    obtain ⟨lines, hlines, hshown⟩ := mem_flatMap.mp hshown
    obtain ⟨range, hrange, rfl⟩ := mem_map.mp hlines
    obtain ⟨offset, hoffset, rfl⟩ := mem_mapIdx.mp hshown
    obtain ⟨hstart, -⟩ := h.valid range hrange
    have hlength : offset < min range.endLine source.lines.length - (range.startLine - 1) := by
      simpa using hoffset
    refine ⟨lineIsDisclosed_iff.mpr ⟨range, hrange, ?_, ?_⟩, ?_⟩
    · dsimp only
      omega
    · dsimp only
      omega
    · have hindex : range.startLine + offset - 1 = range.startLine - 1 + offset := by omega
      simp only [hindex, getElem_drop, getElem_take]
      exact getElem?_eq_getElem (by omega)
  · rintro ⟨hdisclosed, htext⟩
    obtain ⟨range, hrange, hstart, hend⟩ := lineIsDisclosed_iff.mp hdisclosed
    obtain ⟨hvalid, -⟩ := h.valid range hrange
    obtain ⟨hbound, htext⟩ := List.getElem?_eq_some_iff.mp htext
    refine ⟨⟨range.startLine + (number - range.startLine),
      lineTag env source.documentTag (range.startLine + (number - range.startLine)) text, text⟩, ?_,
      by dsimp only; omega, rfl⟩
    refine mem_flatMap.mpr ⟨_, mem_map.mpr ⟨range, hrange, rfl⟩, ?_⟩
    refine mem_mapIdx.mpr ⟨number - range.startLine, ?_, ?_⟩
    · rw [length_drop, length_take]
      omega
    · have hindex : range.startLine - 1 + (number - range.startLine) = number - 1 := by omega
      simp only [getElem_drop, getElem_take, hindex, htext]

/-! ## Patches -/

/-- An operation that replaces and deletes requested lines only, and goes in between them. -/
structure TouchesOnly (lineCount : Nat) (requested : Nat → Prop) (operation : PatchOperation) :
    Prop where
  range : ∀ range, operation.range = some range → ∀ line, range.start ≤ line → line ≤ range.stop → requested line
  gap : ∀ gap, operation.gap = some gap → ∀ line, line = gap.gap ∨ line = gap.gap + 1 → 1 ≤ line →
    line ≤ lineCount → requested line

theorem planRange_disclosed {plan plan' : PatchPlan} {start stop : LineAnchor} {lines : List JsString}
    (h : planRange env source disclosed plan start stop lines = .ok plan') (line : Nat) (hstart : start.line ≤ line)
    (hstop : line ≤ stop.line) : lineIsDisclosed line disclosed = true := by
  obtain ⟨range, hresolved, -⟩ := bind_ok h
  exact (resolveRange_ok hresolved).2.2.2 line hstart hstop

theorem planOperation_touches {plan plan' : PatchPlan} {operation : PatchOperation}
    (h : planOperation env source disclosed plan operation = .ok plan') :
    TouchesOnly source.lines.length (lineIsDisclosed · disclosed = true) operation := by
  cases operation with
  | insert after before lines =>
    obtain ⟨-, -, h⟩ := bind_ok h
    obtain ⟨gap, hresolved, -⟩ := bind_ok h
    obtain ⟨rfl, -, hneighbours⟩ := resolveGap_ok hresolved
    refine ⟨fun range hrange => (nomatch hrange), fun gap hgap => ?_⟩
    cases hgap
    exact hneighbours
  | replace | delete =>
    refine ⟨fun range hrange => ?_, fun gap hgap => (nomatch hgap)⟩
    cases hrange
    exact planRange_disclosed h

theorem planPatch_touches {plan : PatchPlan} {operations : List PatchOperation}
    (h : planPatch env source disclosed operations = .ok plan) :
    ∀ operation ∈ operations, TouchesOnly source.lines.length (lineIsDisclosed · disclosed = true) operation := by
  obtain ⟨plan', hplan, -⟩ := bind_ok h
  clear h
  revert hplan
  generalize (⟨[], [], -1⟩ : PatchPlan) = start
  intro hplan
  induction operations generalizing start with
  | nil => simp
  | cons operation operations ih =>
    rw [foldlM_cons] at hplan
    obtain ⟨mid, hmid, hplan⟩ := bind_ok hplan
    rw [forall_mem_cons]
    exact ⟨planOperation_touches hmid, ih mid hplan⟩

/-- Sources with one digest have the same lines, as the digest has no collisions. -/
theorem lines_of_digest (hinjective : Function.Injective env.sha256) {given given' : Source}
    {source' : ValidatedWikiMarkdownSource} (h : validateWikiMarkdownSource env.sha256 given = .ok source)
    (h' : validateWikiMarkdownSource env.sha256 given' = .ok source')
    (hdigest : source'.canonicalSha256 = source.canonicalSha256) : source'.lines = source.lines := by
  have hscalars : ∀ {given : Source} {source : ValidatedWikiMarkdownSource},
      validateWikiMarkdownSource env.sha256 given = .ok source →
      source.canonicalSha256 = env.sha256 (utf8 source.canonicalText) ∧
        source.lines = linesOf source.canonicalText ∧
        ∃ codes, Scalars source.canonicalText codes := by
    intro given source h
    obtain ⟨text, bytes, lineEnding, hdecode, -, rfl⟩ := validateWikiMarkdownSource_ok h
    obtain ⟨codes, hcodes⟩ := decodeSource_scalars hdecode
    refine ⟨rfl, rfl, ?_⟩
    cases lineEnding with
    | lf => exact ⟨codes, hcodes⟩
    | crlf => exact hcodes.unixLines
  obtain ⟨hsha, hlines, codes, hcodes⟩ := hscalars h
  obtain ⟨hsha', hlines', codes', hcodes'⟩ := hscalars h'
  rw [hsha, hsha'] at hdigest
  rw [hlines, hlines', utf8_inj hcodes' hcodes (hinjective hdigest)]

theorem Chain.validated (h : Chain env source requests snapshot) :
    ∃ given, validateWikiMarkdownSource env.sha256 given = .ok source := by
  cases h with
  | first _ hsource _ => exact ⟨_, hsource⟩
  | next _ _ hsource _ => exact ⟨_, hsource⟩

/-- **Disclosure.** The last token of a chain discloses the union of the requests, in ranges that
the union alone tells, its snapshot shows just these lines, and a patch with this token touches only
them. The patch is about the lines of the snapshots, as the digest has no collisions. -/
theorem disclosure_exact (hfaithful : env.Faithful) (h : Chain env source requests snapshot) :
    ∃ disclosed, Separated disclosed ∧
      (∀ line, lineIsDisclosed line disclosed = true ↔ Requested requests line) ∧
      (∀ now secret payload, verifyTokenSignature env now snapshot.snapshotToken secret = .ok payload →
        payload.disclosed = disclosed) ∧
      (∀ requests' snapshot', Chain env source requests' snapshot' →
        (∀ line, Requested requests' line ↔ Requested requests line) →
        snapshot'.disclosed = snapshot.disclosed ∧
          ∀ now secret payload, verifyTokenSignature env now snapshot'.snapshotToken secret
            = .ok payload → payload.disclosed = disclosed) ∧
      (∀ number text, (∃ shown ∈ snapshot.disclosed.flatMap (·.lines),
          shown.number = number ∧ shown.text = text)
        ↔ Requested requests number ∧ source.lines[number - 1]? = some text) ∧
      ∀ now input result, input.patch.snapshotToken = snapshot.snapshotToken →
        applyWikiLinePatch env now input = .ok result →
        ∃ patched, validateWikiMarkdownSource env.sha256 input.source = .ok patched ∧
          (Function.Injective env.sha256 → patched.lines = source.lines) ∧
          ∀ operation ∈ input.patch.operations, TouchesOnly patched.lines.length (Requested requests) operation := by
  obtain ⟨disclosed, haccumulated⟩ := h.accumulated hfaithful
  have htold : ∀ now secret payload, verifyTokenSignature env now snapshot.snapshotToken secret
      = .ok payload → payload.disclosed = disclosed := by
    intro now secret payload hpayload
    obtain ⟨_, _, rfl⟩ := haccumulated.payload hfaithful hpayload
    rfl
  refine ⟨disclosed, haccumulated.separated, haccumulated.union, htold, ?_, ?_, ?_⟩
  · intro requests' snapshot' h' hsame
    obtain ⟨disclosed', haccumulated'⟩ := h'.accumulated hfaithful
    have hunique : disclosed' = disclosed := by
      refine haccumulated'.separated.unique haccumulated.separated fun line => ?_
      rw [haccumulated'.union, haccumulated.union, hsame]
    subst hunique
    refine ⟨haccumulated'.shown.trans haccumulated.shown.symm, ?_⟩
    intro now secret payload hpayload
    obtain ⟨_, _, rfl⟩ := haccumulated'.payload hfaithful hpayload
    rfl
  · intro number text
    rw [haccumulated.shown, shown_iff haccumulated.separated, haccumulated.union]
  · intro now input result htoken hrun
    unfold applyWikiLinePatch at hrun
    split at hrun
    · cases hrun
    obtain ⟨patched, hpatched, hrun⟩ := bind_ok hrun
    obtain ⟨payload, hpayload, hrun⟩ := bind_ok hrun
    obtain ⟨⟨⟩, hcontext, hrun⟩ := bind_ok hrun
    split at hrun
    · cases hrun
    obtain ⟨plan, hplan, -⟩ := bind_ok hrun
    rw [htoken] at hpayload
    have hdisclosed := htold _ _ _ hpayload
    obtain ⟨_, _, rfl⟩ := haccumulated.payload hfaithful hpayload
    refine ⟨patched, hpatched, ?_, ?_⟩
    · intro hinjective
      obtain ⟨given, hgiven⟩ := h.validated
      refine lines_of_digest hinjective hgiven hpatched ?_
      unfold verifyTokenContext at hcontext
      split at hcontext
      · cases hcontext
      next hsame =>
        simp only [Bool.or_eq_true, decide_eq_true_eq, not_or, not_not] at hsame
        exact hsame.1.1.1.1.2.symm
    · intro operation hoperation
      have htouches := planPatch_touches hplan operation hoperation
      rw [hdisclosed] at htouches
      exact ⟨fun range hrange line hstart hstop =>
          (haccumulated.union line).mp (htouches.range range hrange line hstart hstop),
        fun gap hgap line hline hone hcount =>
          (haccumulated.union line).mp (htouches.gap gap hgap line hline hone hcount)⟩

/-! ## An example -/

/-- The token of a snapshot of three lines. -/
def chainPayload (disclosed : List DisclosedLineRange) : TokenPayload :=
  { examplePayload "a\nb\nc\n" 3 with
    disclosed, disclosedRangesSha256 := exampleSha256 (utf8 (rangesJson disclosed)) }

/-- An environment with the tokens of a chain of two calls. -/
def chainEnvironment : Environment where
  sha256 := exampleSha256
  sign payload _ :=
    if payload = chainPayload [⟨3, 3⟩] then js "a.s"
    else if payload = chainPayload [⟨1, 1⟩, ⟨3, 3⟩] then js "b.s" else []
  readToken token _ :=
    if token = js "v1.a.s" then .ok (chainPayload [⟨3, 3⟩])
    else if token = js "v1.b.s" then .ok (chainPayload [⟨1, 1⟩, ⟨3, 3⟩]) else .error .signature

theorem chainEnvironment_faithful : chainEnvironment.Faithful := by
  intro payload secret secret' payload' h
  have hfirst : js "v1." ++ js "a.s" = js "v1.a.s" := by decide
  have hsecond : js "v1." ++ js "b.s" = js "v1.b.s" := by decide
  have hne : js "v1.b.s" ≠ js "v1.a.s" := by decide
  have hother : js "v1." ≠ js "v1.a.s" ∧ js "v1." ≠ js "v1.b.s" := by decide
  simp only [Environment.token, chainEnvironment] at h
  split_ifs at h <;> simp_all

def chainInput (range : DisclosedLineRange) (previous : Option JsString) : SnapshotInput where
  page := ⟨1, js "en", js "home"⟩
  sourceRevision := js "1"
  source := .text (js "a\nb\nc\n")
  requesterScope := js "user"
  signingSecret := List.replicate 32 7
  requestedRanges := some [range]
  previousSnapshotToken := previous
  ttlMs := none

def chainSource : ValidatedWikiMarkdownSource := exampleSource "a\nb\nc\n"

def chainSnapshot (disclosed : List DisclosedLineRange) (token : JsString) : WikiLineSnapshotV1 where
  page := ⟨1, js "en", js "home"⟩
  sourceRevision := js "1"
  rawSha256 := chainSource.rawSha256
  canonicalSha256 := chainSource.canonicalSha256
  documentTag := exampleTag
  lineEnding := .lf
  finalNewline := true
  disclosed := disclosed.map (disclosedLines chainEnvironment chainSource)
  snapshotToken := token
  expiresAtEpochMs := 300000
  warnings := []

def chainPatch : PatchInput where
  pageId := 1
  sourceRevision := js "1"
  source := .text (js "a\nb\nc\n")
  requesterScope := js "user"
  signingSecret := List.replicate 32 7
  patch := ⟨js "v1.b.s", exampleTag, true, [.delete (exampleAnchor 1) (exampleAnchor 1)]⟩

/-- Line 3 and then line 1 of three lines: a patch with the second token may delete line 1. -/
theorem disclosure_exact_example :
    let snapshot := chainSnapshot [⟨1, 1⟩, ⟨3, 3⟩] (js "v1.b.s")
    Chain chainEnvironment chainSource [[⟨3, 3⟩], [⟨1, 1⟩]] snapshot ∧
      (applyWikiLinePatch chainEnvironment 0 chainPatch).isOk = true ∧
      ∃ disclosed, (∀ line, lineIsDisclosed line disclosed = true ↔ Requested [[⟨3, 3⟩], [⟨1, 1⟩]] line) := by
  intro snapshot
  have hsource : validateWikiMarkdownSource chainEnvironment.sha256 (.text (js "a\nb\nc\n")) = .ok chainSource := by rfl
  have hfirst : issueWikiLineSnapshot chainEnvironment 0 (chainInput ⟨3, 3⟩ none)
      = .ok (chainSnapshot [⟨3, 3⟩] (js "v1.a.s")) := by decide
  have hsecond : issueWikiLineSnapshot chainEnvironment 0 (chainInput ⟨1, 1⟩ (some (js "v1.a.s")))
      = .ok (chainSnapshot [⟨1, 1⟩, ⟨3, 3⟩] (js "v1.b.s")) := by decide
  have hchain : Chain chainEnvironment chainSource [[⟨3, 3⟩], [⟨1, 1⟩]] snapshot :=
    (Chain.first rfl hsource hfirst).next rfl hsource hsecond
  obtain ⟨disclosed, -, hunion, -⟩ := disclosure_exact chainEnvironment_faithful hchain
  exact ⟨hchain, by decide, disclosed, hunion⟩

end TsEpistle.LinePatch
