import TsEpistle.Library.JsString

/-! Code fences of Markdown (`shared/markdown-code-fence.ts`), read line by line and from the whole
text. A position in the text is what follows it. -/

namespace TsEpistle.Markdown
open Library List

/-! ## Lines -/

def isLineEnd (unit : UInt16) : Bool := unit = 10 || unit = 13

/-- A line break at the start of a text. -/
def lineEnding : JsString → JsString
  | 13 :: 10 :: _ => [13, 10]
  | 13 :: _ => [13]
  | 10 :: _ => [10]
  | _ => []

/-- A line: `text` lies between `start` and `end`, and `ending` between `end` and `next`. -/
structure MarkdownLine where
  (text ending : JsString)
  plain : ∀ unit ∈ text, isLineEnd unit = false
  broken : lineEnding ending = ending ∧ ending.takeWhile (!isLineEnd ·) = []

def MarkdownLine.raw (line : MarkdownLine) : JsString := line.text ++ line.ending

theorem lineEnding_cases (tail : JsString) : lineEnding tail = [13, 10] ∨ lineEnding tail = [13] ∨
    lineEnding tail = [10] ∨ lineEnding tail = [] := by
  unfold lineEnding
  split <;> simp

theorem lineEnding_broken (tail : JsString) :
    lineEnding (lineEnding tail) = lineEnding tail ∧ (lineEnding tail).takeWhile (!isLineEnd ·) = [] := by
  rcases lineEnding_cases tail with h | h | h | h <;> rw [h] <;> decide

/-- `markdownLineAt`. -/
def markdownLineAt (tail : JsString) : MarkdownLine where
  text := tail.takeWhile (!isLineEnd ·)
  ending := lineEnding (tail.dropWhile (!isLineEnd ·))
  plain := fun unit hunit => by simpa using mem_takeWhile_imp hunit
  broken := lineEnding_broken _

/-- What follows the first line. -/
def lineNext (tail : JsString) : JsString := tail.drop (markdownLineAt tail).raw.length

theorem lineEnding_prefix (tail : JsString) : lineEnding tail <+: tail := by
  unfold lineEnding
  split <;> simp

theorem raw_append_lineNext (tail : JsString) : (markdownLineAt tail).raw ++ lineNext tail = tail := by
  have hprefix : (markdownLineAt tail).raw <+: tail := by
    have hsplit := takeWhile_append_dropWhile (p := fun unit => !isLineEnd unit) (l := tail)
    obtain ⟨rest, hrest⟩ := lineEnding_prefix (tail.dropWhile (!isLineEnd ·))
    refine ⟨rest, ?_⟩
    rw [MarkdownLine.raw, append_assoc, markdownLineAt]
    dsimp only
    rw [hrest, hsplit]
  exact prefix_iff_eq_append.mp hprefix

/-- A line takes something of a text that is not empty. -/
theorem raw_ne_nil {tail : JsString} (h : tail ≠ []) : (markdownLineAt tail).raw ≠ [] := by
  cases tail with
  | nil => exact absurd rfl h
  | cons unit rest =>
    by_cases hunit : isLineEnd unit = true
    · have hdrop : (unit :: rest).dropWhile (!isLineEnd ·) = unit :: rest := by simp [hunit]
      have hending : lineEnding (unit :: rest) ≠ [] := by
        simp only [isLineEnd, Bool.or_eq_true, decide_eq_true_eq] at hunit
        rcases hunit with rfl | rfl
        · simp [lineEnding]
        · unfold lineEnding
          split <;> simp_all
      rw [MarkdownLine.raw, markdownLineAt]
      dsimp only
      rw [hdrop]
      simp [hending]
    · simp [MarkdownLine.raw, markdownLineAt, hunit]

theorem length_lineNext_lt {tail : JsString} (h : tail ≠ []) : (lineNext tail).length < tail.length := by
  have hlength := congrArg List.length (raw_append_lineNext tail)
  have hpos := length_pos_iff.mpr (raw_ne_nil h)
  rw [length_append] at hlength
  omega

/-- The line of a line. -/
theorem markdownLineAt_raw (line : MarkdownLine) : markdownLineAt line.raw = line := by
  have htext : ∀ unit ∈ line.text, (!isLineEnd unit) = true := by
    intro unit hunit
    simp [line.plain unit hunit]
  have hdrop : line.ending.dropWhile (!isLineEnd ·) = line.ending := by
    have hsplit := takeWhile_append_dropWhile (p := fun unit => !isLineEnd unit)
      (l := line.ending)
    rwa [line.broken.2, nil_append] at hsplit
  cases line with
  | mk text ending plain broken =>
    simp only [MarkdownLine.raw, markdownLineAt, MarkdownLine.mk.injEq]
    constructor
    · rw [takeWhile_append_of_pos htext, broken.2, append_nil]
    · rw [dropWhile_append_of_pos htext, hdrop, broken.1]

/-- All lines of a text. -/
def markdownLines (tail : JsString) : List MarkdownLine :=
  if tail = [] then [] else markdownLineAt tail :: markdownLines (lineNext tail)
termination_by tail.length
decreasing_by exact length_lineNext_lt ‹_›

theorem markdownLines_raw (source : JsString) : ((markdownLines source).map MarkdownLine.raw).flatten = source := by
  fun_induction markdownLines source with
  | case1 => rfl
  | case2 tail h ih =>
    rw [map_cons, flatten_cons, ih]
    exact raw_append_lineNext tail

/-! ## Fences -/

inductive FenceMarker
  | backtick
  | tilde
  deriving DecidableEq, Repr

def FenceMarker.unit : FenceMarker → UInt16
  | backtick => 96
  | tilde => 126

def FenceMarker.ofUnit (unit : UInt16) : Option FenceMarker :=
  if unit = 96 then some backtick else if unit = 126 then some tilde else none

/-- The text behind the indentation; `none` where it is too deep. -/
def skipIndentation : Nat → JsString → Option JsString
  | _, [] => some []
  | indentation, unit :: rest =>
    if unit = 32 then
      if 3 < indentation + 1 then none else skipIndentation (indentation + 1) rest
    else if unit = 9 then
      let deeper := indentation + (4 - indentation % 4)
      if 3 < deeper then none else skipIndentation deeper rest
    else some (unit :: rest)

structure FenceOpening where
  marker : FenceMarker
  markerLength : Nat
  rest : JsString

/-- `fenceMarkerAt`, on the text of the line. -/
def fenceMarkerAt (text : JsString) : Option FenceOpening :=
  match skipIndentation 0 text with
  | none => none
  | some tail =>
    match tail.head?.bind FenceMarker.ofUnit with
    | none => none
    | some marker =>
      let markerLength := (tail.takeWhile (· = marker.unit)).length
      if 3 ≤ markerLength then some ⟨marker, markerLength, tail.dropWhile (· = marker.unit)⟩
      else none

def isClosingFence (text : JsString) (marker : FenceMarker) (markerLength : Nat) : Bool :=
  match fenceMarkerAt text with
  | none => false
  | some candidate =>
    candidate.marker = marker && markerLength ≤ candidate.markerLength
      && candidate.rest.all fun unit => unit = 32 || unit = 9

structure MarkdownCodeFenceState where
  marker : FenceMarker
  markerLength : Nat
  deriving DecidableEq, Repr

def advanceMarkdownCodeFenceState (line : JsString) :
    Option MarkdownCodeFenceState → Option MarkdownCodeFenceState
  | some state =>
    if isClosingFence (markdownLineAt line).text state.marker state.markerLength then none
    else some state
  | none =>
    match fenceMarkerAt (markdownLineAt line).text with
    | none => none
    | some opening =>
      if opening.marker = .backtick && opening.rest.contains 96 then none
      else some ⟨opening.marker, opening.markerLength⟩

structure MarkdownCodeFence where
  marker : FenceMarker
  markerLength : Nat
  (info content : JsString)
  closed : Bool
  deriving DecidableEq, Repr

/-- The content up to the closing line, and what follows that line; `none` where there is no
closing line. -/
def fenceContent (marker : FenceMarker) (markerLength : Nat) (tail : JsString) :
    JsString × Option JsString :=
  if tail = [] then ([], none)
  else if isClosingFence (markdownLineAt tail).text marker markerLength then
    ([], some (lineNext tail))
  else
    let found := fenceContent marker markerLength (lineNext tail)
    ((markdownLineAt tail).raw ++ found.1, found.2)
termination_by tail.length
decreasing_by exact length_lineNext_lt ‹_›

theorem fenceContent_length (marker : FenceMarker) (markerLength : Nat) (tail : JsString) :
    ∀ next, (fenceContent marker markerLength tail).2 = some next → next.length ≤ tail.length := by
  fun_induction fenceContent marker markerLength tail with
  | case1 => simp
  | case2 tail h hclosing =>
    intro next hnext
    cases hnext
    exact (length_lineNext_lt h).le
  | case3 tail h hclosing found ih =>
    intro next hnext
    exact (ih next hnext).trans (length_lineNext_lt h).le

/-- The fence of an opening line, and what follows it. -/
def openFence (opening : FenceOpening) (tail : JsString) : MarkdownCodeFence × Option JsString :=
  let found := fenceContent opening.marker opening.markerLength tail
  (⟨opening.marker, opening.markerLength, opening.rest, found.1, found.2.isSome⟩, found.2)

/-- The opening of a line outside of fences. -/
def fenceOpeningAt (text : JsString) : Option FenceOpening :=
  (fenceMarkerAt text).filter fun opening =>
    !(opening.marker = .backtick && opening.rest.contains 96)

def parseMarkdownCodeFences (tail : JsString) : List MarkdownCodeFence :=
  if _h : tail = [] then []
  else
    match fenceOpeningAt (markdownLineAt tail).text with
    | none => parseMarkdownCodeFences (lineNext tail)
    | some opening =>
      let fence := (openFence opening (lineNext tail)).1
      match _hnext : (openFence opening (lineNext tail)).2 with
      | none => [fence]
      | some next => fence :: parseMarkdownCodeFences next
termination_by tail.length
decreasing_by
  · exact length_lineNext_lt _h
  · have hle := fenceContent_length opening.marker opening.markerLength (lineNext tail) next _hnext
    have hlt := length_lineNext_lt _h
    omega

/-! ## Both parsers -/

def MarkdownCodeFence.state (fence : MarkdownCodeFence) : MarkdownCodeFenceState :=
  ⟨fence.marker, fence.markerLength⟩

/-- The state after each line. -/
def fenceStates : Option MarkdownCodeFenceState → List JsString →
    List (Option MarkdownCodeFenceState)
  | _, [] => []
  | state, line :: lines =>
    advanceMarkdownCodeFenceState line state ::
      fenceStates (advanceMarkdownCodeFenceState line state) lines

def rawText (lines : List MarkdownLine) : JsString := (lines.map MarkdownLine.raw).flatten

/-- How fences lie in the lines of a text: the state is that of a fence from its opening line up
to its closing line, or up to the end, and `none` on all other lines; the content of the fence is
the text between the two lines. -/
inductive FenceLayout : List MarkdownLine → List (Option MarkdownCodeFenceState) →
    List MarkdownCodeFence → Prop
  | finish : FenceLayout [] [] []
  | outside (line : MarkdownLine) {lines : List MarkdownLine}
      {states : List (Option MarkdownCodeFenceState)} {fences : List MarkdownCodeFence}
      (rest : FenceLayout lines states fences) :
      FenceLayout (line :: lines) (none :: states) fences
  | closed (opening closing : MarkdownLine) (body : List MarkdownLine) (fence : MarkdownCodeFence)
      {lines : List MarkdownLine} {states : List (Option MarkdownCodeFenceState)}
      {fences : List MarkdownCodeFence} (isClosed : fence.closed = true)
      (content : fence.content = rawText body) (rest : FenceLayout lines states fences) :
      FenceLayout (opening :: (body ++ closing :: lines))
        (some fence.state :: (List.replicate body.length (some fence.state) ++ none :: states))
        (fence :: fences)
  | unclosed (opening : MarkdownLine) (body : List MarkdownLine) (fence : MarkdownCodeFence)
      (isOpen : fence.closed = false) (content : fence.content = rawText body) :
      FenceLayout (opening :: body)
        (some fence.state :: List.replicate body.length (some fence.state)) [fence]

variable {marker : FenceMarker} {markerLength : Nat}

theorem markdownLines_cons {tail : JsString} (h : tail ≠ []) :
    markdownLines tail = markdownLineAt tail :: markdownLines (lineNext tail) := by
  rw [markdownLines, if_neg h]

theorem advance_raw (line : MarkdownLine) (state : Option MarkdownCodeFenceState) :
    advanceMarkdownCodeFenceState line.raw state =
      match state with
      | some state =>
        if isClosingFence line.text state.marker state.markerLength then none else some state
      | none => (fenceOpeningAt line.text).map fun opening => ⟨opening.marker, opening.markerLength⟩ := by
  cases state with
  | some state => simp only [advanceMarkdownCodeFenceState, markdownLineAt_raw]
  | none =>
    simp only [advanceMarkdownCodeFenceState, markdownLineAt_raw, fenceOpeningAt]
    cases fenceMarkerAt line.text with
    | none => rfl
    | some opening =>
      by_cases hmarker : opening.marker = .backtick
      · by_cases hinfo : 96 ∈ opening.rest
        · simp [Option.filter, hmarker, hinfo]
        · simp [Option.filter, hmarker, hinfo]
      · simp [Option.filter, hmarker]

/-- A fence that nothing closes goes on to the end. -/
theorem fenceContent_open {tail : JsString}
    (h : (fenceContent marker markerLength tail).2 = none) :
    (fenceContent marker markerLength tail).1 = rawText (markdownLines tail) ∧
      fenceStates (some ⟨marker, markerLength⟩) ((markdownLines tail).map MarkdownLine.raw)
        = List.replicate (markdownLines tail).length (some ⟨marker, markerLength⟩) := by
  fun_induction fenceContent marker markerLength tail with
  | case1 => simp [markdownLines, rawText, fenceStates]
  | case2 tail hne hclosing => cases h
  | case3 tail hne hclosing found ih =>
    obtain ⟨hcontent, hstates⟩ := ih h
    rw [markdownLines_cons hne]
    constructor
    · rw [hcontent]
      rfl
    · have hadvance : advanceMarkdownCodeFenceState (markdownLineAt tail).raw
          (some ⟨marker, markerLength⟩) = some ⟨marker, markerLength⟩ := by
        rw [advance_raw]
        exact if_neg hclosing
      rw [map_cons, fenceStates, hadvance, hstates]
      rfl

/-- A fence that is closed goes on to its closing line. -/
theorem fenceContent_closed {tail next : JsString}
    (h : (fenceContent marker markerLength tail).2 = some next) :
    ∃ body closing, markdownLines tail = body ++ closing :: markdownLines next ∧
      (fenceContent marker markerLength tail).1 = rawText body ∧
      fenceStates (some ⟨marker, markerLength⟩) ((markdownLines tail).map MarkdownLine.raw)
        = List.replicate body.length (some ⟨marker, markerLength⟩) ++ none ::
          fenceStates none ((markdownLines next).map MarkdownLine.raw) := by
  fun_induction fenceContent marker markerLength tail with
  | case1 => cases h
  | case2 tail hne hclosing =>
    cases h
    refine ⟨[], markdownLineAt tail, markdownLines_cons hne, rfl, ?_⟩
    have hadvance : advanceMarkdownCodeFenceState (markdownLineAt tail).raw
        (some ⟨marker, markerLength⟩) = none := by
      rw [advance_raw]
      exact if_pos hclosing
    rw [markdownLines_cons hne, map_cons, fenceStates, hadvance]
    rfl
  | case3 tail hne hclosing found ih =>
    obtain ⟨body, closing, hlines, hcontent, hstates⟩ := ih h
    refine ⟨markdownLineAt tail :: body, closing, ?_, ?_, ?_⟩
    · rw [markdownLines_cons hne, hlines]
      rfl
    · rw [hcontent]
      rfl
    · have hadvance : advanceMarkdownCodeFenceState (markdownLineAt tail).raw
          (some ⟨marker, markerLength⟩) = some ⟨marker, markerLength⟩ := by
        rw [advance_raw]
        exact if_neg hclosing
      rw [markdownLines_cons hne, map_cons, fenceStates, hadvance, hstates]
      rfl

/-- **Agreement.** The states that the incremental parser has after each line are those of the
fences that the parser of the whole text reports, whose contents lie between their lines. -/
theorem fence_parsers_agree (source : JsString) : FenceLayout (markdownLines source)
    (fenceStates none ((markdownLines source).map MarkdownLine.raw)) (parseMarkdownCodeFences source) ∧
    rawText (markdownLines source) = source := by
  refine ⟨?_, markdownLines_raw source⟩
  fun_induction parseMarkdownCodeFences source with
  | case1 =>
    rw [markdownLines, if_pos rfl]
    exact .finish
  | case2 tail hne hopening ih =>
    have hadvance : advanceMarkdownCodeFenceState (markdownLineAt tail).raw none = none := by
      rw [advance_raw]
      simp [hopening]
    rw [markdownLines_cons hne, map_cons, fenceStates, hadvance]
    exact .outside _ ih
  | case3 tail hne opening hopening fence hnext =>
    have hadvance : advanceMarkdownCodeFenceState (markdownLineAt tail).raw none
        = some fence.state := by
      rw [advance_raw]
      simp [hopening, fence, openFence, MarkdownCodeFence.state]
    obtain ⟨hcontent, hstates⟩ := fenceContent_open hnext
    rw [markdownLines_cons hne, map_cons, fenceStates, hadvance]
    change FenceLayout _ (some fence.state :: fenceStates (some fence.state) _) _
    have hclosed : fence.closed = false := by
      change (openFence opening (lineNext tail)).2.isSome = false
      rw [hnext]
      rfl
    rw [show fenceStates (some fence.state) _ = _ from hstates]
    exact .unclosed _ _ fence hclosed hcontent
  | case4 tail hne opening hopening fence next hnext ih =>
    have hadvance : advanceMarkdownCodeFenceState (markdownLineAt tail).raw none
        = some fence.state := by
      rw [advance_raw]
      simp [hopening, fence, openFence, MarkdownCodeFence.state]
    obtain ⟨body, closing, hlines, hcontent, hstates⟩ := fenceContent_closed hnext
    have hclosed : fence.closed = true := by
      change (openFence opening (lineNext tail)).2.isSome = true
      rw [hnext]
      rfl
    rw [markdownLines_cons hne, map_cons, fenceStates, hadvance]
    rw [show fenceStates (some fence.state) _ = _ from hstates, hlines]
    exact .closed _ closing body fence hclosed hcontent ih

end TsEpistle.Markdown
