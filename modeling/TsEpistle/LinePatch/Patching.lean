import TsEpistle.LinePatch.Results

/-! The splice that `applyWikiLinePatch` answers. -/

namespace TsEpistle.LinePatch
open Library Checked

variable {env : Environment} {source : ValidatedWikiMarkdownSource} {now : Int} {input : PatchInput}

/-- What a patch that was accepted has passed. -/
structure Accepted (env : Environment) (now : Int) (input : PatchInput)
    (source : ValidatedWikiMarkdownSource) (result : WikiLinePatchResult) (token : TokenPayload)
    (plan : PatchPlan) : Prop where
  schema : validPatch input.patch = true
  verified : verifyTokenSignature env now input.patch.snapshotToken input.signingSecret = .ok token
  planned : planPatch env source token.disclosed input.patch.operations = .ok plan
  validated : validateWikiMarkdownSource env.sha256 (.text (restoredResult source.lineEnding
    (canonicalResult (resultLines source.lines plan) input.patch.resultFinalNewline))) = .ok result.source

theorem applyWikiLinePatch_ok (h : validateWikiMarkdownSource env.sha256 input.source = .ok source)
    {result : WikiLinePatchResult} (hrun : applyWikiLinePatch env now input = .ok result) :
    ∃ token plan, Accepted env now input source result token plan := by
  unfold applyWikiLinePatch at hrun
  split at hrun
  · cases hrun
  next hschema =>
    obtain ⟨source', hsource, hrun⟩ := bind_ok hrun
    rw [h] at hsource
    cases hsource
    obtain ⟨token, htoken, hrun⟩ := bind_ok hrun
    obtain ⟨-, -, hrun⟩ := bind_ok hrun
    split at hrun
    · cases hrun
    obtain ⟨plan, hplan, hrun⟩ := bind_ok hrun
    obtain ⟨final, hfinal, hrun⟩ := bind_ok hrun
    split at hrun
    · cases hrun
    cases hrun
    exact ⟨token, plan, by simpa using hschema, htoken, hplan, hfinal⟩

theorem anchors_positive {patch : WikiLinePatchV1} (h : validPatch patch = true) :
    ∀ operation ∈ patch.operations, ∀ anchor ∈ operation.anchors, 1 ≤ anchor.line := by
  intro operation hoperation anchor hanchor
  simp only [validPatch, Bool.and_eq_true, List.all_eq_true, decide_eq_true_eq] at h
  exact ((h.2 operation hoperation).1.1 anchor hanchor).1

/-- The text of a plan is read with the line endings that it was written with. -/
theorem canonicalResult_no_cr (h : validateWikiMarkdownSource env.sha256 input.source = .ok source)
    (hschema : validPatch input.patch = true) {disclosed : List DisclosedLineRange} {plan : PatchPlan}
    (hplan : planPatch env source disclosed input.patch.operations = .ok plan) :
    resultLines source.lines plan = spliced source.lines input.patch.operations ∧
    (∀ line ∈ spliced source.lines input.patch.operations, CleanLine line) ∧
    13 ∉ canonicalResult (spliced source.lines input.patch.operations) input.patch.resultFinalNewline := by
  obtain ⟨hordered, happart⟩ := planPatch_ok (anchors_positive hschema) hplan
  have hclean := spliced_clean hordered (lines_clean h)
  refine ⟨resultLines_eq hordered happart, hclean, ?_⟩
  intro hmem
  rcases List.mem_append.mp hmem with hmem | hmem
  · rcases mem_joinLines hmem with hnewline | ⟨line, hline, hcr⟩
    · cases hnewline
    · exact (hclean line hline).2 hcr
  · split at hmem
    · simp at hmem
    · cases hmem

theorem assertValidUtf16_error {label : String} {text : JsString} {e : WikiLinePatchError}
    (h : assertValidUtf16 label text = .error e) : e.code = "INVALID_UTF16" := by
  fun_induction assertValidUtf16 label text with
  | case1 => cases h
  | case2 unit hhigh =>
    cases h
    rfl
  | case3 unit hhigh hlow =>
    cases h
    rfl
  | case4 unit hhigh hlow => cases h
  | case5 unit next rest hhigh hlow ih => exact ih h
  | case6 unit next rest hhigh hlow =>
    cases h
    rfl
  | case7 unit next rest hhigh hlow =>
    cases h
    rfl
  | case8 unit next rest hhigh hlow ih => exact ih h

theorem validate_not_mixed {sha256 : List UInt8 → JsString} {text : JsString} {lineEnding : LineEnding}
    (hending : sourceLineEnding text = .ok lineEnding) {e : WikiLinePatchError}
    (h : validateWikiMarkdownSource sha256 (.text text) = .error e) : e.code ≠ "MIXED_LINE_ENDINGS" := by
  unfold validateWikiMarkdownSource at h
  cases hdecode : decodeSource (.text text) with
  | error e' =>
    rw [hdecode] at h
    obtain rfl : e' = e := by
      cases h
      rfl
    unfold decodeSource at hdecode
    cases hutf : assertValidUtf16 "Markdown source" text with
    | error e'' =>
      dsimp only at hdecode
      rw [hutf] at hdecode
      cases hdecode
      rw [assertValidUtf16_error hutf]
      decide
    | ok u =>
      dsimp only at hdecode
      rw [hutf] at hdecode
      simp only [Except.bind, bind] at hdecode
      split at hdecode
      · cases hdecode
        decide
      · cases hdecode
  | ok decoded =>
    obtain ⟨text', bytes⟩ := decoded
    have htext : text' = text := by
      unfold decodeSource at hdecode
      obtain ⟨-, -, hdecode⟩ := bind_ok hdecode
      split at hdecode
      · cases hdecode
      · cases hdecode
        rfl
    subst htext
    rw [hdecode] at h
    change (if maxSourceBytes < bytes.length then Except.error sourceTooLarge
      else if text'.contains 0 then Except.error sourceContainsNul
      else sourceLineEnding text' >>= _) = .error e at h
    split at h
    · cases h
      decide
    split at h
    · cases h
      decide
    rw [hending] at h
    change (if maxSourceLines < _ then Except.error sourceTooManyLines else Except.ok _) = .error e at h
    split at h
    · cases h
      decide
    · cases h

/-- **Splice.** The canonical text of an accepted patch is the splice joined by newlines, with the
final newline that was asked for, and its text has the line ending of the source, which is never
refused as mixed. Read again it has the lines of the splice and this final newline exactly where
some text has them. -/
theorem patch_splice (h : validateWikiMarkdownSource env.sha256 input.source = .ok source) :
    (∀ result, applyWikiLinePatch env now input = .ok result →
      result.source.canonicalText
          = canonicalResult (spliced source.lines input.patch.operations)
            input.patch.resultFinalNewline ∧
        result.source.text = restoredResult source.lineEnding result.source.canonicalText ∧
        ((result.source.lines = spliced source.lines input.patch.operations ∧
            result.source.finalNewline = input.patch.resultFinalNewline) ↔
          Representable (spliced source.lines input.patch.operations)
            input.patch.resultFinalNewline)) ∧
      ∀ disclosed plan, validPatch input.patch = true →
        planPatch env source disclosed input.patch.operations = .ok plan →
        ∀ e, validateWikiMarkdownSource env.sha256 (.text (restoredResult source.lineEnding
            (canonicalResult (resultLines source.lines plan) input.patch.resultFinalNewline)))
          = .error e → e.code ≠ "MIXED_LINE_ENDINGS" := by
  constructor
  · intro result hrun
    obtain ⟨token, plan, haccepted⟩ := applyWikiLinePatch_ok h hrun
    obtain ⟨hlines, hclean, hcr⟩ := canonicalResult_no_cr h haccepted.schema haccepted.planned
    obtain ⟨found, hfound, hcanonical⟩ := sourceLineEnding_restored hcr source.lineEnding
    have hresult := haccepted.validated
    rw [hlines] at hresult
    obtain ⟨text, bytes, lineEnding, hdecode, hending, hsource⟩ := validateWikiMarkdownSource_ok hresult
    have htext : text = restoredResult source.lineEnding
        (canonicalResult (spliced source.lines input.patch.operations) input.patch.resultFinalNewline) := by
      obtain ⟨-, -, hdecode⟩ := bind_ok hdecode
      split at hdecode
      · cases hdecode
      · cases hdecode
        rfl
    subst htext
    rw [hfound] at hending
    cases hending
    have hcanonicalText : result.source.canonicalText
        = canonicalResult (spliced source.lines input.patch.operations)
          input.patch.resultFinalNewline := by
      rw [hsource]
      exact hcanonical
    refine ⟨hcanonicalText, ?_, ?_⟩
    · rw [hcanonicalText, hsource]
      rfl
    · have hdecoded : result.source.lines = linesOf result.source.canonicalText ∧
          result.source.finalNewline = endsWithNewline result.source.canonicalText := by
        rw [hsource]
        exact ⟨rfl, rfl⟩
      rw [hdecoded.1, hdecoded.2, hcanonicalText]
      exact decode_canonicalResult (fun line hline => (hclean line hline).1) _
  · intro disclosed plan hschema hplan e herror
    obtain ⟨hlines, -, hcr⟩ := canonicalResult_no_cr h hschema hplan
    obtain ⟨found, hfound, -⟩ := sourceLineEnding_restored hcr source.lineEnding
    rw [hlines] at herror
    exact validate_not_mixed hfound herror

/-! ## An example -/

/-- A digest with the digits of the bytes, behind those of the tags. -/
def exampleSha256 (bytes : List UInt8) : JsString :=
  List.replicate 12 48 ++ bytes.map (·.toUInt16)

def exampleTag : JsString := List.replicate 12 48

def exampleAnchor (line : Nat) : LineAnchor := ⟨line, exampleTag⟩

def exampleSource (text : String) : ValidatedWikiMarkdownSource :=
  validatedSource exampleSha256 (js text) (utf8 (js text)) .lf

/-- The token of a snapshot of all lines. -/
def examplePayload (text : String) (lineCount : Nat) : TokenPayload where
  pageId := 1
  requesterSha256 := exampleSha256 (utf8 (js "user"))
  sourceRevision := js "1"
  rawSha256 := (exampleSource text).rawSha256
  canonicalSha256 := (exampleSource text).canonicalSha256
  documentTag := exampleTag
  lineEnding := .lf
  finalNewline := true
  lineCount
  disclosed := [⟨1, lineCount⟩]
  disclosedRangesSha256 := exampleSha256 (utf8 (rangesJson [⟨1, lineCount⟩]))
  expiresAtEpochMs := 300000

/-- An environment with one token. -/
def exampleEnvironment (payload : TokenPayload) : Environment where
  sha256 := exampleSha256
  sign signed _ := if signed = payload then js "a.s" else []
  readToken token _ := if token = js "v1.a.s" then .ok payload else .error .signature

def exampleInput (text : String) (operations : List PatchOperation) (resultFinalNewline : Bool) :
    PatchInput where
  pageId := 1
  sourceRevision := js "1"
  source := .text (js text)
  requesterScope := js "user"
  signingSecret := List.replicate 32 7
  patch := ⟨js "v1.a.s", exampleTag, resultFinalNewline, operations⟩

/-- The only line of a page is deleted and a final newline asked for: the page has an empty line. An
empty line is appended without a final newline: the page ends in one. -/
theorem unrepresentable_results :
    ((applyWikiLinePatch (exampleEnvironment (examplePayload "a\n" 1)) 0
        (exampleInput "a\n" [.delete (exampleAnchor 1) (exampleAnchor 1)] true)).toOption.map
      fun result => (result.source.lines, result.source.finalNewline)) = some ([[]], true) ∧
    spliced (exampleSource "a\n").lines [.delete (exampleAnchor 1) (exampleAnchor 1)] = [] ∧
    ((applyWikiLinePatch (exampleEnvironment (examplePayload "a\n" 1)) 0
        (exampleInput "a\n" [.insert (some (exampleAnchor 1)) none [js "b", []]] false)).toOption.map
      fun result => (result.source.lines, result.source.finalNewline)) = some ([js "a", js "b"], true) := by
  decide

theorem patch_splice_example :
    let source := validatedSource exampleSha256 (js "a\r\nb\r\n") (utf8 (js "a\r\nb\r\n")) .crlf
    let env := exampleEnvironment
      { examplePayload "a\nb\n" 2 with rawSha256 := source.rawSha256, lineEnding := .crlf }
    let input := exampleInput "a\r\nb\r\n" [.insert none (some (exampleAnchor 1)) [js "c"],
      .delete (exampleAnchor 2) (exampleAnchor 2)] true
    (∀ result, applyWikiLinePatch env 0 input = .ok result →
        result.source.lines = [js "c", js "a"] ∧ result.source.text = js "c\r\na\r\n") ∧
      (applyWikiLinePatch env 0 input).isOk = true := by
  intro source env input
  have hsource : validateWikiMarkdownSource env.sha256 input.source = .ok source := by rfl
  refine ⟨fun result hrun => ?_, by decide⟩
  obtain ⟨hcanonical, htext, hlistEq⟩ := (patch_splice hsource).1 result hrun
  have hlines : spliced source.lines input.patch.operations = [js "c", js "a"] := by decide
  have hrepresentable : Representable (spliced source.lines input.patch.operations)
      input.patch.resultFinalNewline := by
    rw [hlines]
    exact List.cons_ne_nil _ _
  rw [htext, hcanonical, (hlistEq.mpr hrepresentable).1, hlines]
  decide

end TsEpistle.LinePatch
