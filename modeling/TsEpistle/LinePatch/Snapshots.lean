import TsEpistle.LinePatch.Source

/-! Line snapshots and the patches that go by them (`server/agents/patch/wiki-line-patch.ts`). -/

namespace TsEpistle.LinePatch
open Library

/-- A bound that is no natural number is refused as 0 is. -/
structure DisclosedLineRange where
  (startLine endLine : Nat)
  deriving DecidableEq, Repr

structure TokenPayload where
  pageId : Nat
  (requesterSha256 sourceRevision rawSha256 canonicalSha256 documentTag : JsString)
  lineEnding : LineEnding
  finalNewline : Bool
  lineCount : Nat
  disclosed : List DisclosedLineRange
  disclosedRangesSha256 : JsString
  expiresAtEpochMs : Int
  deriving DecidableEq, Repr

/-- What is wrong with a token of the right format. -/
inductive TokenFault
  | signature
  | payload
  | schema

/-- The digest, the encoded payload with its signature, and what signature, encoding and schema of
a token let through. -/
structure Environment where
  sha256 : List UInt8 → JsString
  sign : TokenPayload → List UInt8 → JsString
  readToken : JsString → List UInt8 → Except TokenFault TokenPayload

def Environment.token (env : Environment) (payload : TokenPayload) (secret : List UInt8) : JsString :=
  js "v1." ++ env.sign payload secret

/-- A token that passes tells the payload that it was signed for. -/
def Environment.Faithful (env : Environment) : Prop :=
  ∀ payload secret secret' payload',
    env.readToken (env.token payload secret) secret' = .ok payload' → payload' = payload

/-! ## Ranges -/

def invalidDisclosure : WikiLinePatchError :=
  ⟨"INVALID_DISCLOSURE", "Snapshot disclosure range is invalid", 400⟩

def emptyDisclosure : WikiLinePatchError :=
  ⟨"INVALID_DISCLOSURE", "Empty documents have no line ranges", 400⟩

def disclosureTooLarge : WikiLinePatchError :=
  ⟨"DISCLOSURE_TOO_LARGE", "Snapshot disclosure exceeds its line limit", 400⟩

def validRange (lineCount : Nat) (range : DisclosedLineRange) : Bool :=
  1 ≤ range.startLine && range.startLine ≤ range.endLine && range.endLine ≤ lineCount

/-- The order of the ranges: by the first line, then by the last. -/
def rangeLe (left right : DisclosedLineRange) : Prop :=
  left.startLine < right.startLine ∨ left.startLine = right.startLine ∧ left.endLine ≤ right.endLine

instance : DecidableRel rangeLe := fun left right =>
  inferInstanceAs (Decidable (left.startLine < right.startLine
    ∨ left.startLine = right.startLine ∧ left.endLine ≤ right.endLine))

/-- A range that meets the last one, or follows it, extends it. -/
def addRange (normalized : List DisclosedLineRange) (range : DisclosedLineRange) :
    List DisclosedLineRange :=
  match normalized.getLast? with
  | none => [range]
  | some previous =>
    if range.startLine ≤ previous.endLine + 1 then
      normalized.dropLast ++ [⟨previous.startLine, max previous.endLine range.endLine⟩]
    else normalized ++ [range]

def mergeRanges (ranges : List DisclosedLineRange) : List DisclosedLineRange :=
  (ranges.insertionSort rangeLe).foldl addRange []

def lineTotal (ranges : List DisclosedLineRange) : Nat :=
  ranges.foldl (fun total range => total + (range.endLine - range.startLine + 1)) 0

def normalizeRanges (ranges : List DisclosedLineRange) (lineCount : Nat) :
    Except WikiLinePatchError (List DisclosedLineRange) :=
  if lineCount = 0 then if ranges = [] then .ok [] else .error emptyDisclosure
  else if !ranges.all (validRange lineCount) then .error invalidDisclosure
  else if maxDisclosedLines < lineTotal (mergeRanges ranges) then .error disclosureTooLarge
  else .ok (mergeRanges ranges)

def lineIsDisclosed (line : Nat) (ranges : List DisclosedLineRange) : Bool :=
  ranges.any fun range => range.startLine ≤ line && line ≤ range.endLine

/-- `JSON.stringify(ranges)`. -/
def rangesJson (ranges : List DisclosedLineRange) : JsString :=
  let json := ranges.map fun range =>
    js "\x7b\"startLine\":" ++ js (toString range.startLine) ++ js ",\"endLine\":"
      ++ js (toString range.endLine) ++ js "\x7d"
  js "[" ++ (js ",").intercalate json ++ js "]"

section
variable (env : Environment)

def rangesHash (ranges : List DisclosedLineRange) : JsString := env.sha256 (utf8 (rangesJson ranges))
def requesterHash (requesterScope : JsString) : JsString := env.sha256 (utf8 requesterScope)

def lineTag (documentTag : JsString) (line : Nat) (text : JsString) : JsString :=
  (env.sha256 (utf8 (documentTag ++ 0 :: js (toString line) ++ 0 :: text))).take 12

/-! ## Tokens -/

def invalidTokenSecret : WikiLinePatchError :=
  ⟨"INVALID_TOKEN_SECRET", "Snapshot signing secret must be at least 256 bits", 500⟩

def invalidSnapshot (message : String) : WikiLinePatchError := ⟨"INVALID_SNAPSHOT_TOKEN", message, 409⟩

def invalidSnapshotToken : WikiLinePatchError := invalidSnapshot "Snapshot token is invalid or expired"

def staleSnapshot : WikiLinePatchError :=
  ⟨"STALE_SNAPSHOT", "Page source no longer matches the snapshot", 409⟩

def signToken (payload : TokenPayload) (secret : List UInt8) : Except WikiLinePatchError JsString :=
  if secret.length < 32 then .error invalidTokenSecret else .ok (env.token payload secret)

def formatted (token : JsString) : Bool :=
  match token.splitOn 46 with
  | [version, encoded, signature] => version = js "v1" && !encoded.isEmpty && !signature.isEmpty
  | _ => false

def verifyTokenSignature (now : Int) (token : JsString) (secret : List UInt8) :
    Except WikiLinePatchError TokenPayload :=
  if !formatted token then .error (invalidSnapshot "Snapshot token has an invalid format")
  else match env.readToken token secret with
    | .error .signature => .error (invalidSnapshot "Snapshot token signature is invalid")
    | .error .payload => .error (invalidSnapshot "Snapshot token payload is invalid")
    | .error .schema => .error invalidSnapshotToken
    | .ok payload =>
      if payload.expiresAtEpochMs ≤ now
          || rangesHash env payload.disclosed ≠ payload.disclosedRangesSha256 then
        .error invalidSnapshotToken
      else .ok payload

structure TokenContext where
  pageId : Nat
  (requesterScope sourceRevision : JsString)
  source : ValidatedWikiMarkdownSource

def verifyTokenContext (payload : TokenPayload) (expected : TokenContext) :
    Except WikiLinePatchError Unit :=
  if payload.pageId ≠ expected.pageId
      || payload.requesterSha256 ≠ requesterHash env expected.requesterScope
      || payload.sourceRevision ≠ expected.sourceRevision
      || payload.rawSha256 ≠ expected.source.rawSha256
      || payload.canonicalSha256 ≠ expected.source.canonicalSha256
      || payload.documentTag ≠ expected.source.documentTag
      || payload.lineEnding ≠ expected.source.lineEnding
      || payload.finalNewline ≠ expected.source.finalNewline
      || payload.lineCount ≠ expected.source.lines.length then .error staleSnapshot
  else .ok ()

/-! ## Snapshots -/

structure SnapshotPage where
  id : Nat
  (locale path : JsString)
  deriving DecidableEq, Repr

structure SnapshotInput where
  page : SnapshotPage
  sourceRevision : JsString
  source : Source
  requesterScope : JsString
  signingSecret : List UInt8
  requestedRanges : Option (List DisclosedLineRange)
  previousSnapshotToken : Option JsString
  ttlMs : Option Int

structure DisclosedLine where
  number : Nat
  (tag text : JsString)
  deriving DecidableEq, Repr

structure DisclosedLines where
  (startLine endLine : Nat)
  lines : List DisclosedLine
  deriving DecidableEq, Repr

structure WikiLineSnapshotV1 where
  page : SnapshotPage
  (sourceRevision rawSha256 canonicalSha256 documentTag : JsString)
  lineEnding : LineEnding
  finalNewline : Bool
  disclosed : List DisclosedLines
  snapshotToken : JsString
  expiresAtEpochMs : Int
  warnings : List WikiSourceWarning
  deriving DecidableEq, Repr

def invalidSnapshotTtl : WikiLinePatchError :=
  ⟨"INVALID_SNAPSHOT_TTL", "Snapshot TTL is outside its allowed range", 400⟩

/-- The ranges that a call asks for: all lines where it names none. -/
def requestedRanges (input : SnapshotInput) (lineCount : Nat) : List DisclosedLineRange :=
  input.requestedRanges.getD (if lineCount = 0 then [] else [⟨1, lineCount⟩])

/-- What the token before disclosed. -/
def priorRanges (now : Int) (input : SnapshotInput) (source : ValidatedWikiMarkdownSource) :
    Except WikiLinePatchError (List DisclosedLineRange) :=
  match input.previousSnapshotToken.filter (· ≠ []) with
  | none => .ok []
  | some token => do
      let payload ← verifyTokenSignature env now token input.signingSecret
      verifyTokenContext env payload
        ⟨input.page.id, input.requesterScope, input.sourceRevision, source⟩
      return payload.disclosed

def disclosedLines (source : ValidatedWikiMarkdownSource) (range : DisclosedLineRange) :
    DisclosedLines where
  startLine := range.startLine
  endLine := range.endLine
  lines := ((source.lines.take range.endLine).drop (range.startLine - 1)).mapIdx fun offset text =>
    ⟨range.startLine + offset, lineTag env source.documentTag (range.startLine + offset) text, text⟩

def snapshotPayload (input : SnapshotInput) (source : ValidatedWikiMarkdownSource)
    (disclosed : List DisclosedLineRange) (expiresAtEpochMs : Int) : TokenPayload where
  pageId := input.page.id
  requesterSha256 := requesterHash env input.requesterScope
  sourceRevision := input.sourceRevision
  rawSha256 := source.rawSha256
  canonicalSha256 := source.canonicalSha256
  documentTag := source.documentTag
  lineEnding := source.lineEnding
  finalNewline := source.finalNewline
  lineCount := source.lines.length
  disclosed
  disclosedRangesSha256 := rangesHash env disclosed
  expiresAtEpochMs

def issueWikiLineSnapshot (now : Int) (input : SnapshotInput) :
    Except WikiLinePatchError WikiLineSnapshotV1 := do
  let source ← validateWikiMarkdownSource env.sha256 input.source
  let prior ← priorRanges env now input source
  let disclosed ← normalizeRanges (prior ++ requestedRanges input source.lines.length)
    source.lines.length
  let ttlMs := input.ttlMs.getD (5 * 60 * 1000)
  if ttlMs < 1000 || 15 * 60 * 1000 < ttlMs then .error invalidSnapshotTtl
  else do
    let snapshotToken ← signToken env
      (snapshotPayload env input source disclosed (now + ttlMs)) input.signingSecret
    return {
      page := input.page
      sourceRevision := input.sourceRevision
      rawSha256 := source.rawSha256
      canonicalSha256 := source.canonicalSha256
      documentTag := source.documentTag
      lineEnding := source.lineEnding
      finalNewline := source.finalNewline
      disclosed := disclosed.map (disclosedLines env source)
      snapshotToken
      expiresAtEpochMs := now + ttlMs
      warnings := source.warnings.filter fun warning => lineIsDisclosed warning.line disclosed }

/-! ## Patches -/

structure LineAnchor where
  line : Nat
  tag : JsString
  deriving DecidableEq, Repr

inductive PatchOperation
  | insert (after before : Option LineAnchor) (lines : List JsString)
  | replace (start stop : LineAnchor) (lines : List JsString)
  | delete (start stop : LineAnchor)
  deriving DecidableEq, Repr

structure WikiLinePatchV1 where
  (snapshotToken baseDocumentTag : JsString)
  resultFinalNewline : Bool
  operations : List PatchOperation
  deriving DecidableEq, Repr

def PatchOperation.anchors : PatchOperation → List LineAnchor
  | insert after before _ => after.toList ++ before.toList
  | replace start stop _ | delete start stop => [start, stop]

def PatchOperation.lineCount : PatchOperation → Nat
  | insert _ _ lines | replace _ _ lines => lines.length
  | delete .. => 1

def hexDigit (unit : UInt16) : Bool := (48 ≤ unit && unit ≤ 57) || (97 ≤ unit && unit ≤ 102)

def validTag (tag : JsString) : Bool := tag.length = 12 && tag.all hexDigit

/-- `WikiLinePatchV1Schema`. -/
def validPatch (patch : WikiLinePatchV1) : Bool :=
  1 ≤ patch.snapshotToken.length && patch.snapshotToken.length ≤ 16384
    && validTag patch.baseDocumentTag
    && 1 ≤ patch.operations.length && patch.operations.length ≤ 1000
    && patch.operations.all fun operation =>
      operation.anchors.all (fun anchor => 1 ≤ anchor.line && validTag anchor.tag)
        && 1 ≤ operation.lineCount && operation.lineCount ≤ 5000

def invalidPatch : WikiLinePatchError :=
  ⟨"INVALID_PATCH", "Patch does not match wiki-line-patch-v1", 400⟩
def invalidPatchLine : WikiLinePatchError :=
  ⟨"INVALID_PATCH_LINE", "Patch lines must not contain CR, LF, or NUL", 400⟩
def undisclosedPatchRange : WikiLinePatchError :=
  ⟨"UNDISCLOSED_PATCH_RANGE", "Patch range is invalid or was not fully disclosed", 409⟩
def crossedPatchRange : WikiLinePatchError :=
  ⟨"UNDISCLOSED_PATCH_RANGE", "Patch range crosses undisclosed lines", 409⟩
def staleRangeAnchor : WikiLinePatchError :=
  ⟨"STALE_LINE_ANCHOR", "Patch line anchor does not match the snapshot", 409⟩
def staleAfterAnchor : WikiLinePatchError :=
  ⟨"STALE_LINE_ANCHOR", "Patch gap after-anchor does not match the snapshot", 409⟩
def staleBeforeAnchor : WikiLinePatchError :=
  ⟨"STALE_LINE_ANCHOR", "Patch gap before-anchor does not match the snapshot", 409⟩
def emptyDocumentGap : WikiLinePatchError :=
  ⟨"INVALID_PATCH_GAP", "Empty documents require null gap anchors", 409⟩
def missingGapAnchor : WikiLinePatchError :=
  ⟨"INVALID_PATCH_GAP", "Non-empty documents require a gap anchor", 409⟩
def gapNotAdjacent : WikiLinePatchError :=
  ⟨"INVALID_PATCH_GAP", "Patch gap anchors must be adjacent", 409⟩
def loneAfterAnchor : WikiLinePatchError :=
  ⟨"INVALID_PATCH_GAP", "A lone after-anchor must identify the final line", 409⟩
def loneBeforeAnchor : WikiLinePatchError :=
  ⟨"INVALID_PATCH_GAP", "A lone before-anchor must identify the first line", 409⟩
def undisclosedPatchGap : WikiLinePatchError :=
  ⟨"UNDISCLOSED_PATCH_GAP", "Patch gap was not fully disclosed", 409⟩
def staleDocumentTag : WikiLinePatchError :=
  ⟨"STALE_DOCUMENT_TAG", "Patch document tag does not match the source", 409⟩
def insertionOrderConflict : WikiLinePatchError :=
  ⟨"PATCH_ORDER_CONFLICT", "Patch operations must be uniquely and strictly ordered", 409⟩
def rangeOrderConflict : WikiLinePatchError :=
  ⟨"PATCH_ORDER_CONFLICT", "Patch ranges overlap or are out of order", 409⟩
def patchIncidentGap : WikiLinePatchError :=
  ⟨"PATCH_INCIDENT_GAP", "Patch insertion gap is incident to a replaced or deleted range", 409⟩
def patchNoOp : WikiLinePatchError :=
  ⟨"PATCH_NO_OP", "Patch does not change canonical Markdown source", 409⟩

def assertPatchLine (value : JsString) : Except WikiLinePatchError Unit := do
  assertValidUtf16 "Patch line" value
  if value.contains 13 || value.contains 10 || value.contains 0 then .error invalidPatchLine
  else return ()

def assertPatchLines (lines : List JsString) : Except WikiLinePatchError Unit :=
  lines.foldlM (fun _ line => assertPatchLine line) ()

/-- The anchor names the line of the source that it was issued for. -/
def anchorMatches (source : ValidatedWikiMarkdownSource) (anchor : LineAnchor) : Bool :=
  lineTag env source.documentTag anchor.line (source.lines.getD (anchor.line - 1) []) = anchor.tag

/-- The lines from `start` to `stop`. -/
def linesBetween (start stop : Nat) : List Nat := List.range' start (stop + 1 - start)

def resolveRange (start stop : LineAnchor) (source : ValidatedWikiMarkdownSource)
    (disclosed : List DisclosedLineRange) : Except WikiLinePatchError (Nat × Nat) :=
  if stop.line < start.line || source.lines.length < stop.line
      || !lineIsDisclosed start.line disclosed || !lineIsDisclosed stop.line disclosed then
    .error undisclosedPatchRange
  else if !(linesBetween start.line stop.line).all (lineIsDisclosed · disclosed) then
    .error crossedPatchRange
  else if !anchorMatches env source start || !anchorMatches env source stop then
    .error staleRangeAnchor
  else .ok (start.line, stop.line)

def anchorStale (source : ValidatedWikiMarkdownSource) (anchor : LineAnchor) : Bool :=
  source.lines.length < anchor.line || !anchorMatches env source anchor

/-- The gap between two neighbouring lines, before the first or behind the last. -/
def gapIndex (lineCount : Nat) : Option LineAnchor → Option LineAnchor →
    Except WikiLinePatchError Nat
  | some after, some before =>
    if after.line + 1 ≠ before.line then .error gapNotAdjacent else .ok after.line
  | some after, none => if after.line ≠ lineCount then .error loneAfterAnchor else .ok lineCount
  | none, some before => if before.line ≠ 1 then .error loneBeforeAnchor else .ok 0
  | none, none => .error missingGapAnchor

def gapCovered (gap lineCount : Nat) (disclosed : List DisclosedLineRange) : Bool :=
  if gap = 0 then lineIsDisclosed 1 disclosed
  else if gap = lineCount then lineIsDisclosed lineCount disclosed
  else lineIsDisclosed gap disclosed && lineIsDisclosed (gap + 1) disclosed

def resolveGap (after before : Option LineAnchor) (source : ValidatedWikiMarkdownSource)
    (disclosed : List DisclosedLineRange) : Except WikiLinePatchError Nat :=
  let lineCount := source.lines.length
  if lineCount = 0 then
    if after.isSome || before.isSome then .error emptyDocumentGap else .ok 0
  else if after.isNone && before.isNone then .error missingGapAnchor
  else if after.any (anchorStale env source) then .error staleAfterAnchor
  else if before.any (anchorStale env source) then .error staleBeforeAnchor
  else do
    let gap ← gapIndex lineCount after before
    if gapCovered gap lineCount disclosed then return gap else .error undisclosedPatchGap

structure PlannedRange where
  (start stop : Nat)
  lines : List JsString
  deriving DecidableEq, Repr

structure PlannedGap where
  gap : Nat
  lines : List JsString
  deriving DecidableEq, Repr

/-- The maps that `applyWikiLinePatch` builds. -/
structure PatchPlan where
  ranges : List PlannedRange
  gaps : List PlannedGap
  previousPositionEnd : Int
  deriving DecidableEq, Repr

def planRange (source : ValidatedWikiMarkdownSource) (disclosed : List DisclosedLineRange)
    (plan : PatchPlan) (start stop : LineAnchor) (lines : List JsString) :
    Except WikiLinePatchError PatchPlan := do
  let range ← resolveRange env start stop source disclosed
  if (range.1 : Int) * 2 - 1 ≤ plan.previousPositionEnd
      || plan.ranges.any (·.start = range.1) then .error rangeOrderConflict
  else do
    assertPatchLines lines
    return { plan with
      ranges := plan.ranges ++ [⟨range.1, range.2, lines⟩]
      previousPositionEnd := (range.2 : Int) * 2 - 1 }

def planOperation (source : ValidatedWikiMarkdownSource) (disclosed : List DisclosedLineRange)
    (plan : PatchPlan) : PatchOperation → Except WikiLinePatchError PatchPlan
  | .insert after before lines => do
      assertPatchLines lines
      let gap ← resolveGap env after before source disclosed
      if (gap : Int) * 2 ≤ plan.previousPositionEnd || plan.gaps.any (·.gap = gap) then
        .error insertionOrderConflict
      else return { plan with
        gaps := plan.gaps ++ [⟨gap, lines⟩], previousPositionEnd := (gap : Int) * 2 }
  | .replace start stop lines => planRange env source disclosed plan start stop lines
  | .delete start stop => planRange env source disclosed plan start stop []

/-- A gap before, in or behind a range. -/
def incident (plan : PatchPlan) : Bool :=
  plan.gaps.any fun gap => plan.ranges.any fun range =>
    range.start ≤ gap.gap + 1 && gap.gap ≤ range.stop

def planPatch (source : ValidatedWikiMarkdownSource) (disclosed : List DisclosedLineRange)
    (operations : List PatchOperation) : Except WikiLinePatchError PatchPlan := do
  let plan ← operations.foldlM (planOperation env source disclosed) ⟨[], [], -1⟩
  if incident plan then .error patchIncidentGap else return plan

def insertedAt (plan : PatchPlan) (gap : Nat) : List JsString :=
  ((plan.gaps.find? (·.gap = gap)).map (·.lines)).getD []

/-- The lines from a line on. Every round goes on by a line at least, so that as many rounds as
there are lines are enough. -/
def rebuild (lines : List JsString) (plan : PatchPlan) : Nat → Nat → List JsString
  | 0, _ => []
  | rounds + 1, line =>
    if lines.length < line then []
    else
      match plan.ranges.find? (·.start = line) with
      | some replacement => replacement.lines ++ rebuild lines plan rounds (replacement.stop + 1)
      | none =>
        lines.getD (line - 1) [] :: insertedAt plan line ++ rebuild lines plan rounds (line + 1)

def resultLines (lines : List JsString) (plan : PatchPlan) : List JsString :=
  insertedAt plan 0 ++ rebuild lines plan lines.length 1

def canonicalResult (resultLines : List JsString) (resultFinalNewline : Bool) : JsString :=
  joinLines resultLines ++ if resultFinalNewline then [10] else []

def restoredResult (lineEnding : LineEnding) (canonicalResult : JsString) : JsString :=
  match lineEnding with
  | .crlf => windowsLines canonicalResult
  | .lf => canonicalResult

structure PatchInput where
  pageId : Nat
  sourceRevision : JsString
  source : Source
  requesterScope : JsString
  signingSecret : List UInt8
  patch : WikiLinePatchV1

structure WikiLinePatchResult where
  source : ValidatedWikiMarkdownSource
  disclosedRangesSha256 : JsString

/-- The digests of the patch and of the unified diff are left out. -/
def applyWikiLinePatch (now : Int) (input : PatchInput) :
    Except WikiLinePatchError WikiLinePatchResult :=
  if !validPatch input.patch then .error invalidPatch
  else do
    let source ← validateWikiMarkdownSource env.sha256 input.source
    let token ← verifyTokenSignature env now input.patch.snapshotToken input.signingSecret
    verifyTokenContext env token ⟨input.pageId, input.requesterScope, input.sourceRevision, source⟩
    if input.patch.baseDocumentTag ≠ source.documentTag then .error staleDocumentTag
    else do
      let plan ← planPatch env source token.disclosed input.patch.operations
      let canonical := canonicalResult (resultLines source.lines plan)
        input.patch.resultFinalNewline
      let result ← validateWikiMarkdownSource env.sha256
        (.text (restoredResult source.lineEnding canonical))
      if result.canonicalSha256 = source.canonicalSha256 then .error patchNoOp
      else return ⟨result, token.disclosedRangesSha256⟩

end

end TsEpistle.LinePatch
