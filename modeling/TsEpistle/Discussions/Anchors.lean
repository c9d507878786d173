import TsEpistle.LinePatch.Source
import TsEpistle.Pages.Approvals

/-! Anchors of discussions: the text of a rendered page, the quotes that are captured from it and where they are found
again (`client/helpers/discussion-anchors.ts`). -/

namespace TsEpistle.Discussions
open Library
open LinePatch (isHighSurrogate isLowSurrogate)
open Pages (isSpace trim)

/-- Composition of a text (`normalize('NFC')`), and the class of the marks (`\p{M}`) among its characters. -/
structure Unicode where
  nfc : JsString → JsString
  isMark : JsString → Bool

/-! ## Quotes -/

/-- `replace(/\s+/gu, ' ')` behind a white space or not. -/
def collapseFrom : Bool → JsString → JsString
  | _, [] => []
  | inSpace, unit :: rest =>
    if isSpace unit then
      if inSpace then collapseFrom true rest else 32 :: collapseFrom true rest
    else unit :: collapseFrom false rest

def collapse (text : JsString) : JsString := collapseFrom false text

structure DiscussionAnnotationAnchor where
  (exact before after : JsString)
  heading : Option JsString
  offset : Nat
  deriving DecidableEq

inductive DiscussionAnchorMatch
  | found (start stop : Nat)
  | missing
  | ambiguous
  deriving DecidableEq

/-- The offsets that `indexOf` answers with, each search from behind the one before. -/
def occurrences (exact : JsString) : Nat → JsString → List Nat
  | offset, [] => if exact = [] then [offset] else []
  | offset, unit :: rest =>
    if exact.isPrefixOf (unit :: rest) then offset :: occurrences exact (offset + 1) rest
    else occurrences exact (offset + 1) rest

section
variable (unicode : Unicode)

def normalizeDiscussionQuote (text : JsString) : JsString := trim (collapse (unicode.nfc text))

/-- The text around a quote, as it is compared. -/
def normalizeContext (text : JsString) : JsString := collapse (unicode.nfc text)

/-- The occurrence stands between these texts; an empty text is not asked for. -/
def inContext (text exact before after : JsString) (offset : Nat) : Bool :=
  (before.isEmpty || endsWith (text.take offset) before)
    && (after.isEmpty || startsWith (text.drop (offset + exact.length)) after)

/-- Those that pass, or all where none does. -/
def narrowed (passes : Nat → Bool) (offsets : List Nat) : List Nat :=
  if (offsets.filter passes).isEmpty then offsets else offsets.filter passes

def underHeading (headingAt : Nat → Option JsString) (heading : JsString) (offset : Nat) : Bool :=
  normalizeDiscussionQuote unicode ((headingAt offset).getD []) = normalizeDiscussionQuote unicode heading

/-- The candidates that the context leaves. -/
def contextual (text exact : JsString) (anchor : DiscussionAnnotationAnchor) (candidates : List Nat) : List Nat :=
  let before := normalizeContext unicode anchor.before
  let after := normalizeContext unicode anchor.after
  if before.isEmpty && after.isEmpty then candidates
  else narrowed (inContext text exact before after) candidates

def surviving (text exact : JsString) (anchor : DiscussionAnnotationAnchor) (headingAt : Nat → Option JsString) :
    List Nat :=
  let candidates := occurrences exact 0 text
  if candidates.length ≤ 1 then candidates
  else
    let left := contextual unicode text exact anchor candidates
    let heading := anchor.heading.getD []
    if left.length ≤ 1 || heading.isEmpty then left
    else narrowed (underHeading unicode headingAt heading) left

def locateDiscussionAnchor (text : JsString) (anchor : DiscussionAnnotationAnchor)
    (headingAt : Nat → Option JsString) : DiscussionAnchorMatch :=
  let exact := normalizeDiscussionQuote unicode anchor.exact
  if exact = [] then .missing
  else if occurrences exact 0 text = [] then .missing
  else
    match surviving unicode text exact anchor headingAt with
    | [offset] => .found offset (offset + exact.length)
    | _ => .ambiguous

end

/-! ## Pages -/

/-- A node of a rendered page: an element with what the index reads of it, a text, or another node. -/
inductive Node
  | element (tagName : JsString) (isHidden ariaHidden isContentEditable : Bool) (childNodes : List Node)
  | text (data : JsString)
  | other

/-- The way from the root, child by child. -/
abbrev Path := List Nat

def nodeAt : Path → Node → Option Node
  | [], node => some node
  | index :: path, .element _ _ _ _ childNodes => childNodes[index]?.bind (nodeAt path)
  | _ :: _, _ => none

/-- `root.contains(node)` -/
def contains (root : Node) (path : Path) : Bool := (nodeAt path root).isSome

structure Point where
  node : Path
  (start stop : Nat)
  heading : Option JsString
  deriving DecidableEq

def excludedTags : List JsString :=
  [js "SCRIPT", js "STYLE", js "NOSCRIPT", js "CODE", js "PRE", js "BUTTON", js "INPUT", js "TEXTAREA", js "SELECT",
    js "OPTION", js "SVG", js "MATH", js "CANVAS", js "IFRAME", js "VIDEO", js "AUDIO"]

def headingTags : List JsString := [js "H1", js "H2", js "H3", js "H4", js "H5", js "H6"]

def blockTags : List JsString :=
  [js "P", js "DIV", js "LI", js "UL", js "OL", js "BLOCKQUOTE"] ++ headingTags
    ++ [js "TR", js "TD", js "TH", js "BR", js "HR", js "SECTION", js "ARTICLE"]

/-- The state of the walk over a page. -/
structure Walk where
  text : JsString
  heading : Option JsString
  pendingSpace : Bool
  points : List Point
  deriving DecidableEq

def Walk.start : Walk := ⟨[], none, false, []⟩

mutual
def textContent : Node → JsString
  | .element _ _ _ _ childNodes => textContents childNodes
  | .text data => data
  | .other => []
def textContents : List Node → JsString
  | [] => []
  | node :: nodes => textContent node ++ textContents nodes
end

/-- The characters of a text: a surrogate pair is one. -/
def characters : JsString → List JsString
  | [] => []
  | [unit] => [[unit]]
  | unit :: next :: rest =>
    if isHighSurrogate unit && isLowSurrogate next then [unit, next] :: characters rest
    else [unit] :: characters (next :: rest)

section
variable (unicode : Unicode)

/-- `/\P{M}\p{M}*|\p{M}+/gu`: each character with the marks behind it. -/
def clusters : List JsString → List JsString
  | [] => []
  | character :: rest =>
    match clusters rest with
    | [] => [character]
    | cluster :: others =>
      if rest.head?.any unicode.isMark then (character ++ cluster) :: others
      else character :: cluster :: others

def Walk.block (tagName : JsString) (state : Walk) : Walk :=
  if blockTags.contains tagName then { state with pendingSpace := !state.text.isEmpty } else state

/-- `normalizeDiscussionQuote(el.textContent ?? '').slice(0, 255) || null` -/
def headingOf (content : JsString) : Option JsString :=
  let heading := (normalizeDiscussionQuote unicode content).take 255
  if heading.isEmpty then none else some heading

def Walk.space (node : Path) (start : Nat) (state : Walk) : Walk :=
  if state.pendingSpace && !state.text.isEmpty then
    { state with text := state.text ++ [32], points := state.points ++ [⟨node, start, start, state.heading⟩] }
  else state

def Walk.cluster (node : Path) (start : Nat) (raw : JsString) (state : Walk) : Walk :=
  { text := state.text ++ unicode.nfc raw
    heading := state.heading
    pendingSpace := false
    points := state.points ++ List.replicate (unicode.nfc raw).length ⟨node, start, start + raw.length, state.heading⟩ }

def indexCluster (node : Path) (start : Nat) (raw : JsString) (state : Walk) : Walk :=
  if raw.all isSpace then { state with pendingSpace := !state.text.isEmpty }
  else (state.space node start).cluster unicode node start raw

def indexClusters (node : Path) : Nat → List JsString → Walk → Walk
  | _, [], state => state
  | start, raw :: rest, state =>
    indexClusters node (start + raw.length) rest (indexCluster unicode node start raw state)

mutual
def walk (path : Path) : Node → Walk → Walk
  | .element tagName isHidden ariaHidden isContentEditable childNodes, state =>
    if excludedTags.contains tagName ∨ isHidden ∨ ariaHidden ∨ isContentEditable ∨ 45 ∈ tagName then state
    else
      let opened := state.block tagName
      let headed := if headingTags.contains tagName then
          { opened with heading := headingOf unicode (textContents childNodes) }
        else opened
      (walkAll path 0 childNodes headed).block tagName
  | .text data, state => indexClusters unicode path 0 (clusters unicode (characters data)) state
  | .other, state => state
def walkAll (path : Path) : Nat → List Node → Walk → Walk
  | _, [], state => state
  | index, node :: nodes, state => walkAll path (index + 1) nodes (walk (path ++ [index]) node state)
end

structure DiscussionTextIndex where
  text : JsString
  points : List Point
  root : Node

def indexDiscussionText (root : Node) : DiscussionTextIndex :=
  ⟨(walk unicode [] root .start).text, (walk unicode [] root .start).points, root⟩

/-! ## Ranges -/

/-- A boundary of a range: the way to its container, and the offset there. Boundaries in the order of the document are
in the order of these numbers. -/
abbrev Boundary := List Nat

structure Range where
  (start stop : Boundary)
  deriving DecidableEq

def Point.from (point : Point) : Boundary := point.node ++ [point.start]
def Point.upto (point : Point) : Boundary := point.node ++ [point.stop]

inductive RangeMatch
  | found (range : Range)
  | missing
  | ambiguous
  deriving DecidableEq

def DiscussionTextIndex.headingAt (index : DiscussionTextIndex) (offset : Nat) : Option JsString :=
  index.points[offset]?.bind Point.heading

def rangeBetween (root : Node) : Option Point → Option Point → RangeMatch
  | some start, some stop =>
    if contains root start.node && contains root stop.node then .found ⟨start.from, stop.upto⟩ else .missing
  | _, _ => .missing

def discussionAnchorRange (index : DiscussionTextIndex) (anchor : DiscussionAnnotationAnchor) : RangeMatch :=
  match locateDiscussionAnchor unicode index.text anchor index.headingAt with
  | .found start stop => rangeBetween index.root index.points[start]? index.points[stop - 1]?
  | .missing => .missing
  | .ambiguous => .ambiguous

/-- What the browser says of a selection: `text` is what `range.toString()` answers. -/
structure Selection where
  isCollapsed : Bool
  rangeCount : Nat
  (startInside endInside : Bool)
  range : Range
  text : JsString

def overlaps (range : Range) (point : Point) : Bool :=
  decide (point.start ≠ point.stop) && decide (range.start < point.upto) && decide (point.from < range.stop)

/-- The loop over the points: the first that the range overlaps, and the one behind the last. -/
def selected (range : Range) : Nat → List Point → Option (Nat × Nat) → Option (Nat × Nat)
  | _, [], chosen => chosen
  | index, point :: points, chosen =>
    if overlaps range point then
      selected range (index + 1) points (some ((chosen.map Prod.fst).getD index, index + 1))
    else selected range (index + 1) points chosen

def slice (text : JsString) (start stop : Nat) : JsString := (text.take stop).drop start

def withoutSpace (text : JsString) : JsString := text.filter fun unit => !isSpace unit

def captureDiscussionAnchor (root : Node) (selection : Selection) : Option DiscussionAnnotationAnchor :=
  if selection.isCollapsed ∨ selection.rangeCount ≠ 1 ∨ selection.startInside = false ∨ selection.endInside = false then
    none
  else
    let index := indexDiscussionText unicode root
    match selected selection.range 0 index.points none with
    | none => none
    | some (start, stop) =>
      let exact := trim (slice index.text start stop)
      if exact = [] ∨ 1000 < exact.length
          ∨ withoutSpace (normalizeDiscussionQuote unicode selection.text) ≠ withoutSpace exact then none
      else some
        { exact := exact
          before := slice index.text (start - 64) start
          after := slice index.text stop (stop + 64)
          heading := index.headingAt start
          offset := start }

end

end TsEpistle.Discussions
