import TsEpistle.Discussions.Anchors

/-! Links to the glossary in the texts of a rendered page (`linkGlossaryContent` of
`client/helpers/glossary-runtime.ts`).
The attributes of an anchor apart from its term are left out. -/

namespace TsEpistle.Glossary.Autolinks
open Library
open Discussions (characters collapse slice)
open Pages (isSpace trim)

/-- Graphemes (`Intl.Segmenter`), composition, simple case folding of a character, and the class
`[\p{L}\p{N}\p{M}_]`. -/
structure Language where
  graphemes : JsString → List JsString
  (nfc fold : JsString → JsString)
  isWord : JsString → Bool

structure GlossaryAutolinkTerm where
  id : Nat
  term : JsString
  aliases : List JsString
  caseSensitive : Bool

/-- An eligible text node, with the characters that `adjacentCharacter` finds before and behind it. -/
structure TextNode where
  (data before after : JsString)

/-- A link: the units of the node that it covers. -/
structure Match where
  (start stop id : Nat)
  term : JsString
  label : Option JsString
  explicit : Bool
  deriving DecidableEq

def Match.overlaps (left right : Match) : Bool := decide (left.start < right.stop) && decide (right.start < left.stop)

/-- `text`, and where the grapheme of each of its units starts and ends in the source. -/
structure Normalized where
  text : JsString
  (starts ends : List Nat)

section
variable (language : Language)

def normalizedFrom : Nat → List JsString → Normalized
  | _, [] => ⟨[], [], []⟩
  | index, segment :: rest =>
    let value := language.nfc segment
    let next := normalizedFrom (index + segment.length) rest
    ⟨value ++ next.text, List.replicate value.length index ++ next.starts,
      List.replicate value.length (index + segment.length) ++ next.ends⟩

def normalized (source : JsString) : Normalized := normalizedFrom language 0 (language.graphemes source)

/-! ## Expressions -/

def sameCharacter (caseSensitive : Bool) (left right : JsString) : Bool :=
  if caseSensitive then left = right else language.fold left = language.fold right

def isSpaceCharacter (character : JsString) : Bool := character.all isSpace

/-- The characters that an expression takes from the start of a text, if it matches there. A space stands for a run of
white space, which no shorter run can replace, since no name goes on with white space behind it. -/
def matchHere (caseSensitive : Bool) : List JsString → List JsString → Option (List JsString)
  | [], _ => some []
  | character :: pattern, text =>
    if character = [32] then
      let run := text.takeWhile isSpaceCharacter
      if run = [] then none
      else (matchHere caseSensitive pattern (text.dropWhile isSpaceCharacter)).map (run ++ ·)
    else
      match text with
      | [] => none
      | first :: rest =>
        if sameCharacter language caseSensitive character first then
          (matchHere caseSensitive pattern rest).map (first :: ·)
        else none

/-- A place where an expression matches: its index, and the characters that it takes. -/
structure Found where
  index : Nat
  taken : List JsString
  deriving DecidableEq

def Found.stop (found : Found) : Nat := found.index + found.taken.flatten.length

section
variable (taken : List JsString → Option (List JsString))

/-- `matchAll`: behind a match the search goes on where it ends. -/
def matchAll : Nat → Nat → List JsString → List Found
  | _, _, [] => []
  | skip + 1, index, character :: rest => matchAll skip (index + character.length) rest
  | 0, index, character :: rest =>
    match taken (character :: rest) with
    | some (first :: more) => ⟨index, first :: more⟩ :: matchAll more.length (index + character.length) rest
    | _ => matchAll 0 (index + character.length) rest

/-- Every place where the expression matches. -/
def everyMatch : Nat → List JsString → List Found
  | _, [] => []
  | index, character :: rest =>
    match taken (character :: rest) with
    | some (first :: more) => ⟨index, first :: more⟩ :: everyMatch (index + character.length) rest
    | _ => everyMatch (index + character.length) rest

end

/-! ## Explicit links -/

/-- `[^\]|\r\n]` -/
def isTermUnit (character : JsString) : Bool :=
  character ≠ [93] && character ≠ [124] && character ≠ [13] && character ≠ [10]

/-- `[^\]\r\n]` -/
def isLabelUnit (character : JsString) : Bool := character ≠ [93] && character ≠ [13] && character ≠ [10]

def opener : List JsString := characters (js "[[Glossary:")

/-- What `\[\[Glossary:([^\]|\r\n]+)(?:\|([^\]\r\n]+))?\]\]` takes, with its groups. -/
def explicitHere (text : List JsString) : Option (List JsString × JsString × Option JsString) :=
  match matchHere language false opener text with
  | none => none
  | some opening =>
    let rest := text.drop opening.length
    let term := rest.takeWhile isTermUnit
    let behind := rest.dropWhile isTermUnit
    if term = [] then none
    else if behind.take 2 = [[93], [93]] then
      some (opening ++ term ++ [[93], [93]], term.flatten, none)
    else if behind.head? = some [124] then
      let label := behind.tail.takeWhile isLabelUnit
      if label ≠ [] ∧ (behind.tail.dropWhile isLabelUnit).take 2 = [[93], [93]] then
        some (opening ++ term ++ [[124]] ++ label ++ [[93], [93]], term.flatten, some label.flatten)
      else none
    else none

def explicitMatch (found : Found) : Match :=
  match explicitHere language found.taken with
  | some (_, term, label) => ⟨found.index, found.stop, 0, trim term, some (label.getD term), true⟩
  | none => ⟨found.index, found.stop, 0, [], none, true⟩

def explicitMatches (data : JsString) : List Match :=
  (matchAll (fun text => (explicitHere language text).map Prod.fst) 0 0 (characters data)).map (explicitMatch language)

/-! ## Automatic links -/

structure Candidate where
  link : Match
  (order length : Nat)
  deriving DecidableEq

def namePattern (name : JsString) : List JsString := characters (collapse (trim (language.nfc name)))

def isBounded (node : TextNode) (text : JsString) (found : Found) : Bool :=
  let before := (characters (slice text (found.index - 2) found.index)).getLast?.getD node.before
  let after := (characters (slice text found.stop (found.stop + 2))).head?.getD node.after
  !((language.isWord (found.taken.head?.getD []) && language.isWord before)
    || (language.isWord (found.taken.getLast?.getD []) && language.isWord after))

def candidateOf (order : Nat) (source : Normalized) (term : GlossaryAutolinkTerm) (name : JsString) (found : Found) :
    Candidate where
  link :=
    { start := source.starts[found.index]?.getD 0
      stop := source.ends[found.stop - 1]?.getD 0
      id := term.id
      term := term.term
      label := none
      explicit := false }
  order := order
  length := (namePattern language name).length

/-- How the places of an expression are searched: `matchAll` in the code, `everyMatch` in the specification. -/
abbrev Search := (List JsString → Option (List JsString)) → List JsString → List Found

def scanning : Search := fun taken text => matchAll taken 0 0 text
def exhaustive : Search := fun taken text => everyMatch taken 0 text

section
variable (search : Search)

def candidatesOfName (order : Nat) (node : TextNode) (term : GlossaryAutolinkTerm) (name : JsString) : List Candidate :=
  let source := normalized language node.data
  if trim name = [] then []
  else
    (((search (matchHere language term.caseSensitive (namePattern language name)) (characters source.text)).filter
      (isBounded language node source.text)).map (candidateOf language order source term name)).filter fun candidate =>
        !(explicitMatches language node.data).any candidate.link.overlaps

def candidatesOfNode (terms : List GlossaryAutolinkTerm) (node : TextNode) (order : Nat) : List Candidate :=
  terms.flatMap fun term => (term.term :: term.aliases).flatMap fun name =>
    candidatesOfName language search order node term name

def candidates (nodes : List TextNode) (terms : List GlossaryAutolinkTerm) : List Candidate :=
  (nodes.zipIdx.map fun entry => candidatesOfNode language search terms entry.1 entry.2).flatten

/-- The longest name first, then the order of the document, then the id. -/
def Candidate.le (left right : Candidate) : Prop :=
  right.length < left.length ∨ (right.length = left.length ∧ (left.order < right.order ∨ (left.order = right.order
    ∧ (left.link.start < right.link.start ∨ (left.link.start = right.link.start ∧ left.link.id ≤ right.link.id)))))

instance : DecidableRel Candidate.le := fun _ _ => inferInstanceAs (Decidable (_ ∨ _))

/-- The ids that are linked, and the links of each node. -/
structure Linked where
  used : List Nat
  links : List (List Match)
  deriving DecidableEq

def Linked.at (state : Linked) (order : Nat) : List Match := state.links[order]?.getD []

def choose (state : Linked) (candidate : Candidate) : Linked :=
  if candidate.link.id ∈ state.used ∨ (state.at candidate.order).any candidate.link.overlaps then state
  else ⟨candidate.link.id :: state.used, state.links.modify candidate.order (· ++ [candidate.link])⟩

def linksOf (nodes : List TextNode) (terms : List GlossaryAutolinkTerm) : Linked :=
  ((candidates language search nodes terms).insertionSort Candidate.le).foldl choose
    ⟨[], nodes.map fun node => explicitMatches language node.data⟩

end

/-! ## Decoration -/

inductive Piece
  | text (shown : JsString)
  | anchor (link : Match) (shown : JsString)
  deriving DecidableEq

def Piece.shown : Piece → JsString
  | .text shown => shown
  | .anchor _ shown => shown

def piecesFrom (data : JsString) : Nat → List Match → List Piece
  | position, [] => [.text (data.drop position)]
  | position, link :: rest =>
    .text (slice data position link.start)
      :: .anchor link (link.label.getD (slice data link.start link.stop)) :: piecesFrom data link.stop rest

/-- A text node of the page, or the wrapper that stands for it. -/
inductive Decorated
  | plain (node : TextNode)
  | wrapper (pieces : List Piece) (node : TextNode)

def decorate (node : TextNode) (links : List Match) : Decorated :=
  if links = [] then .plain node
  else .wrapper (piecesFrom node.data 0 (links.insertionSort fun left right => left.start ≤ right.start)) node

def linkGlossaryContent (nodes : List TextNode) (terms : List GlossaryAutolinkTerm) : List Decorated :=
  List.zipWith decorate nodes (linksOf language scanning nodes terms).links

def Decorated.cleanup : Decorated → TextNode
  | .plain node => node
  | .wrapper _ node => node

end

end TsEpistle.Glossary.Autolinks
