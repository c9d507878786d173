import TsEpistle.Discussions.Anchors
import TsEpistle.Library.Decimal

/-! What is made of the line numbers of Markdown tokens: the sections of a page (`server/knowledge/projection.ts`), the
blocks of a source document (`server/agents/providers/source-document.ts`), and the note that is published without its
heading (`shared/live-note-publication.ts`). The tokens are what the Markdown parser answers with. -/

namespace TsEpistle.Markdown.Source
open Library
open Discussions (characters collapse slice)
open Pages (trim)

/-! ## Lines -/

/-- `replaceAll('\r\n', '\n')` -/
def withoutReturns : JsString → JsString
  | [] => []
  | unit :: rest =>
    if unit = 13 ∧ rest.head? = some 10 then withoutReturns rest else unit :: withoutReturns rest

/-- `replaceAll('\r\n', '\n').replaceAll('\r', '\n')`: what the parser reads. -/
def withoutAllReturns : JsString → JsString
  | [] => []
  | unit :: rest =>
    if unit = 13 then
      if rest.head? = some 10 then withoutAllReturns rest else 10 :: withoutAllReturns rest
    else unit :: withoutAllReturns rest

/-- `replaceAll('\r\n', '\n').split('\n')`, and `split(/\r?\n/u)`. -/
def splitLines (text : JsString) : List JsString := (withoutReturns text).splitOn 10

def joinLines (lines : List JsString) : JsString := [10].intercalate lines

def lineStartsFrom : Nat → JsString → List Nat
  | _, [] => []
  | index, unit :: rest =>
    if unit = 10 then (index + 1) :: lineStartsFrom (index + 1) rest else lineStartsFrom (index + 1) rest

def lineStarts (text : JsString) : List Nat := 0 :: lineStartsFrom 0 text

/-! ## Tokens -/

structure InlineToken where
  (type content : JsString)

structure Token where
  (type tag : JsString)
  nesting : Int
  map : Option (Nat × Nat)
  (content markup : JsString)
  startColumn : Nat
  children : List InlineToken

structure Span where
  (start stop : Nat)
  deriving DecidableEq

inductive Block
  | mk (type : JsString) (span : Span) (text : Option JsString) (children : List Block) (level : Option Nat)
      (setext : Option Bool) (complete : Bool)

/-- The parsers, the classes and forms of characters, the digest of a text, the blocks that are read of HTML at an
offset (over the tree of the HTML parser), and whether a span of the source is complete. -/
structure Platform where
  (parse parseNote parseBlocks : JsString → List Token)
  (nfkd toLocaleLowerCase : JsString → JsString)
  isLetterOrNumber : JsString → Bool
  sha256 : JsString → JsString
  htmlBlocks : JsString → Nat → List Block
  bounded : Span → Bool

/-- The level of a heading tag, `h1` to `h6`. -/
def levelOf (tag : JsString) : Option Nat :=
  match tag.drop 1 with
  | [unit] => if 49 ≤ unit.toNat ∧ unit.toNat ≤ 54 then some (unit.toNat - 48) else none
  | _ => none

section
variable (platform : Platform)

/-! ## Sections of a page -/

structure Heading where
  (index level : Nat)
  title : JsString

structure PageSection where
  (id title : JsString)
  (level startLine endLine : Nat)
  sha256 : JsString
  deriving DecidableEq

/-- Whole characters up to a number of units. -/
def boundedCharacters (maximum : Nat) : JsString → List JsString → JsString
  | result, [] => result
  | result, character :: rest =>
    if maximum < result.length + character.length then result else
      boundedCharacters maximum (result ++ character) rest

def clean (value : JsString) (maximum : Nat) : JsString :=
  boundedCharacters maximum [] (characters (trim (collapse value)))

/-- `replace(/[^\p{Letter}\p{Number}]+/gu, '-')` behind such a character or not. -/
def hyphenateFrom : Bool → List JsString → JsString
  | _, [] => []
  | inRun, character :: rest =>
    if platform.isLetterOrNumber character then character ++ hyphenateFrom false rest
    else if inRun then hyphenateFrom true rest
    else 45 :: hyphenateFrom true rest

/-- `replace(/^-+|-+$/gu, '')` -/
def trimHyphens (text : JsString) : JsString :=
  ((text.dropWhile (· = 45)).reverse.dropWhile (· = 45)).reverse

def slug (value fallback : JsString) : JsString :=
  let normalized := trimHyphens (hyphenateFrom platform false
    (characters (platform.toLocaleLowerCase (platform.nfkd value))))
  (if normalized.isEmpty then fallback else normalized).take 255

/-- The headings that are listed: those with a line, a title and a level, up to a hundred. -/
def headingsFrom : List Heading → List Token → List Heading
  | headings, [] => headings
  | headings, token :: rest =>
    if token.type = js "heading_open" ∧ token.map.isSome ∧ headings.length < 100 then
      let title := clean ((rest.head?.map Token.content).getD []) 512
      match token.map, levelOf token.tag with
      | some (index, _), some level =>
        if title.isEmpty then headingsFrom headings rest else
          headingsFrom (headings ++ [⟨index, level, title⟩]) rest
      | _, _ => headingsFrom headings rest
    else headingsFrom headings rest

def occurrenceId (base : JsString) (occurrence : Nat) : JsString :=
  base.take (255 - (45 :: decimal occurrence).length) ++ 45 :: decimal occurrence

/-- The loop over the occurrences of an id, with a bound on the rounds. -/
def uniqueIdFrom (usedIds : List JsString) (base : JsString) : Nat → Nat → JsString → JsString
  | 0, _, id => id
  | rounds + 1, occurrence, id =>
    if id ∈ usedIds then uniqueIdFrom usedIds base rounds (occurrence + 1) (occurrenceId base occurrence) else id

def uniqueId (usedIds : List JsString) (base : JsString) : JsString :=
  uniqueIdFrom usedIds base (usedIds.length + 1) 2 base

/-- The loop over the blank lines before the end of a section; `stop` is the line behind `endIndex`. -/
def withoutBlankEnd (lines : List JsString) (index : Nat) : Nat → Nat
  | 0 => 0
  | stop + 1 =>
    if index < stop ∧ lines[stop]?.map trim = some [] then withoutBlankEnd lines index stop else stop + 1

def sectionsFrom (lines : List JsString) : Nat → List JsString → List Heading → List PageSection
  | _, _, [] => []
  | offset, usedIds, heading :: rest =>
    let id := uniqueId usedIds (slug platform heading.title (js "section-" ++ decimal (offset + 1)))
    let stop := withoutBlankEnd lines heading.index ((rest.head?.map Heading.index).getD lines.length)
    { id := id
      title := heading.title
      level := heading.level
      startLine := heading.index + 1
      endLine := max (heading.index + 1) stop
      sha256 := platform.sha256 (joinLines ((lines.take stop).drop heading.index)) }
    :: sectionsFrom lines (offset + 1) (usedIds ++ [id]) rest

/-- The sections of `markdownProjection`; its links are left out. -/
def markdownSections (content : JsString) : List PageSection :=
  sectionsFrom platform (splitLines content) 0 [] (headingsFrom [] (platform.parse content))

/-! ## Blocks of a source document -/

/-- The type of an opening token without `_open`. -/
def opened (type : JsString) : JsString :=
  if endsWith type (js "_open") then type.take (type.length - 5) else type

def closing (type : JsString) : JsString :=
  if endsWith type (js "_open") then type.take (type.length - 5) ++ js "_close" else type

def rangeOf (offset : Nat) (starts : List Nat) (rawLength : Nat) (token : Token) (enclosing : Span) : Span :=
  match token.map with
  | some (first, last) => ⟨offset + starts[first]?.getD 0, offset + starts[last]?.getD rawLength⟩
  | none => enclosing

/-- The blocks whose text is that of their inline token. -/
def hasInline (type : JsString) : Bool :=
  type = js "paragraph_open" || type = js "heading_open" || type = js "th_open" || type = js "td_open"

def openBlock (token : Token) (span : Span) (children : List Block) (before : Option Token) : Block :=
  if hasInline token.type then
    .mk (opened token.type) span
      (some (match before with
        | some inline => if inline.type = js "inline" then inline.content else []
        | none => []))
      children (if token.type = js "heading_open" then levelOf token.tag else none)
      (some (token.markup = js "=" || token.markup = js "-")) (platform.bounded span)
  else .mk (opened token.type) span none children none none (platform.bounded span)

section
variable (source : JsString) (tokens : List Token) (range : Token → Span → Span)

/-- The blocks from a token on, up to the token that closes them, and where the reading goes on. -/
def group : Nat → Option JsString → Span → Nat → List Block × Nat
  | 0, _, _, cursor => ([], cursor)
  | rounds + 1, closer, enclosing, cursor =>
    match tokens[cursor]? with
    | none => ([], cursor)
    | some token =>
      if closer = some token.type then ([], cursor + 1)
      else if token.type = js "inline" then group rounds closer enclosing (cursor + 1)
      else if token.type = js "html_block" ∨ token.type = js "source_html" then
        let span := range token enclosing
        let start := span.start + token.startColumn
        let rest := group rounds closer enclosing (cursor + 1)
        (platform.htmlBlocks (slice source start span.stop) start ++ rest.1, rest.2)
      else if token.type = js "fence" ∨ token.type = js "code_block" then
        let span := range token enclosing
        let rest := group rounds closer enclosing (cursor + 1)
        (.mk (js "code") span (some (slice source span.start span.stop)) [] none none
          (platform.bounded span) :: rest.1,
          rest.2)
      else if token.nesting = 1 then
        let span := range token enclosing
        let inner := group rounds (some (closing token.type)) span (cursor + 1)
        let rest := group rounds closer enclosing inner.2
        (openBlock platform token span inner.1 tokens[inner.2 - 2]? :: rest.1, rest.2)
      else group rounds closer enclosing (cursor + 1)

end

def tokenBlocks (source : JsString) (tokens : List Token) (offset : Nat) (starts : List Nat) (rawLength : Nat) :
    List Block :=
  (group platform source tokens (rangeOf offset starts rawLength) (tokens.length + 1) none
    ⟨offset, offset + rawLength⟩ 0).1

def replaceNul (text : JsString) : JsString := text.map fun unit => if unit = 0 then 0xfffd else unit

def markdownBlocks (source raw : JsString) (offset : Nat) : List Block :=
  if trim raw = [] then []
  else tokenBlocks platform source (platform.parseBlocks (replaceNul (withoutAllReturns raw))) offset
    (lineStarts raw) raw.length

/-! ## Notes -/

structure NotePublicationCapture where
  revision : Nat
  (title content : JsString)
  deriving DecidableEq

def inlineTitle (token : InlineToken) : JsString :=
  if token.type = js "image" ∨ token.type = js "text" ∨ token.type = js "code_inline" then token.content
  else if token.type = js "softbreak" then [32]
  else []

/-- The first heading of level one, with the lines of its map, and the token behind it. -/
def firstHeading : List Token → Option (Option (Nat × Nat) × Option Token)
  | [] => none
  | token :: rest =>
    if token.type = js "heading_open" ∧ token.tag = js "h1" then some (token.map, rest.head?) else firstHeading rest

/-- `replace(/^\n/u, '')` -/
def withoutFirstFeed (text : JsString) : JsString := if text.head? = some 10 then text.tail else text

def captureNotePublication (source : JsString) (revision : Nat) : NotePublicationCapture :=
  match firstHeading (platform.parseNote source) with
  | some (some (first, last), some inline) =>
    ⟨revision, trim (inline.children.flatMap inlineTitle),
      withoutFirstFeed (joinLines ((splitLines source).take first ++ (splitLines source).drop (max first last)))⟩
  | _ => ⟨revision, [], source⟩

end

end TsEpistle.Markdown.Source
