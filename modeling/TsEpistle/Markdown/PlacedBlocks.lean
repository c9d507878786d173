import TsEpistle.Markdown.NumberedLines

/-! Blocks stand on the lines of their tokens, and a note loses those of its heading. -/

namespace TsEpistle.Markdown.Source
open Library List
open Discussions (slice)

/-! ## Blocks -/

section
variable {platform : Platform}

/-- The lines of a map in the text, which stands at an offset in the source; without a map, the lines around it. -/
def linesOf (raw : JsString) (offset : Nat) (token : Token) (enclosing : Span) : Span :=
  match token.map with
  | some (first, last) => ⟨offset + lineOffset raw first, offset + lineOffset raw last⟩
  | none => enclosing

variable (platform) in
/-- A block that is read of HTML in the lines of a token, or a block over the lines of a token whose children are such
blocks within it. -/
inductive Placed (source raw : JsString) (offset : Nat) (tokens : List Token) : Span → Block → Prop
  | html {enclosing : Span} {token : Token} {block : Block} (htoken : token ∈ tokens)
      (hblock : block ∈ platform.htmlBlocks
        (slice source ((linesOf raw offset token enclosing).start + token.startColumn)
          (linesOf raw offset token enclosing).stop)
        ((linesOf raw offset token enclosing).start + token.startColumn)) : Placed source raw offset tokens enclosing
          block
  | lines {enclosing : Span} {token : Token} {type : JsString} {text : Option JsString} {children : List Block}
      {level : Option Nat} {setext : Option Bool} {complete : Bool} (htoken : token ∈ tokens)
      (hchildren : ∀ child ∈ children, Placed source raw offset tokens (linesOf raw offset token enclosing) child) :
      Placed source raw offset tokens enclosing
        (.mk type (linesOf raw offset token enclosing) text children level setext complete)

theorem rangeOf_eq {raw : JsString} (hpaired : Paired raw) {token : Token}
    (hmap : ∀ first last, token.map = some (first, last) → first < last ∧ last ≤ (rawLines raw).length) (offset : Nat)
    (enclosing : Span) :
    rangeOf offset (lineStarts raw) raw.length token enclosing = linesOf raw offset token enclosing := by
  unfold rangeOf linesOf
  cases hlines : token.map with
  | none => rfl
  | some lines =>
    obtain ⟨first, last⟩ := lines
    obtain ⟨hless, hlast⟩ := hmap first last hlines
    have hstop : (lineStarts raw)[last]?.getD raw.length = lineOffset raw last := by
      rw [lineStarts_get hpaired]
      rcases Nat.lt_or_eq_of_le hlast with hlast | rfl
      · rw [if_pos hlast]
        rfl
      · rw [if_neg (Nat.lt_irrefl _), lineOffset_end]
        rfl
    dsimp only
    rw [hstop, lineStarts_get hpaired, if_pos (by omega)]
    rfl

theorem openBlock_eq (platform : Platform) (token : Token) (span : Span) (children : List Block)
    (before : Option Token) : ∃ type text level setext complete,
    openBlock platform token span children before = .mk type span text children level setext complete := by
  unfold openBlock
  split
  · exact ⟨_, _, _, _, _, rfl⟩
  · exact ⟨_, _, _, _, _, rfl⟩

/-- The reading never goes back. -/
theorem le_group (source : JsString) (tokens : List Token) (range : Token → Span → Span) (rounds : Nat)
    (closer : Option JsString) (enclosing : Span) (cursor : Nat) :
    cursor ≤ (group platform source tokens range rounds closer enclosing cursor).2 := by
  induction rounds generalizing closer enclosing cursor with
  | zero => exact le_rfl
  | succ rounds ih =>
    have hnext := fun closer enclosing => (Nat.le_succ cursor).trans (ih closer enclosing (cursor + 1))
    rw [group]
    cases tokens[cursor]? with
    | none => exact le_rfl
    | some token =>
      dsimp only
      split
      · exact Nat.le_succ cursor
      split
      · exact hnext ..
      split
      · exact hnext ..
      split
      · exact hnext ..
      split
      · exact (hnext ..).trans (ih ..)
      · exact hnext ..

/-- One round more than the tokens that are left is enough. -/
theorem group_rounds {source : JsString} {tokens : List Token} {range : Token → Span → Span} {rounds more cursor : Nat}
    (hle : rounds ≤ more) (h : tokens.length < cursor + rounds) (closer : Option JsString) (enclosing : Span) :
    group platform source tokens range more closer enclosing cursor
      = group platform source tokens range rounds closer enclosing cursor := by
  induction rounds generalizing more cursor closer enclosing with
  | zero =>
    have hnone : tokens[cursor]? = none := getElem?_eq_none (by omega)
    cases more with
    | zero => rfl
    | succ more => rw [group, group, hnone]
  | succ rounds ih =>
    cases more with
    | zero => omega
    | succ more =>
      have hrest : ∀ next, cursor < next → ∀ closer enclosing,
          group platform source tokens range more closer enclosing next
            = group platform source tokens range rounds closer enclosing next :=
        fun next hnext => ih (by omega) (by omega)
      rw [group, group]
      cases tokens[cursor]? with
      | none => rfl
      | some token =>
        simp only [hrest _ (Nat.lt_succ_self cursor),
          hrest _ (Nat.lt_of_succ_le (le_group source tokens range rounds _ _ (cursor + 1)))]

/-- The rounds of `tokenBlocks` are never used up. -/
theorem tokenBlocks_rounds {source : JsString} {tokens : List Token} {offset rawLength rounds : Nat}
    {starts : List Nat} (h : tokens.length < rounds) :
    tokenBlocks platform source tokens offset starts rawLength
      = (group platform source tokens (rangeOf offset starts rawLength) rounds none ⟨offset, offset + rawLength⟩ 0).1 :=
  congrArg Prod.fst (group_rounds h (by omega) ..).symm

theorem group_placed {source raw : JsString} {offset : Nat} {tokens : List Token} {range : Token → Span → Span}
    (hrange : ∀ token ∈ tokens, ∀ enclosing, range token enclosing = linesOf raw offset token enclosing) (rounds : Nat)
    (closer : Option JsString) (enclosing : Span) (cursor : Nat) :
    ∀ block ∈ (group platform source tokens range rounds closer enclosing cursor).1,
      Placed platform source raw offset tokens enclosing block := by
  induction rounds generalizing closer enclosing cursor with
  | zero => exact forall_mem_nil _
  | succ rounds ih =>
    rw [group]
    cases htoken : tokens[cursor]? with
    | none => exact forall_mem_nil _
    | some token =>
      have hmem := mem_of_getElem? htoken
      have hspan := hrange token hmem enclosing
      dsimp only
      split
      · exact forall_mem_nil _
      split
      · exact ih closer enclosing (cursor + 1)
      split
      · intro block hblock
        rcases mem_append.mp hblock with hblock | hblock
        · rw [hspan] at hblock
          exact .html hmem hblock
        · exact ih closer enclosing (cursor + 1) block hblock
      split
      · refine forall_mem_cons.mpr ⟨?_, ih closer enclosing (cursor + 1)⟩
        rw [hspan]
        exact .lines hmem (forall_mem_nil _)
      split
      · refine forall_mem_cons.mpr ⟨?_, ih closer enclosing _⟩
        rw [hspan]
        obtain ⟨type, text, level, setext, complete, hblock⟩ := openBlock_eq platform token
          (linesOf raw offset token enclosing)
          (group platform source tokens range rounds (some (closing token.type))
            (linesOf raw offset token enclosing)
            (cursor + 1)).1
          tokens[(group platform source tokens range rounds (some (closing token.type))
            (linesOf raw offset token enclosing) (cursor + 1)).2 - 2]?
        rw [hblock]
        exact .lines hmem (ih _ _ _)
      · exact ih closer enclosing (cursor + 1)

/-- The blocks of a text are placed on its lines. -/
theorem markdownBlocks_placed {source raw : JsString} {offset : Nat} (hpaired : Paired raw)
    (hnumbered : Numbered raw (platform.parseBlocks (replaceNul (withoutAllReturns raw)))) :
    ∀ block ∈ markdownBlocks platform source raw offset,
      Placed platform source raw offset (platform.parseBlocks (replaceNul (withoutAllReturns raw)))
        ⟨offset, offset + raw.length⟩ block := by
  unfold markdownBlocks
  split
  · exact forall_mem_nil _
  · refine group_placed (fun token htoken enclosing => ?_) _ _ _ _
    exact rangeOf_eq hpaired (hnumbered.lines token htoken) offset enclosing

/-! ## Notes -/

/-- The note without the lines of its heading: the other lines, without a line feed at the start. -/
theorem capture_heading {source : JsString} {first last : Nat} {inline : Token} (hpaired : Paired source)
    (hheading : firstHeading (platform.parseNote source) = some (some (first, last), some inline))
    (hless : first < last)
    (revision : Nat) :
    (captureNotePublication platform source revision).content =
      withoutFirstFeed (joinLines ((sourceLines source).take first ++ (sourceLines source).drop last)) := by
  unfold captureNotePublication
  rw [hheading]
  dsimp only
  rw [splitLines_eq hpaired, Nat.max_eq_right (Nat.le_of_lt hless)]

theorem firstHeading_mem {tokens : List Token} {lines : Nat × Nat} {inline : Option Token}
    (h : firstHeading tokens = some (some lines, inline)) : ∃ token ∈ tokens, token.map = some lines := by
  induction tokens with
  | nil => cases h
  | cons token rest ih =>
    rw [firstHeading] at h
    split at h
    · exact ⟨token, mem_cons_self, congrArg Prod.fst (Option.some.inj h)⟩
    · obtain ⟨found, hfound, hlines⟩ := ih h
      exact ⟨found, mem_cons_of_mem _ hfound, hlines⟩

end

/-- The tokens of a heading in the first line, and of a paragraph in another. -/
def noteTokens (line : Option Nat) : List Token :=
  [⟨js "heading_open", js "h1", 1, some (0, 1), [], js "#", 0, []⟩,
    ⟨js "inline", [], 0, some (0, 1), js "T", [], 0, [⟨js "text", js "T"⟩]⟩,
    ⟨js "heading_close", js "h1", -1, none, [], js "#", 0, []⟩]
  ++ match line with
    | some line =>
      [⟨js "paragraph_open", js "p", 1, some (line, line + 1), [], [], 0, []⟩,
        ⟨js "inline", [], 0, some (line, line + 1), js "b", [], 0, [⟨js "text", js "b"⟩]⟩,
        ⟨js "paragraph_close", js "p", -1, none, [], [], 0, []⟩]
    | none => []

def notePlatform (tokens : List Token) : Platform where
  parse := fun _ => tokens
  parseNote := fun _ => tokens
  parseBlocks := fun _ => tokens
  nfkd := id
  toLocaleLowerCase := fun text => text.map fun unit => if 65 ≤ unit ∧ unit ≤ 90 then unit + 32 else unit
  isLetterOrNumber := fun character => character.all fun unit => 97 ≤ unit && unit ≤ 122
  sha256 := fun _ => List.replicate 64 97
  htmlBlocks := fun _ _ => []
  bounded := fun _ => true

theorem numbered_of {text : JsString} {tokens : List Token} {n : Nat}
    (hheadings : (tokens.filterMap headingLine).Pairwise (· < ·))
    (hlines : ∀ token ∈ tokens, ∀ lines ∈ token.map.toList, lines.1 < lines.2 ∧ lines.2 ≤ n)
    (hn : n ≤ (rawLines text).length) : Numbered text tokens := by
  refine ⟨hheadings, fun token htoken first last hmap => ?_⟩
  obtain ⟨hlt, hle⟩ := hlines token htoken (first, last) (by simp [hmap])
  exact ⟨hlt, hle.trans hn⟩

theorem noteTokens_numbered (text : JsString) : Numbered text (noteTokens none) :=
  numbered_of (by decide +kernel) (by decide +kernel) (length_pos_of_ne_nil (rawLines_ne_nil text))

/-- The tokens of a second heading in the third line. -/
def sectionTokens : List Token :=
  noteTokens none ++
    [⟨js "heading_open", js "h2", 1, some (2, 3), [], js "##", 0, []⟩,
      ⟨js "inline", [], 0, some (2, 3), js "U", [], 0, [⟨js "text", js "U"⟩]⟩,
      ⟨js "heading_close", js "h2", -1, none, [], js "##", 0, []⟩]

/-- A parser that reads two headings in a text of three lines. -/
def parseSections (text : JsString) : List Token :=
  if 3 ≤ (rawLines text).length then sectionTokens else noteTokens none

theorem parseSections_numbered (text : JsString) : Numbered text (parseSections text) := by
  unfold parseSections
  split
  · exact numbered_of (by decide +kernel) (by decide +kernel : ∀ token ∈ sectionTokens, ∀ lines ∈ token.map.toList,
      lines.1 < lines.2 ∧ lines.2 ≤ 3) ‹_›
  · exact noteTokens_numbered text

end TsEpistle.Markdown.Source
