import TsEpistle.Markdown.SourceLines

/-! The lines of a text, and the sections that stand on them. -/

namespace TsEpistle.Markdown.Source
open Library List
open Pages (trim)

/-! ## Lines of a text -/

/-- A line ends behind a line feed, and behind a return that no line feed follows. -/
def endsLine (unit : UInt16) (rest : JsString) : Bool := unit = 10 || (unit = 13 && rest.head? ≠ some 10)

/-- The lines of a text, each with its end. -/
def rawLines : JsString → List JsString
  | [] => [[]]
  | unit :: rest =>
    if endsLine unit rest then [unit] :: rawLines rest else (rawLines rest).modifyHead (unit :: ·)

/-- A line without its end. -/
def lineContent (line : JsString) : JsString := line.takeWhile fun unit => unit ≠ 10 && unit ≠ 13

/-- The lines that the parser numbers. -/
def sourceLines (text : JsString) : List JsString := (rawLines text).map lineContent

/-- Where a line starts in the text; the number of the lines stands for the end. -/
def lineOffset (text : JsString) (line : Nat) : Nat := ((rawLines text).take line).flatten.length

/-- Each return of the text stands before a line feed. -/
def Paired : JsString → Prop
  | [] => True
  | unit :: rest => (unit = 13 → rest.head? = some 10) ∧ Paired rest

instance : DecidablePred Paired := fun text => by
  induction text with
  | nil => exact .isTrue trivial
  | cons unit rest ih => exact inferInstanceAs (Decidable (_ ∧ _))

theorem splitOn_cons (unit : UInt16) (rest : JsString) :
    (unit :: rest).splitOn 10
      = if unit = 10 then [] :: rest.splitOn 10 else (rest.splitOn 10).modifyHead (unit :: ·) := by
  rw [splitOn_eq_splitOnP, splitOn_eq_splitOnP, splitOnP_cons_eq_if_modifyHead]
  by_cases hfeed : unit = 10
  · rw [if_pos (by simpa using hfeed), if_pos hfeed]
  · rw [if_neg (by simpa using hfeed), if_neg hfeed]

theorem rawLines_ne_nil (text : JsString) : rawLines text ≠ [] := by
  induction text with
  | nil => exact cons_ne_nil _ _
  | cons unit rest ih =>
    rw [rawLines]
    split
    · exact cons_ne_nil _ _
    · cases hlines : rawLines rest with
      | nil => exact absurd hlines ih
      | cons line lines => exact cons_ne_nil _ _

/-- The lines cover the text. -/
theorem flatten_rawLines (text : JsString) : (rawLines text).flatten = text := by
  induction text with
  | nil => rfl
  | cons unit rest ih =>
    rw [rawLines]
    split
    · rw [flatten_cons, ih]
      rfl
    · cases hlines : rawLines rest with
      | nil => exact absurd hlines (rawLines_ne_nil rest)
      | cons line lines =>
        rw [hlines] at ih
        rw [modifyHead_cons, flatten_cons, cons_append, ← flatten_cons, ih]

/-- What the parser reads has these lines. -/
theorem splitOn_withoutAllReturns (text : JsString) : (withoutAllReturns text).splitOn 10 = sourceLines text := by
  induction text with
  | nil => rfl
  | cons unit rest ih =>
    rw [withoutAllReturns, sourceLines, rawLines]
    by_cases hreturn : unit = 13
    · subst hreturn
      rw [if_pos rfl]
      by_cases hfeed : rest.head? = some 10
      · -- the return belongs to the line feed behind it
        rw [if_pos hfeed, if_neg (by simp [endsLine, hfeed]), ih, sourceLines]
        obtain ⟨rest, rfl⟩ : ∃ more, rest = 10 :: more := by
          cases rest with
          | nil => cases hfeed
          | cons first more => exact ⟨more, by rw [Option.some.inj hfeed]⟩
        rw [rawLines, if_pos (by rfl)]
        rfl
      · rw [if_neg hfeed, if_pos (by simp [endsLine, hfeed]), splitOn_cons, if_pos rfl, ih]
        rfl
    · rw [if_neg hreturn, splitOn_cons, ih]
      by_cases hfeed : unit = 10
      · subst hfeed
        rw [if_pos rfl, if_pos (by rfl)]
        rfl
      · rw [if_neg hfeed, if_neg (by simp [endsLine, hreturn, hfeed]), sourceLines]
        cases hlines : rawLines rest with
        | nil => exact absurd hlines (rawLines_ne_nil rest)
        | cons line lines =>
          rw [map_cons, modifyHead_cons, modifyHead_cons, map_cons, lineContent, lineContent,
            takeWhile_cons, if_pos (by simp [hreturn, hfeed])]

variable {text : JsString}

theorem withoutReturns_eq (h : Paired text) : withoutReturns text = withoutAllReturns text := by
  induction text with
  | nil => rfl
  | cons unit rest ih =>
    obtain ⟨hunit, hrest⟩ := h
    rw [withoutReturns, withoutAllReturns, ih hrest]
    by_cases hreturn : unit = 13
    · rw [if_pos ⟨hreturn, hunit hreturn⟩, if_pos hreturn, if_pos (hunit hreturn)]
    · rw [if_neg fun hboth => hreturn hboth.1, if_neg hreturn]

theorem splitLines_eq (h : Paired text) : splitLines text = sourceLines text := by
  rw [splitLines, withoutReturns_eq h, splitOn_withoutAllReturns]

/-- The starts of lines one behind the other. -/
def startsFrom : Nat → List JsString → List Nat
  | _, [] => []
  | start, line :: lines => start :: startsFrom (start + line.length) lines

theorem startsFrom_get (start : Nat) (lines : List JsString) (k : Nat) :
    (startsFrom start lines)[k]? = if k < lines.length then some (start + (lines.take k).flatten.length) else none := by
  induction lines generalizing start k with
  | nil => simp [startsFrom]
  | cons line lines ih =>
    cases k with
    | zero => simp [startsFrom]
    | succ k =>
      rw [startsFrom, getElem?_cons_succ, ih, length_cons, take_succ_cons, flatten_cons, length_append, ← Nat.add_assoc]
      simp only [Nat.add_lt_add_iff_right]

theorem startsFrom_rawLines (h : Paired text) (start : Nat) :
    startsFrom start (rawLines text) = start :: lineStartsFrom start text := by
  induction text generalizing start with
  | nil => rfl
  | cons unit rest ih =>
    obtain ⟨hunit, hrest⟩ := h
    rw [rawLines, lineStartsFrom]
    by_cases hfeed : unit = 10
    · rw [if_pos (by simp [endsLine, hfeed]), if_pos hfeed, startsFrom, length_singleton, ih hrest]
    · have hends : endsLine unit rest = false := by
        rw [endsLine, Bool.or_eq_false_iff, Bool.and_eq_false_iff]
        refine ⟨decide_eq_false hfeed, ?_⟩
        by_cases hreturn : unit = 13
        · exact .inr (decide_eq_false (not_not.mpr (hunit hreturn)))
        · exact .inl (decide_eq_false hreturn)
      rw [if_neg (by rw [hends]; exact Bool.false_ne_true), if_neg hfeed]
      have hstarts := ih hrest (start + 1)
      cases hlines : rawLines rest with
      | nil => exact absurd hlines (rawLines_ne_nil rest)
      | cons line lines =>
        rw [hlines, startsFrom] at hstarts
        rw [modifyHead_cons, startsFrom, length_cons, ← (List.cons.inj hstarts).2, Nat.add_assoc, Nat.add_comm 1]

/-- The starts of the lines are their offsets, and behind the last there is none. -/
theorem lineStarts_get (h : Paired text) (line : Nat) :
    (lineStarts text)[line]? = if line < (rawLines text).length then some (lineOffset text line) else none := by
  have hstarts := startsFrom_get 0 (rawLines text) line
  rw [startsFrom_rawLines h] at hstarts
  rw [lineStarts, hstarts, lineOffset, Nat.zero_add]

theorem lineOffset_end (text : JsString) : lineOffset text (rawLines text).length = text.length := by
  rw [lineOffset, take_length, flatten_rawLines]

/-! ## Sections -/

/-- The lines from a heading on that belong to it: the last of them is not blank, and all behind it are. -/
structure Covers (lines : List JsString) (index bound stop : Nat) : Prop where
  after : index < stop
  within : stop ≤ bound
  blanks : ∀ k, stop ≤ k → k < bound → lines[k]?.map trim = some []
  last : stop = index + 1 ∨ ∃ line, lines[stop - 1]? = some line ∧ trim line ≠ []

variable {lines : List JsString}

theorem withoutBlankEnd_covers {index bound : Nat} (hindex : index < bound) (hbound : bound ≤ lines.length) :
    Covers lines index bound (withoutBlankEnd lines index bound) := by
  induction bound with
  | zero => omega
  | succ bound ih =>
    rw [withoutBlankEnd]
    split
    · rename_i hblank
      obtain ⟨hafter, hwithin, hblanks, hlast⟩ := ih hblank.1 (by omega)
      refine ⟨hafter, by omega, fun k hk hless => ?_, hlast⟩
      rcases Nat.lt_succ_iff_lt_or_eq.mp hless with hless | rfl
      · exact hblanks k hk hless
      · exact hblank.2
    · rename_i hstop
      refine ⟨hindex, le_refl _, fun k hk hless => by omega, ?_⟩
      rcases Nat.lt_succ_iff_lt_or_eq.mp hindex with hless | rfl
      · have hline := getElem?_eq_getElem (l := lines) (i := bound) (by omega)
        refine .inr ⟨_, hline, fun hblank => hstop ⟨hless, ?_⟩⟩
        rw [hline, Option.map_some, hblank]
      · exact .inl rfl

/-- The line behind a section: that of the next heading, or the end. -/
def boundOf (lines : List JsString) (rest : List Heading) : Nat := (rest.head?.map Heading.index).getD lines.length

/-- The section of a heading, over the lines up to `stop`. -/
structure SectionOf (digest : JsString → JsString) (lines : List JsString) (heading : Heading) (bound : Nat)
    (part : PageSection) : Prop where
  title : part.title = heading.title
  level : part.level = heading.level
  start : part.startLine = heading.index + 1
  covers : Covers lines heading.index bound part.endLine
  sha256 : part.sha256 = digest (joinLines ((lines.take part.endLine).drop heading.index))

inductive SectionsOf (digest : JsString → JsString) (lines : List JsString) : List Heading → List PageSection → Prop
  | nil : SectionsOf digest lines [] []
  | cons {heading : Heading} {rest : List Heading} {part : PageSection} {parts : List PageSection}
      (hpart : SectionOf digest lines heading (boundOf lines rest) part) (hparts : SectionsOf digest lines rest parts) :
      SectionsOf digest lines (heading :: rest) (part :: parts)

/-- The headings stand on lines of the text, one below the other. -/
def Descending (lines : List JsString) (headings : List Heading) : Prop :=
  (headings.map Heading.index).Pairwise (· < ·) ∧ ∀ heading ∈ headings, heading.index < lines.length

theorem Descending.rest {heading : Heading} {rest : List Heading}
    (h : Descending lines (heading :: rest)) : Descending lines rest :=
  ⟨(pairwise_cons.mp h.1).2, (forall_mem_cons.mp h.2).2⟩

theorem Descending.bound {heading : Heading} {rest : List Heading} (h : Descending lines (heading :: rest)) :
    heading.index < boundOf lines rest ∧ boundOf lines rest ≤ lines.length := by
  obtain ⟨hincreasing, hlines⟩ := h
  cases rest with
  | nil => exact ⟨hlines heading mem_cons_self, le_refl _⟩
  | cons next rest =>
    rw [map_cons, map_cons, pairwise_cons] at hincreasing
    exact ⟨hincreasing.1 next.index mem_cons_self, Nat.le_of_lt (hlines next (mem_cons_of_mem _ mem_cons_self))⟩

section
variable {platform : Platform}

theorem sectionsFrom_of (platform : Platform) {headings : List Heading}
    (h : Descending lines headings) (offset : Nat) (usedIds : List JsString) :
    SectionsOf platform.sha256 lines headings (sectionsFrom platform lines offset usedIds headings) := by
  induction headings generalizing offset usedIds with
  | nil => exact .nil
  | cons heading rest ih =>
    obtain ⟨hindex, hbound⟩ := h.bound
    have hcovers := withoutBlankEnd_covers hindex hbound
    have hend : max (heading.index + 1) (withoutBlankEnd lines heading.index (boundOf lines rest)) =
        withoutBlankEnd lines heading.index (boundOf lines rest) := Nat.max_eq_right hcovers.after
    exact .cons ⟨rfl, rfl, rfl, by rw [← hend] at hcovers; exact hcovers,
      congrArg (fun stop => platform.sha256 (joinLines ((lines.take stop).drop heading.index))) hend.symm⟩
        (ih h.rest _ _)

theorem SectionsOf.start {digest : JsString → JsString} {headings : List Heading}
    {parts : List PageSection} (h : SectionsOf digest lines headings parts) :
    ∀ part ∈ parts, ∃ heading ∈ headings, part.startLine = heading.index + 1 := by
  induction h with
  | nil => exact forall_mem_nil _
  | cons hpart _ ih =>
    refine forall_mem_cons.mpr ⟨⟨_, mem_cons_self, hpart.start⟩, fun part hmem => ?_⟩
    obtain ⟨heading, hheading, hstart⟩ := ih part hmem
    exact ⟨heading, mem_cons_of_mem _ hheading, hstart⟩

/-- Sections stand one below the other. -/
theorem SectionsOf.disjoint {digest : JsString → JsString} {headings : List Heading} {parts : List PageSection}
    (h : SectionsOf digest lines headings parts) (hdescending : Descending lines headings) :
    parts.Pairwise fun part later => part.endLine < later.startLine := by
  induction h with
  | nil => exact .nil
  | @cons heading rest part parts hpart hparts ih =>
    refine pairwise_cons.mpr ⟨fun later hlater => ?_, ih hdescending.rest⟩
    obtain ⟨next, hnext, hstart⟩ := hparts.start later hlater
    have hwithin := hpart.covers.within
    cases rest with
    | nil => cases hnext
    | cons first rest =>
      have hfirst : boundOf lines (first :: rest) = first.index := rfl
      rcases mem_cons.mp hnext with rfl | hnext
      · omega
      · have hincreasing := hdescending.rest.1
        rw [map_cons, pairwise_cons] at hincreasing
        have hless := hincreasing.1 next.index (mem_map_of_mem hnext)
        omega

/-! ## Ids -/

theorem occurrenceId_injective {base : JsString} {m n : Nat} (h : occurrenceId base m = occurrenceId base n) :
    m = n := by
  have hdigits : ∀ before number, ((before ++ 45 :: decimal number).reverse.takeWhile (· ≠ 45)).reverse
    = decimal number := by
    intro before number
    have hunits : ∀ unit ∈ (decimal number).reverse, (decide (unit ≠ 45)) = true := by
      intro unit hunit
      have hrange := decimal_units number unit (mem_reverse.mp hunit)
      refine decide_eq_true ?_
      rintro rfl
      have hvalue : (45 : UInt16).toNat = 45 := rfl
      omega
    rw [reverse_append, reverse_cons, append_assoc, takeWhile_append_of_pos hunits,
      singleton_append, takeWhile_cons, if_neg (by decide), append_nil, reverse_reverse]
  have hsame := congrArg (fun id : JsString => (id.reverse.takeWhile (· ≠ 45)).reverse) h
  simp only [occurrenceId, hdigits] at hsame
  rw [← decimalValue_decimal m, hsame, decimalValue_decimal]

theorem uniqueIdFrom_used {usedIds : List JsString} {base id : JsString} {rounds occurrence : Nat}
    (h : uniqueIdFrom usedIds base rounds occurrence id ∈ usedIds) : id ∈ usedIds := by
  cases rounds with
  | zero => exact h
  | succ rounds =>
    rw [uniqueIdFrom] at h
    split at h
    · assumption
    · exact h

/-- An id that is still used has all its occurrences used. -/
theorem uniqueIdFrom_occurrences {usedIds : List JsString} {base id : JsString} {rounds occurrence : Nat}
    (h : uniqueIdFrom usedIds base rounds occurrence id ∈ usedIds) :
    ∀ i < rounds, occurrenceId base (occurrence + i) ∈ usedIds := by
  induction rounds generalizing occurrence id with
  | zero => exact fun i hi => absurd hi (Nat.not_lt_zero i)
  | succ rounds ih =>
    have hid := uniqueIdFrom_used h
    rw [uniqueIdFrom, if_pos hid] at h
    intro i hi
    cases i with
    | zero => exact uniqueIdFrom_used h
    | succ i =>
      have hlater := ih h i (by omega)
      rw [Nat.add_assoc, Nat.add_comm 1] at hlater
      exact hlater

theorem uniqueId_fresh (usedIds : List JsString) (base : JsString) : uniqueId usedIds base ∉ usedIds := by
  intro h
  have hused := uniqueIdFrom_occurrences h
  have hnodup : ((List.range (usedIds.length + 1)).map fun i => occurrenceId base (2 + i)).Nodup := by
    refine Nodup.map (fun i k hsame => ?_) nodup_range
    have hnumbers := occurrenceId_injective hsame
    omega
  have hsubset : ((List.range (usedIds.length + 1)).map fun i => occurrenceId base (2 + i)) ⊆ usedIds := by
    intro id hid
    obtain ⟨i, hi, rfl⟩ := mem_map.mp hid
    exact hused i (mem_range.mp hi)
  have hlength := (subperm_of_subset hnodup hsubset).length_le
  rw [length_map, length_range] at hlength
  omega

theorem sectionsFrom_ids (lines : List JsString) (headings : List Heading) (offset : Nat) (usedIds : List JsString) :
    ((sectionsFrom platform lines offset usedIds headings).map PageSection.id).Nodup
      ∧ ∀ part ∈ sectionsFrom platform lines offset usedIds headings, part.id ∉ usedIds := by
  induction headings generalizing offset usedIds with
  | nil => exact ⟨nodup_nil, forall_mem_nil _⟩
  | cons heading rest ih =>
    rw [sectionsFrom]
    obtain ⟨hnodup, hfresh⟩ := ih (offset + 1)
      (usedIds ++ [uniqueId usedIds (slug platform heading.title (js "section-" ++ decimal (offset + 1)))])
    refine ⟨nodup_cons.mpr ⟨fun hmem => ?_, hnodup⟩,
      forall_mem_cons.mpr ⟨uniqueId_fresh _ _, fun part hpart hused => ?_⟩⟩
    · obtain ⟨part, hpart, hsame⟩ := mem_map.mp hmem
      refine hfresh part hpart (mem_append_right _ ?_)
      rw [hsame]
      exact mem_singleton_self _
    · exact hfresh part hpart (mem_append_left _ hused)

/-! ## Numbered tokens -/

/-- The line of a heading token. -/
def headingLine (token : Token) : Option Nat := if token.type = js "heading_open" then token.map.map Prod.fst else none

/-- The parser numbers lines of the text: each map is one of lines, and headings follow each other. -/
structure Numbered (text : JsString) (tokens : List Token) : Prop where
  headings : (tokens.filterMap headingLine).Pairwise (· < ·)
  lines : ∀ token ∈ tokens, ∀ first last, token.map = some (first, last) → first < last ∧ last ≤ (rawLines text).length

theorem headingsFrom_lines (headings : List Heading) (tokens : List Token) :
    ∃ listed, (headingsFrom headings tokens).map Heading.index = headings.map Heading.index ++ listed
      ∧ listed.Sublist (tokens.filterMap headingLine) := by
  induction tokens generalizing headings with
  | nil => exact ⟨[], (append_nil _).symm, Sublist.refl _⟩
  | cons token rest ih =>
    have hskip : ∃ listed, (headingsFrom headings rest).map Heading.index = headings.map Heading.index ++ listed
        ∧ listed.Sublist ((token :: rest).filterMap headingLine) := by
      obtain ⟨listed, hlisted, hsub⟩ := ih headings
      exact ⟨listed, hlisted, hsub.trans ((sublist_cons_self token rest).filterMap _)⟩
    rw [headingsFrom]
    split
    · rename_i hheading
      dsimp only
      split
      · rename_i index last level hmap hlevel
        split
        · exact hskip
        · obtain ⟨listed, hlisted, hsub⟩ := ih (headings ++ [⟨index, level,
            clean ((rest.head?.map Token.content).getD []) 512⟩])
          refine ⟨index :: listed, ?_, ?_⟩
          · rw [hlisted, map_append, append_assoc]
            rfl
          · have hline : headingLine token = some index := by
              rw [headingLine, if_pos hheading.1, hmap]
              rfl
            rw [filterMap_cons_some hline]
            exact hsub.cons_cons index
      · exact hskip
    · exact hskip

theorem Numbered.descending {tokens : List Token} (h : Numbered text tokens) :
    Descending (sourceLines text) (headingsFrom [] tokens) := by
  obtain ⟨listed, hlisted, hsub⟩ := headingsFrom_lines [] tokens
  rw [map_nil, nil_append] at hlisted
  refine ⟨?_, fun heading hheading => ?_⟩
  · rw [hlisted]
    exact h.headings.sublist hsub
  · have hmem : heading.index ∈ listed := by
      rw [← hlisted]
      exact mem_map_of_mem hheading
    obtain ⟨token, htoken, hline⟩ := mem_filterMap.mp (hsub.mem hmem)
    unfold headingLine at hline
    split at hline
    · obtain ⟨⟨first, last⟩, hmap, hfirst⟩ := Option.map_eq_some_iff.mp hline
      have hbounds := h.lines token htoken first last hmap
      dsimp only at hfirst
      rw [sourceLines, length_map]
      omega
    · cases hline

end

end TsEpistle.Markdown.Source
