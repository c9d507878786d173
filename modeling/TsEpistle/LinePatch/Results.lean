import TsEpistle.LinePatch.Splice

/-! The text of an accepted patch: the splice joined by the line ending of the source. Read again,
it has these lines and this final newline where a text with them exists. -/

namespace TsEpistle.LinePatch
open Library Checked List

/-! ## Joined lines -/

variable {lines : List JsString}

theorem joinLines_cons (line : JsString) (h : lines ≠ []) :
    joinLines (line :: lines) = line ++ 10 :: joinLines lines := by
  cases lines with
  | nil => exact absurd rfl h
  | cons next lines => simp [joinLines]

theorem joinLines_concat (h : lines ≠ []) (last : JsString) :
    joinLines (lines ++ [last]) = joinLines lines ++ 10 :: last := by
  induction lines with
  | nil => exact absurd rfl h
  | cons line lines ih =>
    rw [cons_append, joinLines_cons line (by simp)]
    by_cases hnil : lines = []
    · simp [hnil, joinLines]
    · rw [ih hnil, joinLines_cons line hnil]
      simp

theorem splitOn_joinLines (hclean : ∀ line ∈ lines, 10 ∉ line) (h : lines ≠ []) :
    (joinLines lines).splitOn 10 = lines :=
  splitOn_intercalate 10 hclean h

theorem mem_joinLines {unit : UInt16} (h : unit ∈ joinLines lines) : unit = 10 ∨ ∃ line ∈ lines, unit ∈ line := by
  induction lines with
  | nil => simp [joinLines] at h
  | cons line lines ih =>
    by_cases hnil : lines = []
    · subst hnil
      exact .inr ⟨line, mem_cons_self, by simpa [joinLines] using h⟩
    · rw [joinLines_cons line hnil] at h
      rcases mem_append.mp h with h | h
      · exact .inr ⟨line, mem_cons_self, h⟩
      · rcases mem_cons.mp h with h | h
        · exact .inl h
        · rcases ih h with h | ⟨other, hother, hunit⟩
          · exact .inl h
          · exact .inr ⟨other, mem_cons_of_mem _ hother, hunit⟩

/-- Lines with a final newline, or without one, are those of some text: a final newline ends a
line, and a text that ends in an empty line ends in a newline. -/
def Representable (lines : List JsString) (finalNewline : Bool) : Prop :=
  if finalNewline then lines ≠ [] else lines.getLast? ≠ some []

theorem linesOf_joined (hclean : ∀ line ∈ lines, 10 ∉ line) (hlast : lines.getLast? ≠ some []) :
    linesOf (joinLines lines) = lines ∧ endsWithNewline (joinLines lines) = false := by
  rcases eq_nil_or_concat' lines with rfl | ⟨init, last, rfl⟩
  · exact ⟨rfl, rfl⟩
  · have hne : last ≠ [] := by
      intro hnil
      simp [hnil] at hlast
    have hunit : (joinLines (init ++ [last])).getLast? = last.getLast? := by
      by_cases hinit : init = []
      · simp [hinit, joinLines]
      · rw [joinLines_concat hinit, getLast?_append_of_ne_nil _ (by simp), getLast?_cons_of_ne_nil hne]
    have hends : endsWithNewline (joinLines (init ++ [last])) = false := by
      unfold endsWithNewline
      rw [hunit, decide_eq_false_iff_not]
      intro hnewline
      exact hclean last (by simp) (mem_of_getLast? hnewline)
    have htext : joinLines (init ++ [last]) ≠ [] := by
      intro hnil
      rw [hnil] at hunit
      exact hne (by simpa using hunit.symm)
    refine ⟨?_, hends⟩
    unfold linesOf
    rw [hends, if_neg htext]
    exact splitOn_joinLines hclean (by simp)

theorem linesOf_newline (hclean : ∀ line ∈ lines, 10 ∉ line) (hne : lines ≠ []) :
    linesOf (joinLines lines ++ [10]) = lines ∧ endsWithNewline (joinLines lines ++ [10]) = true := by
  have hends : endsWithNewline (joinLines lines ++ [10]) = true := by simp [endsWithNewline]
  have hjoined : joinLines lines ++ [10] = joinLines (lines ++ [[]]) := (joinLines_concat hne []).symm
  have hsplit : (joinLines lines ++ [10]).splitOn 10 = lines ++ [[]] := by
    rw [hjoined]
    refine splitOn_joinLines ?_ (by simp)
    refine forall_mem_append.mpr ⟨hclean, forall_mem_singleton.mpr ?_⟩
    simp
  have htext : joinLines lines ++ [10] ≠ [] := by simp
  refine ⟨?_, hends⟩
  simp only [linesOf, hends, if_true, if_neg htext, hsplit, dropLast_concat]

/-- A text tells the lines that it was joined from where they are representable, and only there. -/
theorem decode_canonicalResult (hclean : ∀ line ∈ lines, 10 ∉ line) (finalNewline : Bool) :
    (linesOf (canonicalResult lines finalNewline) = lines ∧
      endsWithNewline (canonicalResult lines finalNewline) = finalNewline) ↔
      Representable lines finalNewline := by
  cases finalNewline with
  | true =>
    unfold canonicalResult Representable
    rw [if_pos rfl, if_pos rfl]
    constructor
    · rintro ⟨hlines, -⟩ rfl
      exact absurd hlines (by decide)
    · exact fun hne => linesOf_newline hclean hne
  | false =>
    unfold canonicalResult Representable
    rw [if_neg (by simp), if_neg (by simp), append_nil]
    constructor
    · rintro ⟨hlines, hends⟩ hlast
      obtain ⟨init, rfl⟩ := getLast?_eq_some_iff.mp hlast
      by_cases hinit : init = []
      · simp [hinit, joinLines, linesOf, endsWithNewline] at hlines
      · rw [joinLines_concat hinit] at hends
        simp [endsWithNewline] at hends
    · exact fun hlast => linesOf_joined hclean hlast

/-! ## Line endings -/

theorem windowsLines_cons (unit : UInt16) (text : JsString) :
    windowsLines (unit :: text) = (if unit = 10 then [13, 10] else [unit]) ++ windowsLines text := rfl

variable {text : JsString}

theorem windowsLines_eq_self (h : 10 ∉ text) : windowsLines text = text := by
  induction text with
  | nil => rfl
  | cons unit text ih =>
    have hunit : unit ≠ 10 := fun heq => h (heq ▸ mem_cons_self)
    rw [windowsLines_cons, if_neg hunit, ih fun hmem => h (mem_cons_of_mem _ hmem)]
    rfl

theorem unixLines_cons {unit : UInt16} (hunit : unit ≠ 13) (text : JsString) :
    unixLines (unit :: text) = unit :: unixLines text := by
  cases text with
  | nil => rfl
  | cons next text => simp [unixLines, hunit]

theorem unixLines_windowsLines (h : 13 ∉ text) : unixLines (windowsLines text) = text := by
  induction text with
  | nil => rfl
  | cons unit text ih =>
    have hrest : 13 ∉ text := fun hmem => h (mem_cons_of_mem _ hmem)
    have hunit : unit ≠ 13 := fun heq => h (heq ▸ mem_cons_self)
    rw [windowsLines_cons]
    by_cases hnewline : unit = 10
    · rw [if_pos hnewline, hnewline]
      simp [unixLines, ih hrest]
    · rw [if_neg hnewline, singleton_append, unixLines_cons hunit, ih hrest]

theorem checkCrlf_windowsLines (h : 13 ∉ text) (previous : Option UInt16) :
    checkCrlf previous (windowsLines text) = .ok () := by
  induction text generalizing previous with
  | nil => rfl
  | cons unit text ih =>
    have hrest : 13 ∉ text := fun hmem => h (mem_cons_of_mem _ hmem)
    have hunit : unit ≠ 13 := fun heq => h (heq ▸ mem_cons_self)
    rw [windowsLines_cons]
    by_cases hnewline : unit = 10
    · rw [if_pos hnewline]
      simpa [checkCrlf] using ih hrest (some 10)
    · rw [if_neg hnewline]
      simpa [checkCrlf, hunit, hnewline] using ih hrest (some unit)

theorem mem_windowsLines_cr (h : 13 ∉ text) : 13 ∈ windowsLines text ↔ 10 ∈ text := by
  induction text with
  | nil => simp [windowsLines]
  | cons unit text ih =>
    have hrest : 13 ∉ text := fun hmem => h (mem_cons_of_mem _ hmem)
    have hunit : unit ≠ 13 := fun heq => h (heq ▸ mem_cons_self)
    rw [windowsLines_cons, mem_append, ih hrest, mem_cons]
    by_cases hnewline : unit = 10
    · simp [hnewline]
    · simp [hnewline, hunit.symm, Ne.symm hnewline]

/-- A canonical text survives the line endings of the source. -/
theorem sourceLineEnding_restored {canonical : JsString} (h : 13 ∉ canonical) (lineEnding : LineEnding) : ∃ found,
    sourceLineEnding (restoredResult lineEnding canonical) = .ok found ∧
    canonicalTextOf found (restoredResult lineEnding canonical) = canonical := by
  cases lineEnding with
  | lf =>
    refine ⟨.lf, ?_, rfl⟩
    unfold sourceLineEnding restoredResult
    rw [if_neg (by simpa using h)]
  | crlf =>
    unfold sourceLineEnding restoredResult
    by_cases hnewline : 10 ∈ canonical
    · have hcr : 13 ∈ windowsLines canonical := (mem_windowsLines_cr h).mpr hnewline
      refine ⟨.crlf, ?_, unixLines_windowsLines h⟩
      dsimp only
      rw [if_pos (contains_iff_mem.mpr hcr), checkCrlf_windowsLines h]
      rfl
    · refine ⟨.lf, ?_, windowsLines_eq_self hnewline⟩
      dsimp only
      rw [if_neg (by simpa [windowsLines_eq_self hnewline] using h)]

/-! ## Lines of a valid source -/

theorem unixLines_no_cr {previous : Option UInt16} (h : checkCrlf previous text = .ok ()) : 13 ∉ unixLines text := by
  induction text using unixLines.induct generalizing previous with
  | case1 => simp [unixLines]
  | case2 unit =>
    intro hmem
    obtain rfl : 13 = unit := by simpa [unixLines] using hmem
    simp [checkCrlf] at h
  | case3 unit next rest hpair ih =>
    simp only [Bool.and_eq_true, decide_eq_true_eq] at hpair
    obtain ⟨rfl, rfl⟩ := hpair
    have hrest : checkCrlf (some 10) rest = .ok () := by simpa [checkCrlf] using h
    simpa [unixLines] using ih hrest
  | case4 unit next rest hpair ih =>
    have hunit : unit ≠ 13 := by
      rintro rfl
      simp only [decide_true, Bool.true_and, decide_eq_true_eq] at hpair
      simp [checkCrlf, hpair] at h
    have hrest : checkCrlf (some unit) (next :: rest) = .ok () := by
      rw [checkCrlf, if_neg (by simp [hunit])] at h
      split at h
      · cases h
      · exact h
    rw [unixLines_cons hunit]
    intro hmem
    rcases mem_cons.mp hmem with hmem | hmem
    · exact hunit hmem.symm
    · exact ih hrest hmem

theorem canonicalTextOf_no_cr {lineEnding : LineEnding} (h : sourceLineEnding text = .ok lineEnding) :
    13 ∉ canonicalTextOf lineEnding text := by
  unfold sourceLineEnding at h
  split at h
  · cases hcheck : checkCrlf none text with
    | error e => simp [hcheck, Except.map] at h
    | ok u =>
      rw [hcheck] at h
      cases h
      exact unixLines_no_cr hcheck
  next hcr =>
    cases h
    simpa [canonicalTextOf] using hcr

theorem splitOn_clean (text : JsString) : ∀ line ∈ text.splitOn 10, 10 ∉ line := by
  induction text with
  | nil => simp
  | cons unit text ih =>
    rw [splitOn_cons_eq_if_modifyHead]
    by_cases hunit : unit = 10
    · simpa [hunit] using ih
    · rw [if_neg (by simpa using hunit)]
      intro line hline
      cases hsplit : text.splitOn 10 with
      | nil => simp at hsplit
      | cons first rest =>
        rw [hsplit] at hline ih
        rcases mem_cons.mp hline with rfl | hline
        · intro hmem
          rcases mem_cons.mp hmem with heq | hmem
          · exact hunit heq.symm
          · exact ih first mem_cons_self hmem
        · exact ih line (mem_cons_of_mem _ hline)

theorem mem_splitOn {text line : JsString} (h : line ∈ text.splitOn 10) : ∀ unit ∈ line, unit ∈ text := by
  intro unit hunit
  have hjoined : joinLines (text.splitOn 10) = text := intercalate_splitOn 10
  rw [← hjoined]
  generalize text.splitOn 10 = lines at h
  induction lines with
  | nil => cases h
  | cons first lines ih =>
    by_cases hnil : lines = []
    · subst hnil
      obtain rfl := mem_singleton.mp h
      simpa [joinLines] using hunit
    · rw [joinLines_cons first hnil]
      rcases mem_cons.mp h with rfl | h
      · exact mem_append_left _ hunit
      · exact mem_append_right _ (mem_cons_of_mem _ (ih h))

/-- What a validation tells. -/
theorem validateWikiMarkdownSource_ok {sha256 : List UInt8 → JsString} {input : Source}
    {source : ValidatedWikiMarkdownSource} (h : validateWikiMarkdownSource sha256 input = .ok source) :
    ∃ text bytes lineEnding, decodeSource input = .ok (text, bytes) ∧ sourceLineEnding text = .ok lineEnding ∧
    source = validatedSource sha256 text bytes lineEnding := by
  obtain ⟨⟨text, bytes⟩, hdecode, h⟩ := bind_ok h
  dsimp only at h
  split at h
  · cases h
  split at h
  · cases h
  obtain ⟨lineEnding, hending, h⟩ := bind_ok h
  split at h
  · cases h
  cases h
  exact ⟨text, bytes, lineEnding, hdecode, hending, rfl⟩

theorem lines_clean {sha256 : List UInt8 → JsString} {input : Source} {source : ValidatedWikiMarkdownSource}
    (h : validateWikiMarkdownSource sha256 input = .ok source) : ∀ line ∈ source.lines, CleanLine line := by
  obtain ⟨text, bytes, lineEnding, -, hending, rfl⟩ := validateWikiMarkdownSource_ok h
  have hcr := canonicalTextOf_no_cr hending
  intro line hline
  have hsplit : line ∈ (canonicalTextOf lineEnding text).splitOn 10 := by
    simp only [validatedSource, linesOf] at hline
    split at hline
    · have hmem := mem_of_mem_dropLast hline
      split at hmem
      · cases hmem
      · exact hmem
    · split at hline
      · cases hline
      · exact hline
  exact ⟨splitOn_clean _ line hsplit, fun hmem => hcr (mem_splitOn hsplit 13 hmem)⟩

/-- A splice has lines of the source and of the patch only. -/
theorem spliced_clean {lineCount : Nat} {operations : List PatchOperation} {plan : PatchPlan}
    (hplan : Ordered lineCount operations plan) (hlines : ∀ line ∈ lines, CleanLine line) :
    ∀ line ∈ spliced lines operations, CleanLine line := by
  have hinserted : ∀ gap, ∀ line ∈ insertedLines operations gap, CleanLine line := by
    intro gap line hline
    obtain ⟨planned, hplanned, hline⟩ := mem_flatMap.mp hline
    rw [← hplan.gaps] at hplanned
    split at hline
    · exact hplan.gapLines planned hplanned line hline
    · cases hline
  have hstanding : ∀ number, ∀ line ∈ standingLines lines operations number, CleanLine line := by
    intro number line hline
    unfold standingLines at hline
    split at hline
    next range hfind =>
      have hrange := mem_of_find?_eq_some hfind
      rw [← hplan.ranges] at hrange
      split at hline
      · exact hplan.rangeLines range hrange line hline
      · cases hline
    · exact hlines line (mem_of_getElem? (Option.mem_toList.mp hline))
  intro line hline
  rcases mem_append.mp hline with hline | hline
  · exact hinserted 0 line hline
  · obtain ⟨number, -, hline⟩ := mem_flatMap.mp hline
    rcases mem_append.mp hline with hline | hline
    · exact hstanding number line hline
    · exact hinserted number line hline

end TsEpistle.LinePatch
