import TsEpistle.Documents.Classification

/-! A page with HTML in storage. Its metadata is found again in the comment it was written in, and the
document that is read from it has the comment in its body. -/

namespace TsEpistle.Documents
open Library Json List Option
open Pages (trim)
open LiveNotes (byteLength)

/-! ## The first place of a match -/

section
variable {close : JsString → Option JsString}

theorem upTo_skip {skipped rest : JsString}
    (hnone : ∀ tail, tail ≠ [] → tail <:+ skipped → close (tail ++ rest) = none) :
    upTo close (skipped ++ rest) = (upTo close rest).map fun found => (skipped ++ found.1, found.2) := by
  induction skipped with
  | nil => simp
  | cons unit skipped ih =>
    have hhere : close (unit :: (skipped ++ rest)) = none := hnone (unit :: skipped) (cons_ne_nil _ _) suffix_rfl
    have hlater := ih fun tail htail hsuffix => hnone tail htail (hsuffix.trans (suffix_cons _ _))
    rw [cons_append, upTo, hhere, hlater]
    simp [Function.comp_def]

theorem upTo_here {text tail : JsString} (h : close text = some tail) : upTo close text = some ([], tail) := by
  cases text with
  | nil | cons => simp [upTo, h]

/-- What is found ends at a match, and nothing before it is one. -/
theorem upTo_found {text before after : JsString} (h : upTo close text = some (before, after)) :
    ∃ rest, text = before ++ rest ∧ close rest = some after ∧
      ∀ tail, tail ≠ [] → tail <:+ before → close (tail ++ rest) = none := by
  induction text generalizing before with
  | nil =>
    obtain ⟨tail, hclose, hfound⟩ := map_eq_some_iff.mp h
    obtain ⟨rfl, rfl⟩ := Prod.mk.inj hfound
    exact ⟨[], rfl, hclose, fun tail htail hsuffix => absurd (suffix_nil.mp hsuffix) htail⟩
  | cons unit text ih =>
    rw [upTo] at h
    split at h
    next tail hclose =>
      obtain ⟨rfl, rfl⟩ := Prod.mk.inj (Option.some.inj h)
      exact ⟨unit :: text, rfl, hclose, fun tail htail hsuffix =>
        absurd (suffix_nil.mp hsuffix) htail⟩
    next hclose =>
      obtain ⟨⟨before', after'⟩, hlater, hfound⟩ := map_eq_some_iff.mp h
      obtain ⟨rfl, rfl⟩ := Prod.mk.inj hfound
      obtain ⟨rest, rfl, hrest, hnone⟩ := ih hlater
      refine ⟨rest, rfl, hrest, fun tail htail hsuffix => ?_⟩
      rcases suffix_cons_iff.mp hsuffix with rfl | hsuffix
      · exact hclose
      · exact hnone tail htail hsuffix

theorem upTo_isSome {before rest : JsString} (h : (close rest).isSome) : (upTo close (before ++ rest)).isSome := by
  induction before with
  | nil =>
    obtain ⟨tail, htail⟩ := isSome_iff_exists.mp h
    rw [nil_append, upTo_here htail]
    rfl
  | cons unit before ih =>
    rw [cons_append, upTo]
    split
    · rfl
    · rw [isSome_map]
      exact ih
end

/-! ## The comment -/

def featuresLine (features : PageFeatures) : JsString := js "pageFeatures: " ++ features.stringify

def isUnbroken (text : JsString) : Bool := text.all fun unit => unit != 10 && unit != 13

theorem isUnbroken_append (text text' : JsString) :
    isUnbroken (text ++ text') = (isUnbroken text && isUnbroken text') := all_append

theorem booleanText_unbroken (value : Bool) : isUnbroken (booleanText value) = true := by
  cases value <;> decide

theorem featuresLine_unbroken (features : PageFeatures) : isUnbroken (featuresLine features) = true := by
  have hkey : isUnbroken (js "pageFeatures: ") = true := by decide
  have hlinks : isUnbroken (123 :: js "\"schemaVersion\":1,\"linksVisible\":") = true := by decide
  have hratings : isUnbroken (js ",\"ratingsAllowed\":") = true := by decide
  have heditor : isUnbroken (js ",\"lastEditorVisible\":") = true := by decide
  have hclose : isUnbroken [125] = true := by decide
  simp only [featuresLine, PageFeatures.stringify, ← cons_append, isUnbroken_append,
    booleanText_unbroken, hkey, hlinks, hratings, heditor, hclose, Bool.and_true]

theorem featuresLine_key (features : PageFeatures) :
    keyAt Pages.isSpace (js "pageFeatures") (featuresLine features) = true := by
  simp [featuresLine, keyAt, js, utf16, Pages.isSpace, List.dropPrefix?, List.dropWhile]

theorem mem_lineTails (before after : JsString) : after ∈ lineTails (before ++ 10 :: after) := by
  induction before with
  | nil => simp [lineTails, isLineTerminator]
  | cons unit before ih =>
    rw [cons_append, lineTails]
    split
    · exact mem_cons_of_mem _ ih
    · exact ih

theorem js_opener : js "<!--\n" = [60, 33, 45, 45, 10] := by simp [js, utf16]
theorem js_closer : js "\n-->" = [10, 45, 45, 62] := by simp [js, utf16]
theorem js_commentEnd : js "-->" = [45, 45, 62] := by simp [js, utf16]
theorem js_commentStart : js "<!--" = [60, 33, 45, 45] := by simp [js, utf16]

/-- Whether a comment ends is not told by what follows a line break. -/
theorem commentEnd_broken {text : JsString} (rest rest' : JsString)
    (h : commentEnd (text ++ 10 :: rest) = none) : commentEnd (text ++ 10 :: rest') = none := by
  rw [commentEnd, js_commentEnd] at h ⊢
  match text, h with
  | [], _ => simp [List.dropPrefix?]
  | [first], _ => simp [List.dropPrefix?]
  | [first, second], _ => simp [List.dropPrefix?]
  | first :: second :: third :: text, h =>
    simp only [cons_append, List.dropPrefix?] at h ⊢
    split at h
    · split at h
      · split at h
        · exact absurd h (by simp)
        · simp_all
      · simp_all
    · simp_all

theorem featuresLine_commentEnd (features : PageFeatures) (rest : JsString) :
    commentEnd (featuresLine features ++ rest) = none := by
  rw [commentEnd, js_commentEnd]
  simp [featuresLine, js, utf16, List.dropPrefix?]

theorem lineBreak_other {unit : UInt16} (rest : JsString) (h10 : unit ≠ 10) (h13 : unit ≠ 13) :
    lineBreak (unit :: rest) = none := by
  unfold lineBreak
  split
  next heq => exact absurd (List.cons.inj heq).1 h13
  next heq => exact absurd (List.cons.inj heq).1 h10
  next => rfl

theorem lineBreak_return {next : UInt16} (rest : JsString) (h10 : next ≠ 10) :
    lineBreak (13 :: next :: rest) = none := by
  unfold lineBreak
  split
  next heq => exact absurd (List.cons.inj (List.cons.inj heq).2).1 h10
  next heq => exact absurd (List.cons.inj heq).1 (by decide)
  next => rfl

/-- Where `\n-->` stands nowhere in the lines before it, the metadata does not end there either. -/
theorem htmlMetadataEnd_lines {lines rest : JsString} (features : PageFeatures) (rest' : JsString)
    (hnone : ∀ tail, tail ≠ [] → tail <:+ lines →
      (tail ++ (js "\n-->" ++ rest)).dropPrefix? (js "\n-->") = none) :
    ∀ tail, tail ≠ [] → tail <:+ lines → htmlMetadataEnd (tail ++ 10 :: (featuresLine features ++ rest')) = none := by
  have hbreak : ∀ tail, 10 :: tail <:+ lines →
      commentEnd (tail ++ 10 :: (featuresLine features ++ rest')) = none := by
    intro tail hsuffix
    have hplain := hnone (10 :: tail) (cons_ne_nil _ _) hsuffix
    rw [js_closer] at hplain
    refine commentEnd_broken (45 :: 45 :: 62 :: rest) _ ?_
    rw [commentEnd, js_commentEnd]
    simpa [List.dropPrefix?] using hplain
  intro tail htail hsuffix
  unfold htmlMetadataEnd
  rcases tail with _ | ⟨unit, tail⟩
  · exact absurd rfl htail
  by_cases h10 : unit = 10
  · subst h10
    exact hbreak tail hsuffix
  by_cases h13 : unit = 13
  · subst h13
    rcases tail with _ | ⟨next, tail⟩
    · exact featuresLine_commentEnd features rest'
    by_cases hnext : next = 10
    · subst hnext
      exact hbreak tail ((suffix_cons _ _).trans hsuffix)
    · rw [cons_append, cons_append, lineBreak_return _ hnext]
      rfl
  · rw [cons_append, lineBreak_other _ h10 h13]
    rfl

/-! ## Writing -/

section
variable {ν : Type} [DecidableEq ν] [One ν]

/-- The features stand on the last line of the comment, which is the first to end. -/
theorem encode_eq (page : StoragePageEncodingInput ν) :
    ∃ lines rest, injectPageMetadata page = js "<!--\n" ++ lines ++ (js "\n-->" ++ rest) ∧
      encodeStoragePageDocument page = .ok (js "<!--\n" ++ lines
        ++ 10 :: (featuresLine (normalizePageFeatures page.pageFeatures) ++ (js "\n-->" ++ rest))) ∧
      ∀ tail, tail ≠ [] → tail <:+ lines →
        (tail ++ (js "\n-->" ++ rest)).dropPrefix? (js "\n-->") = none := by
  have hclose : ((js "\n-->\n\n" ++ page.content).dropPrefix? (js "\n-->")).isSome := by
    simp [js, utf16, List.dropPrefix?]
  have hsome : (sliceAt (js "\n-->")
      (metadataLines page ++ (js "\n-->\n\n" ++ page.content))).isSome :=
    upTo_isSome (by rw [isSome_map]; exact hclose)
  obtain ⟨⟨lines, after⟩, hslice⟩ := isSome_iff_exists.mp hsome
  obtain ⟨found, htext, hfound, hnone⟩ := upTo_found hslice
  obtain ⟨rest, hrest, rfl⟩ := map_eq_some_iff.mp hfound
  obtain ⟨needle, rfl, hneedle⟩ := dropPrefix?_eq_some_iff.mp hrest
  obtain rfl := eq_of_beq hneedle
  obtain ⟨letters, hletters⟩ : ∃ letters,
      metadataLines page ++ (js "\n-->\n\n" ++ page.content) = 116 :: letters := by
    have htitle : js "title: " = 116 :: js "itle: " := by simp [js, utf16]
    simp only [metadataLines, htitle, cons_append]
    exact ⟨_, rfl⟩
  have hopener : ∀ tail, tail ≠ [] → tail <:+ js "<!--\n" →
      ((tail ++ (metadataLines page ++ (js "\n-->\n\n" ++ page.content))).dropPrefix?
        (js "\n-->")) = none := by
    intro tail htail hsuffix
    rw [hletters, js_closer]
    rw [js_opener] at hsuffix
    simp only [suffix_cons_iff, suffix_nil, htail, or_false] at hsuffix
    rcases hsuffix with rfl | rfl | rfl | rfl | rfl <;> simp [List.dropPrefix?]
  have hinjected : injectPageMetadata page
      = js "<!--\n" ++ (metadataLines page ++ (js "\n-->\n\n" ++ page.content)) := by
    simp only [injectPageMetadata, append_assoc]
  refine ⟨lines, rest, ?_, ?_, fun tail htail hsuffix => ?_⟩
  · rw [hinjected, htext, append_assoc]
  · have hwhole : sliceAt (js "\n-->") (injectPageMetadata page)
        = some (js "<!--\n" ++ lines, js "\n-->" ++ rest) := by
      rw [hinjected, sliceAt, upTo_skip fun tail htail hsuffix => by
        rw [hopener tail htail hsuffix, map_none]]
      have hslice' := hslice
      rw [sliceAt] at hslice'
      rw [hslice']
      rfl
    have hstarts : startsWith (injectPageMetadata page) (js "<!--\n") = true := by
      rw [hinjected]
      exact isPrefixOf_iff_prefix.mpr (prefix_append _ _)
    have hbroken : js "\npageFeatures: " = 10 :: js "pageFeatures: " := by simp [js, utf16]
    rw [encodeStoragePageDocument, if_pos hstarts, hwhole]
    simp [featuresLine, hbroken]
  · exact map_eq_none_iff.mp (hnone tail htail hsuffix)
end

/-! ## Reading -/

section
variable {ν μ δ : Type} [DecidableEq ν] [One ν] {readers : Readers ν μ δ}

/-- The metadata that is found again is all of it, with the features on its last line. -/
theorem htmlMetadata_encoded {lines rest : JsString} (features : PageFeatures)
    (hnone : ∀ tail, tail ≠ [] → tail <:+ lines →
      (tail ++ (js "\n-->" ++ rest)).dropPrefix? (js "\n-->") = none) :
    htmlMetadata (js "<!--\n" ++ lines ++ 10 :: (featuresLine features ++ (js "\n-->" ++ rest)))
      = some (lines ++ 10 :: featuresLine features) := by
  have hclosed : upTo htmlMetadataEnd (js "\n-->" ++ rest) = some ([], rest) := by
    refine upTo_here ?_
    rw [js_closer]
    simp [htmlMetadataEnd, lineBreak, commentEnd, js_commentEnd, List.dropPrefix?]
  have hfeatures : upTo htmlMetadataEnd (featuresLine features ++ (js "\n-->" ++ rest))
      = some (featuresLine features, rest) := by
    rw [upTo_skip, hclosed]
    · simp
    · intro tail htail hsuffix
      rcases tail with _ | ⟨unit, tail⟩
      · exact absurd rfl htail
      have hunit := List.all_eq_true.mp (featuresLine_unbroken features) unit
        (hsuffix.mem mem_cons_self)
      simp only [Bool.and_eq_true, bne_iff_ne] at hunit
      rw [htmlMetadataEnd, cons_append, lineBreak_other _ hunit.1 hunit.2]
      rfl
  have hbreak : upTo htmlMetadataEnd (10 :: (featuresLine features ++ (js "\n-->" ++ rest)))
      = some (10 :: featuresLine features, rest) := by
    have hhere : htmlMetadataEnd (10 :: (featuresLine features ++ (js "\n-->" ++ rest))) = none :=
      featuresLine_commentEnd features (js "\n-->" ++ rest)
    rw [upTo, hhere, hfeatures]
    rfl
  have hlines := upTo_skip (htmlMetadataEnd_lines features (js "\n-->" ++ rest) hnone)
  rw [hbreak] at hlines
  rw [htmlMetadata, js_opener, js_commentStart]
  simp [List.dropPrefix?, lineBreak, hlines]

theorem featuresDocument_body (input : StoragePageDocumentInput) (value : Option (JsonValue ν)) :
    (featuresDocument readers input value).body = input.rawDocument := by
  unfold featuresDocument
  split <;> rfl

/-- Metadata with a line for features: the body is the whole document, whatever is read from it. -/
theorem htmlDocument_body (readers : Readers ν μ δ) {input : StoragePageDocumentInput}
    (hcontentType : input.contentType = js "html") {lines : JsString} {features : PageFeatures}
    (hmetadata : htmlMetadata input.rawDocument = some (lines ++ 10 :: featuresLine features)) : ∃ document,
    htmlDocument readers input = some document ∧ document.body = input.rawDocument := by
  have hkey : (lineStarts (lines ++ 10 :: featuresLine features)).any
      (keyAt Pages.isSpace (js "pageFeatures")) = true :=
    List.any_eq_true.mpr ⟨featuresLine features, mem_cons_of_mem _ (mem_lineTails _ _), featuresLine_key features⟩
  rw [htmlDocument, if_pos hcontentType, hmetadata]
  simp only [hkey, if_true]
  split
  · exact ⟨_, rfl, rfl⟩
  · exact ⟨_, rfl, rfl⟩
  · exact ⟨_, rfl, featuresDocument_body input _⟩

/-- The document of an encoded page, with the place it is read from. -/
def htmlInput (origin : StoragePageDocumentInput) (text : JsString) : StoragePageDocumentInput :=
  { origin with rawDocument := text, contentType := js "html" }

theorem classify_body {origin : StoragePageDocumentInput} {page : StoragePageEncodingInput ν} {text : JsString}
    {document : StoragePageDocument μ δ} (hencode : encodeStoragePageDocument page = .ok text)
    (hclassify : classifyStoragePageDocument readers (htmlInput origin text) = .ok document) :
    document.body = text := by
  obtain ⟨lines, rest, -, hencoded, hnone⟩ := encode_eq page
  obtain rfl := Except.ok.inj (hencoded.symm.trans hencode)
  have hmetadata := htmlMetadata_encoded (normalizePageFeatures page.pageFeatures) hnone
  have hcontentType : (htmlInput origin (js "<!--\n" ++ lines ++ 10 :: (featuresLine
      (normalizePageFeatures page.pageFeatures) ++ (js "\n-->" ++ rest)))).contentType = js "html" := rfl
  obtain ⟨html, hhtml, hbody⟩ := htmlDocument_body readers hcontentType hmetadata
  have hfrontmatter : frontmatterDocument readers (htmlInput origin (js "<!--\n" ++ lines
      ++ 10 :: (featuresLine (normalizePageFeatures page.pageFeatures) ++ (js "\n-->" ++ rest)))) = none := by
    have hopener : js "---" = 45 :: js "--" := by simp [js, utf16]
    simp [frontmatterDocument, frontmatterOpener, htmlInput, js_opener, hopener, List.dropPrefix?]
  have hjson : jsonDocument readers (htmlInput origin (js "<!--\n" ++ lines
      ++ 10 :: (featuresLine (normalizePageFeatures page.pageFeatures) ++ (js "\n-->" ++ rest)))) = none :=
    if_neg (by simp [htmlInput, js, utf16])
  rw [classifyStoragePageDocument] at hclassify
  split at hclassify
  · exact absurd hclassify nofun
  · split at hclassify
    · rw [← Except.ok.inj hclassify]
      rfl
    · rw [← Except.ok.inj hclassify, hfrontmatter, hjson, hhtml]
      exact hbody
/-! ## Never a round trip -/

theorem encode_length {page : StoragePageEncodingInput ν} {text : JsString}
    (hencode : encodeStoragePageDocument page = .ok text) : page.content.length < text.length := by
  obtain ⟨lines, rest, hinjected, hencoded, -⟩ := encode_eq page
  obtain rfl := Except.ok.inj (hencoded.symm.trans hencode)
  have hlength := congrArg List.length hinjected
  simp only [injectPageMetadata, js_opener, length_append, length_cons] at hlength ⊢
  omega

/-- A page with HTML that is written, read and written again: the document is valid, has the features
and the content of the page, and is the same the second time. -/
def RoundTrips (readers : Readers ν μ δ) (origin : StoragePageDocumentInput)
    (page : StoragePageEncodingInput ν) : Prop :=
  ∃ text document, encodeStoragePageDocument page = .ok text ∧
    classifyStoragePageDocument readers (htmlInput origin text) = .ok document ∧
    document.format ≠ .okfInvalid ∧
    document.fields.pageFeatures = some (normalizePageFeatures page.pageFeatures) ∧
    document.body = page.content ∧
    encodeStoragePageDocument { page with content := document.body } = .ok text

theorem not_roundTrips (origin : StoragePageDocumentInput) (page : StoragePageEncodingInput ν) :
    ¬ RoundTrips readers origin page := by
  rintro ⟨text, document, hencode, hclassify, -, -, hbody, -⟩
  have hlength := encode_length hencode
  rw [← hbody, classify_body hencode hclassify] at hlength
  exact lt_irrefl _ hlength

/-- **The comment stays in the body.** Whatever the page and however the metadata is read: the body of
the document that is read is all that was written, no page with this content is written as it was, and
the page never makes the round trip. -/
theorem html_never_roundTrips (readers : Readers ν μ δ) (origin : StoragePageDocumentInput)
    (page : StoragePageEncodingInput ν) :
    (∃ text, encodeStoragePageDocument page = .ok text ∧
      ∀ document, classifyStoragePageDocument readers (htmlInput origin text) = .ok document →
        document.body = text ∧
        ∀ page' : StoragePageEncodingInput ν, page'.content = document.body →
          encodeStoragePageDocument page' ≠ .ok text) ∧
    ¬ RoundTrips readers origin page := by
  refine ⟨?_, not_roundTrips origin page⟩
  obtain ⟨lines, rest, -, hencode, -⟩ := encode_eq page
  refine ⟨_, hencode, fun document hclassify => ?_⟩
  have hbody := classify_body hencode hclassify
  refine ⟨hbody, fun page' hcontent hencode' => ?_⟩
  have hlength := encode_length hencode'
  rw [hcontent, hbody] at hlength
  exact lt_irrefl _ hlength
end

/-! ## An example -/

def guidePage : StoragePageEncodingInput Nat where
  title := js "Guide"
  description := js "A guide"
  content := js "<p>Read</p>"
  isPublished := true
  updatedAt := js "2026-01-02"
  createdAt := js "2026-01-01"
  editorKey := js "html"
  tags := []
  pageFeatures := none

def guideText : JsString :=
  js "<!--\ntitle: Guide\ndescription: A guide\npublished: true\ndate: 2026-01-02\ntags: \neditor: html"
    ++ js "\ndateCreated: 2026-01-01\npageFeatures: " ++ DEFAULT_PAGE_FEATURES.stringify
    ++ js "\n-->\n\n<p>Read</p>"

/-- The metadata of the example, read as YAML. -/
def guideReaders : Readers Nat Unit Unit where
  load _ := .ok (.object [(js "title", .string (js "Guide")),
    (js "description", .string (js "A guide")), (js "published", .boolean true),
    (js "date", .string (js "2026-01-02")), (js "tags", .null), (js "editor", .string (js "html")),
    (js "dateCreated", .string (js "2026-01-01")),
    (js "pageFeatures", .object [(js "schemaVersion", .number 1), (js "linksVisible", .boolean false),
      (js "ratingsAllowed", .boolean true), (js "lastEditorVisible", .boolean false)])])
  parseJson _ := none
  parseOkf _ := .error []
  sourceHash _ := ()

def guideOrigin : StoragePageDocumentInput :=
  ⟨[], js "html", js "en", js "guide", js "import:disk", js "2026-01-03"⟩

/-- A plain page is read as a valid document, whose body is the comment and the content. -/
theorem guide_body_commented :
    (match encodeStoragePageDocument guidePage with
      | .ok text => text == guideText
      | .error _ => false) = true ∧
    (match classifyStoragePageDocument guideReaders (htmlInput guideOrigin guideText) with
      | .ok document => document.format == .legacyWiki && document.body == guideText
          && document.fields.pageFeatures == some DEFAULT_PAGE_FEATURES
      | .error _ => false) = true ∧
    ¬ RoundTrips guideReaders guideOrigin guidePage :=
  ⟨by decide +kernel, by decide +kernel, not_roundTrips guideOrigin guidePage⟩

end TsEpistle.Documents
