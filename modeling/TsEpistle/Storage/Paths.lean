import TsEpistle.Library.JsString

/-! The filenames of pages (`server/helpers/storage-page-path.ts`, `server/helpers/page.ts`,
`server/okf/format.ts`): what a page is called on a target, and how the page is told from the
name. -/

namespace TsEpistle.Storage
open Library List

/-- `split('/')`. -/
def segments (path : JsString) : List JsString := path.splitOn 47

/-- `join('/')`. -/
def joined (parts : List JsString) : JsString := [47].intercalate parts

/-- `toLowerCase` as far as letters of ASCII go: no other letter becomes one of `index` or
`log`. -/
def lower (text : JsString) : JsString :=
  text.map fun unit => if 65 ≤ unit && unit ≤ 90 then unit + 32 else unit

def reservedBasename (basename : JsString) : Bool :=
  lower basename = js "index" || lower basename = js "log"

def escapedConceptPath (pagePath : JsString) : JsString :=
  let parts := segments pagePath
  let basename := parts.getLast?.getD []
  if reservedBasename basename then joined (parts.dropLast ++ [basename ++ js ".concept"])
  else joined parts

def okfFilePath (locale pagePath : JsString) : JsString :=
  locale ++ 47 :: (escapedConceptPath pagePath ++ js ".md")

/-! ## The page that a name tells of -/

/-- One segment of `path.posix.normalize`, in front of those that are kept already. -/
def resolveSegment (absolute : Bool) (kept : List JsString) (segment : JsString) : List JsString :=
  if segment = [] || segment = js "." then kept
  else if segment = js ".." then
    match kept with
    | [] => if absolute then [] else [segment]
    | last :: rest => if last = js ".." then segment :: kept else rest
  else segment :: kept

/-- `path.posix.normalize`. -/
def normalize (path : JsString) : JsString :=
  if path = [] then js "."
  else
    let absolute : Bool := path.head? = some 47
    let kept := joined ((segments path).foldl (resolveSegment absolute) []).reverse
    let kept := if kept = [] && !absolute then js "." else kept
    let kept := if kept ≠ [] && path.getLast? = some 47 then kept ++ [47] else kept
    if absolute then 47 :: kept else kept

/-- The last segment of a page's path, told from the last segment of the file. -/
def conceptBasename (file : JsString) : Option JsString :=
  let basename := file.take (file.length - 3)
  let concept := basename.take (basename.length - 8)
  if endsWith basename (js ".concept") && reservedBasename concept then some concept
  else if reservedBasename basename then none
  else some basename

def importedConceptIdentity (filePath : JsString) : Option (JsString × JsString) :=
  let normalized := (normalize filePath).dropWhile (· = 47)
  let parts := segments normalized
  let last := parts.getLast?.getD []
  if startsWith normalized (js "../") || parts.length < 2 || !endsWith last (js ".md") then none
  else (conceptBasename last).map fun basename =>
    (parts.headD [], joined (parts.tail.dropLast ++ [basename]))

def parseOkfFilePath (filePath : JsString) : Option (JsString × JsString) :=
  (importedConceptIdentity filePath).filter fun identity =>
    !identity.1.isEmpty && !identity.2.isEmpty && okfFilePath identity.1 identity.2 = filePath

def getFileExtension (contentType : JsString) : JsString :=
  if contentType = js "markdown" then js "md"
  else if contentType = js "asciidoc" then js "adoc"
  else if contentType = js "html" then js "html"
  else js "txt"

/-- The part after the last dot and the part before it; `none` without a dot. -/
def splitExtension (path : JsString) : Option (JsString × JsString) :=
  match path.reverse.dropWhile (· ≠ 46) with
  | [] => none
  | _ :: stem => some (stem.reverse, (path.reverse.takeWhile (· ≠ 46)).reverse)

/-! ## Joined segments -/

@[simp] theorem joined_single (s : JsString) : joined [s] = s := by
  simp [joined]

variable {parts : List JsString}

theorem joined_cons (s : JsString) (h : parts ≠ []) : joined (s :: parts) = s ++ 47 :: joined parts := by
  cases parts with
  | nil => exact absurd rfl h
  | cons t parts => simp [joined]

theorem joined_segments (path : JsString) : joined (segments path) = path := intercalate_splitOn 47

theorem segments_joined (h : ∀ s ∈ parts, 47 ∉ s) (hne : parts ≠ []) : segments (joined parts) = parts :=
  splitOn_intercalate 47 h hne

theorem joined_append_last (init : List JsString) (last tail : JsString) :
    joined (init ++ [last]) ++ tail = joined (init ++ [last ++ tail]) := by
  induction init with
  | nil => simp
  | cons s init ih =>
    rw [cons_append, cons_append, joined_cons s (by simp), joined_cons s (by simp), ← ih]
    simp

/-- The last unit of joined segments is that of one of them. -/
theorem joined_getLast (hne : parts ≠ []) (h : ∀ s ∈ parts, s ≠ []) :
    ∃ s ∈ parts, (joined parts).getLast? = s.getLast? := by
  induction parts with
  | nil => exact absurd rfl hne
  | cons s parts ih =>
    by_cases hp : parts = []
    · subst hp
      exact ⟨s, mem_cons_self, by rw [joined_single]⟩
    · obtain ⟨t, ht, hlast⟩ := ih hp fun t ht => h t (mem_cons_of_mem _ ht)
      refine ⟨t, mem_cons_of_mem _ ht, ?_⟩
      have hjoined : joined parts ≠ [] := by
        intro hnil
        rw [hnil] at hlast
        have : t = [] := by simpa using hlast.symm
        exact h t (mem_cons_of_mem _ ht) this
      rw [joined_cons s hp, ← hlast, getLast?_append_of_ne_nil _ (by simp), getLast?_cons_of_ne_nil hjoined]

theorem segments_no_slash (path : JsString) : ∀ s ∈ segments path, 47 ∉ s := by
  induction path with
  | nil => simp [segments]
  | cons a path ih =>
    unfold segments at ih ⊢
    rw [splitOn_cons_eq_if_modifyHead]
    by_cases ha : a = 47
    · simpa [ha] using ih
    · rw [if_neg (by simpa using ha)]
      intro s hs
      cases hsplit : path.splitOn 47 with
      | nil => simp at hsplit
      | cons t rest =>
        rw [hsplit] at hs ih
        rcases mem_cons.mp hs with rfl | hs
        · intro hmem
          rcases mem_cons.mp hmem with heq | hmem
          · exact ha heq.symm
          · exact ih t mem_cons_self hmem
        · exact ih s (mem_cons_of_mem _ hs)

/-! ## Clean paths -/

/-- A path without dots whose segments all have a name. -/
structure CleanPath (path : JsString) : Prop where
  dots : 46 ∉ path
  named : ∀ s ∈ segments path, s ≠ []

/-- A locale code, as the table of locales has them. -/
structure CleanLocale (locale : JsString) : Prop where
  named : locale ≠ []
  dots : 46 ∉ locale
  slashes : 47 ∉ locale

/-- A segment that `normalize` keeps. -/
structure Plain (s : JsString) : Prop where
  named : s ≠ []
  here : s ≠ js "."
  up : s ≠ js ".."
  slashes : 47 ∉ s

theorem plain_of_no_dot {s : JsString} (hne : s ≠ []) (hdot : 46 ∉ s) (hslash : 47 ∉ s) : Plain s := by
  refine ⟨hne, ?_, ?_, hslash⟩
  · rintro rfl
    exact hdot (by decide)
  · rintro rfl
    exact hdot (by decide)

theorem foldl_resolveSegment (absolute : Bool) (h : ∀ s ∈ parts, Plain s) (kept : List JsString) :
    parts.foldl (resolveSegment absolute) kept = parts.reverse ++ kept := by
  induction parts generalizing kept with
  | nil => rfl
  | cons s parts ih =>
    have hs := h s mem_cons_self
    have hkeep : resolveSegment absolute kept s = s :: kept := by
      simp [resolveSegment, hs.named, hs.here, hs.up]
    rw [foldl_cons, hkeep, ih fun t ht => h t (mem_cons_of_mem _ ht)]
    simp

/-- Joined plain segments are normal already. -/
theorem normalize_joined (hne : parts ≠ []) (h : ∀ s ∈ parts, Plain s) :
    normalize (joined parts) = joined parts ∧ (joined parts).head? ≠ some 47 := by
  have hlast : (joined parts).getLast? ≠ some 47 := by
    obtain ⟨s, hs, hlast⟩ := joined_getLast hne fun s hs => (h s hs).named
    rw [hlast]
    intro heq
    exact (h s hs).slashes (mem_of_getLast? heq)
  have hhead : ∃ c rest, joined parts = c :: rest ∧ c ≠ 47 := by
    cases parts with
    | nil => exact absurd rfl hne
    | cons s parts =>
      have hs := h s mem_cons_self
      cases s with
      | nil => exact absurd rfl hs.named
      | cons c s =>
        have hc : c ≠ 47 := fun heq => hs.slashes (heq ▸ mem_cons_self)
        by_cases hp : parts = []
        · exact ⟨c, s, by rw [hp, joined_single], hc⟩
        · exact ⟨c, s ++ 47 :: joined parts, by rw [joined_cons _ hp]; rfl, hc⟩
  obtain ⟨c, rest, hjoined, hc⟩ := hhead
  have hsegments := segments_joined (fun s hs => (h s hs).slashes) hne
  refine ⟨?_, by simp [hjoined, hc]⟩
  have hkept : joined (List.foldl (resolveSegment false) [] (segments (joined parts))).reverse
      = joined parts := by
    rw [hsegments, foldl_resolveSegment false h, append_nil, reverse_reverse]
  have habsolute : decide ((joined parts).head? = some 47) = false := by simp [hjoined, hc]
  unfold normalize
  rw [if_neg (by simp [hjoined])]
  dsimp only
  rw [habsolute, hkept]
  rw [hjoined] at hlast
  simp [hlast, hjoined]

theorem mem_joined {s : JsString} {c : UInt16} (hs : s ∈ parts) (hc : c ∈ s) : c ∈ joined parts := by
  induction parts with
  | nil => cases hs
  | cons t parts ih =>
    by_cases hp : parts = []
    · subst hp
      obtain rfl := mem_singleton.mp hs
      rw [joined_single]
      exact hc
    · rw [joined_cons t hp]
      rcases mem_cons.mp hs with rfl | hs
      · exact mem_append_left _ hc
      · exact mem_append_right _ (mem_cons_of_mem _ (ih hs))

/-! ## The name of a concept and back -/

/-- The last segment of a concept's file. -/
def conceptFile (basename : JsString) : JsString :=
  if reservedBasename basename then basename ++ js ".concept.md" else basename ++ js ".md"

/-- The segments of a clean path, the last one apart. -/
theorem CleanPath.split {path : JsString} (h : CleanPath path) : ∃ init basename, segments path = init ++ [basename] ∧
    joined (init ++ [basename]) = path ∧ (∀ s ∈ init, Plain s) ∧ Plain basename ∧ 46 ∉ basename := by
  have hne : segments path ≠ [] := splitOn_ne_nil 47 path
  have hlast := dropLast_append_getLast hne
  have hplain : ∀ s ∈ segments path, Plain s ∧ 46 ∉ s := by
    intro s hs
    have hdot : 46 ∉ s := fun hmem => h.dots (joined_segments path ▸ mem_joined hs hmem)
    exact ⟨plain_of_no_dot (h.named s hs) hdot (segments_no_slash path s hs), hdot⟩
  refine ⟨(segments path).dropLast, (segments path).getLast hne, hlast.symm,
    by rw [hlast, joined_segments], ?_, ?_, ?_⟩
  · exact fun s hs => (hplain s (mem_of_mem_dropLast hs)).1
  · exact (hplain _ (getLast_mem hne)).1
  · exact (hplain _ (getLast_mem hne)).2

theorem plain_conceptFile {basename : JsString} (h : Plain basename) : Plain (conceptFile basename) := by
  obtain ⟨c, rest, rfl⟩ := exists_cons_of_ne_nil h.named
  have hslash := h.slashes
  have hlength : 3 ≤ (conceptFile (c :: rest)).length := by
    unfold conceptFile
    split <;> simp [js, utf16]
  constructor
  · unfold conceptFile
    split <;> simp
  · intro heq
    rw [heq] at hlength
    exact absurd hlength (by decide)
  · intro heq
    rw [heq] at hlength
    exact absurd hlength (by decide)
  · have hmd : (47 : UInt16) ∉ js ".md" := by decide
    have hconcept : (47 : UInt16) ∉ js ".concept.md" := by decide
    unfold conceptFile
    split
    · simpa [hconcept] using hslash
    · simpa [hmd] using hslash

/-- The file of a concept as joined segments. -/
theorem okfFilePath_eq_joined {locale path basename : JsString} {init : List JsString}
    (hsplit : segments path = init ++ [basename]) :
    okfFilePath locale path = joined (locale :: (init ++ [conceptFile basename])) := by
  have hne : init ++ [conceptFile basename] ≠ [] := by simp
  have hescaped : escapedConceptPath path ++ js ".md" = joined (init ++ [conceptFile basename]) := by
    unfold escapedConceptPath conceptFile
    rw [hsplit]
    simp only [getLast?_append, getLast?_singleton, Option.some_or, Option.getD_some, dropLast_concat]
    split
    · rw [joined_append_last, append_assoc]
      rfl
    · rw [joined_append_last]
  rw [joined_cons locale hne, ← hescaped]
  rfl

theorem take_append_length (s : JsString) {tail : JsString} {n : Nat} (h : tail.length = n) :
    (s ++ tail).take ((s ++ tail).length - n) = s := by
  rw [← h, length_append, Nat.add_sub_cancel, take_left]

theorem endsWith_append (s tail : JsString) : endsWith (s ++ tail) tail = true := by
  simp [endsWith, isSuffixOf_iff_suffix]

theorem conceptFile_reserved {basename : JsString} (hr : reservedBasename basename = true) :
    conceptFile basename = (basename ++ js ".concept") ++ js ".md" := by
  rw [conceptFile, if_pos hr, append_assoc]
  rfl

theorem conceptFile_endsWith (basename : JsString) : endsWith (conceptFile basename) (js ".md") = true := by
  by_cases hr : reservedBasename basename = true
  · rw [conceptFile_reserved hr]
    exact endsWith_append _ _
  · rw [conceptFile, if_neg hr]
    exact endsWith_append _ _

/-- The name without `.md` and without the escape. -/
theorem conceptBasename_conceptFile {basename : JsString} (hdot : 46 ∉ basename) :
    conceptBasename (conceptFile basename) = some basename := by
  have hmd : (js ".md").length = 3 := rfl
  have hsuffix : (js ".concept").length = 8 := rfl
  unfold conceptBasename
  by_cases hr : reservedBasename basename = true
  · rw [conceptFile_reserved hr]
    dsimp only
    rw [take_append_length _ hmd, take_append_length _ hsuffix, endsWith_append, hr]
    rfl
  · rw [conceptFile, if_neg hr]
    dsimp only
    rw [take_append_length _ hmd]
    have hends : endsWith basename (js ".concept") = false := by
      rw [Bool.eq_false_iff]
      intro h
      have hsuffix : js ".concept" <:+ basename := by
        simpa [endsWith, isSuffixOf_iff_suffix] using h
      exact hdot (hsuffix.subset (by decide))
    rw [hends]
    simp [hr]

/-- **Round trip.** The file of a clean page tells its locale and path. -/
theorem parseOkfFilePath_okfFilePath {locale path : JsString} (hl : CleanLocale locale)
    (hp : CleanPath path) : parseOkfFilePath (okfFilePath locale path) = some (locale, path) := by
  obtain ⟨init, basename, hsplit, hjoined, hinit, hbase, hdot⟩ := hp.split
  have hfile : okfFilePath locale path = joined (locale :: (init ++ [conceptFile basename])) :=
    okfFilePath_eq_joined hsplit
  have hparts : ∀ s ∈ locale :: (init ++ [conceptFile basename]), Plain s := by
    intro s hs
    rcases mem_cons.mp hs with rfl | hs
    · exact plain_of_no_dot hl.named hl.dots hl.slashes
    · rcases mem_append.mp hs with hs | hs
      · exact hinit s hs
      · obtain rfl := mem_singleton.mp hs
        exact plain_conceptFile hbase
  obtain ⟨hnormal, hhead⟩ := normalize_joined (by simp) hparts
  have hsegments := segments_joined (fun s hs => (hparts s hs).slashes) (by simp)
  have hdrop : (joined (locale :: (init ++ [conceptFile basename]))).dropWhile (· = 47)
      = joined (locale :: (init ++ [conceptFile basename])) := by
    cases hj : joined (locale :: (init ++ [conceptFile basename])) with
    | nil => rfl
    | cons c rest =>
      rw [hj] at hhead
      have hc : c ≠ 47 := by simpa using hhead
      simp [hc]
  have hstart : startsWith (joined (locale :: (init ++ [conceptFile basename]))) (js "../")
      = false := by
    obtain ⟨c, rest, rfl⟩ := exists_cons_of_ne_nil hl.named
    have hc : (46 : UInt16) ≠ c := fun heq => hl.dots (heq ▸ mem_cons_self)
    have hdots : js "../" = [46, 46, 47] := rfl
    rw [joined_cons _ (by simp), hdots]
    simp [startsWith, List.isPrefixOf, hc]
  have hidentity : importedConceptIdentity (okfFilePath locale path) = some (locale, path) := by
    unfold importedConceptIdentity
    rw [hfile, hnormal, hdrop]
    dsimp only
    rw [hstart, hsegments]
    have hlast : (locale :: (init ++ [conceptFile basename])).getLast?.getD [] = conceptFile basename := by
      rw [← cons_append, getLast?_concat]
      rfl
    rw [hlast, conceptFile_endsWith, conceptBasename_conceptFile hdot]
    simp [hjoined]
  have hne : path ≠ [] := by
    rintro rfl
    exact hp.named [] (by simp [segments]) rfl
  unfold parseOkfFilePath
  rw [hidentity]
  simp [Option.filter, hl.named, hne]

/-- What tells a concept ends in `.md`. -/
theorem endsWith_of_parseOkfFilePath {filePath : JsString} {identity : JsString × JsString}
    (h : parseOkfFilePath filePath = some identity) : endsWith filePath (js ".md") = true := by
  obtain ⟨-, hidentity⟩ := Option.filter_eq_some_iff.mp h
  simp only [Bool.and_eq_true, decide_eq_true_eq] at hidentity
  rw [← hidentity.2, okfFilePath, ← cons_append, ← append_assoc]
  exact endsWith_append _ _

/-- A name is taken apart at its last dot. -/
theorem splitExtension_append (stem : JsString) {extension : JsString} (h : 46 ∉ extension) :
    splitExtension (stem ++ 46 :: extension) = some (stem, extension) := by
  have hrev : ∀ c ∈ extension.reverse, (decide (c ≠ 46)) = true := by
    intro c hc
    have hmem : c ∈ extension := mem_reverse.mp hc
    simpa using fun heq : c = 46 => h (heq ▸ hmem)
  have hreverse : (stem ++ 46 :: extension).reverse
      = extension.reverse ++ (46 :: stem.reverse) := by
    simp
  unfold splitExtension
  rw [hreverse, dropWhile_append_of_pos hrev, takeWhile_append_of_pos hrev]
  simp

end TsEpistle.Storage
