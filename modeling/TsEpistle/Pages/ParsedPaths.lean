import TsEpistle.LiveNotes.Title
import TsEpistle.Storage.Paths

/-! The page that a URL names (`parsePath` of `server/helpers/page.ts`). -/

namespace TsEpistle.Pages.ParsedPaths
open Library Storage List
open LiveNotes (whitespace stripped)

/-- What the code is given: the locales of the wiki, `qs.unescape` and `toLowerCase`. -/
structure Wiki where
  langCode : JsString
  (localeCodes namespaces : List JsString)
  (unescape toLowerCase : JsString → JsString)

structure ParsedPath where
  (locale path : JsString)
  explicitLocale : Bool
  deriving DecidableEq

def letter (unit : UInt16) : Bool := (65 ≤ unit && unit ≤ 90) || (97 ≤ unit && unit ≤ 122)

/-- `localeSegmentRegex` -/
def localePattern : JsString → Bool
  | [first, second] => letter first && letter second
  | [first, second, dash, third, fourth] =>
    letter first && letter second && dash = 45 && letter third && letter fourth
  | _ => false

def localeSegment (wiki : Wiki) (segment : JsString) : Option JsString :=
  match (wiki.localeCodes ++ wiki.langCode :: wiki.namespaces).find? fun code =>
      wiki.toLowerCase code = wiki.toLowerCase segment with
  | some code => some code
  | none => if localePattern segment then some segment else none

/-- `unsafeCharsRegex` -/
def unsafeChar (unit : UInt16) : Bool :=
  unit ≤ 0x1f || (0x80 ≤ unit && unit ≤ 0x9f) || [92, 34, 124, 60, 62, 58, 42, 63].contains unit

/-- `replace(/\/\//g, '')` -/
def dropSlashPairs : JsString → JsString
  | 47 :: 47 :: rest => dropSlashPairs rest
  | unit :: rest => unit :: dropSlashPairs rest
  | [] => []

/-- `replace(/\.\.+/g, '')`; `inRun` after a dot that has gone. -/
def dropDotRuns (inRun : Bool) : JsString → JsString
  | [] => []
  | unit :: rest =>
    if unit = 46 then
      if inRun || rest.head? = some 46 then dropDotRuns true rest else 46 :: dropDotRuns false rest
    else unit :: dropDotRuns false rest

def trimmed (wiki : Wiki) (rawPath : JsString) : JsString := stripped whitespace (wiki.unescape rawPath)

def dropFirstSlash (path : JsString) : JsString := if path.head? = some 47 then path.drop 1 else path

/-- The expression has no `g`: one character goes. -/
def dropUnsafe (path : JsString) : JsString := path.eraseP unsafeChar

def cleaned (wiki : Wiki) (rawPath : JsString) : JsString :=
  let path := dropUnsafe (dropFirstSlash (trimmed wiki rawPath))
  let path := if path = [] then js "home" else path
  dropDotRuns false (dropSlashPairs (path.filter (· ≠ 92)))

def keptPart (part : JsString) : Bool :=
  let part := stripped whitespace part
  part ≠ [] && part ≠ js ".." && part ≠ js "."

def dropShort : List JsString → List JsString
  | [] => []
  | first :: rest => if first.length = 1 then rest else first :: rest

/-- The locale when the first part is one, with the other parts; an empty code counts for nothing. -/
def takeLocale (wiki : Wiki) : List JsString → Option JsString × List JsString
  | [] => (none, [])
  | first :: rest =>
    match localeSegment wiki first with
    | some (unit :: code) => (some (unit :: code), rest)
    | _ => (none, first :: rest)

/-- `indexOf('.') > 0` -/
def hasExtension (part : JsString) : Bool := part.contains 46 && part.head? ≠ some 46

/-- `path.parse(part).name` of such a part. -/
def partName (part : JsString) : JsString := ((splitExtension part).map (·.1)).getD part

def stripExtension (parts : List JsString) : List JsString :=
  match parts.getLast? with
  | none => parts
  | some last => if hasExtension last then parts.dropLast ++ [partName last] else parts

/-- The parts of the path that are left after the first of one character. -/
def rawParts (wiki : Wiki) (rawPath : JsString) : List JsString :=
  dropShort ((segments (cleaned wiki rawPath)).filter keptPart)

def pathParts (wiki : Wiki) (rawPath : JsString) (stripExt : Bool) : List JsString :=
  let parts := (takeLocale wiki (rawParts wiki rawPath)).2
  if stripExt then stripExtension parts else parts

def parsePath (wiki : Wiki) (rawPath : JsString) (stripExt : Bool) : ParsedPath :=
  let locale := (takeLocale wiki (rawParts wiki rawPath)).1
  { locale := locale.getD wiki.langCode
    path := joined (pathParts wiki rawPath stripExt)
    explicitLocale := locale.isSome }

/-! ## Steps that only take away -/

theorem dropSlashPairs_sublist (path : JsString) : (dropSlashPairs path).Sublist path := by
  induction path using dropSlashPairs.induct with
  | case1 rest ih => exact (ih.trans (sublist_cons_self _ _)).trans (sublist_cons_self _ _)
  | case2 unit rest hpair ih =>
    rw [dropSlashPairs.eq_2 _ _ hpair]
    exact ih.cons_cons unit
  | case3 => exact Sublist.refl _

theorem dropDotRuns_sublist (inRun : Bool) (path : JsString) : (dropDotRuns inRun path).Sublist path := by
  induction path generalizing inRun with
  | nil => exact Sublist.refl _
  | cons unit rest ih =>
    unfold dropDotRuns
    split_ifs with hdot _
    · exact (ih true).cons unit
    · exact hdot ▸ (ih false).cons_cons unit
    · exact (ih false).cons_cons unit

theorem stripped_sublist (path : JsString) : (stripped whitespace path).Sublist path := by
  unfold stripped
  rw [← reverse_sublist, reverse_reverse]
  exact (dropWhile_sublist _).trans (reverse_sublist.mpr (dropWhile_sublist _))

theorem dropFirstSlash_sublist (path : JsString) : (dropFirstSlash path).Sublist path := by
  unfold dropFirstSlash
  split
  · exact drop_sublist 1 path
  · exact Sublist.refl _

theorem dropShort_suffix (parts : List JsString) : dropShort parts <:+ parts := by
  cases parts with
  | nil => exact suffix_refl _
  | cons first rest =>
    rw [dropShort]
    split
    · exact suffix_cons _ _
    · exact suffix_refl _

theorem takeLocale_suffix (wiki : Wiki) (parts : List JsString) : (takeLocale wiki parts).2 <:+ parts := by
  cases parts with
  | nil => exact suffix_refl _
  | cons first rest =>
    rw [takeLocale]
    split
    · exact suffix_cons _ _
    · exact suffix_refl _

/-! ## Doubled characters -/

def NoDouble (unit : UInt16) (text : JsString) : Prop :=
  text.IsChain fun first second => ¬ (first = unit ∧ second = unit)

theorem NoDouble.of_not_mem {unit : UInt16} {text : JsString} (h : unit ∉ text) : NoDouble unit text := by
  induction text with
  | nil => exact List.IsChain.nil
  | cons first rest ih =>
    refine isChain_cons.mpr ⟨fun _ _ hboth => ?_, ih fun hmem => h (mem_cons_of_mem _ hmem)⟩
    exact h (hboth.1 ▸ mem_cons_self)

theorem head?_dropDotRuns {path : JsString} (h : path.head? ≠ some 46) (inRun : Bool) :
    (dropDotRuns inRun path).head? ≠ some 46 := by
  cases path with
  | nil => exact nofun
  | cons unit rest =>
    have hne : unit ≠ 46 := fun heq => h (congrArg some heq)
    rw [dropDotRuns, if_neg hne]
    exact h

theorem dropDotRuns_noDouble (inRun : Bool) (path : JsString) :
    NoDouble 46 (dropDotRuns inRun path) ∧ (inRun = true → (dropDotRuns inRun path).head? ≠ some 46) := by
  induction path generalizing inRun with
  | nil => exact ⟨List.IsChain.nil, fun _ => nofun⟩
  | cons unit rest ih =>
    rw [dropDotRuns]
    split_ifs with hdot hrun
    · exact ⟨(ih true).1, fun _ => (ih true).2 rfl⟩
    · simp only [Bool.or_eq_true, decide_eq_true_eq, not_or, Bool.not_eq_true] at hrun
      refine ⟨isChain_cons.mpr ⟨?_, (ih false).1⟩, fun htrue => ?_⟩
      · intro second hsecond hboth
        exact head?_dropDotRuns hrun.2 false (hboth.2 ▸ hsecond)
      · rw [htrue] at hrun
        cases hrun.1
    · refine ⟨isChain_cons.mpr ⟨fun _ _ hboth => hdot hboth.1, (ih false).1⟩, fun _ hhead => ?_⟩
      exact hdot (Option.some.inj hhead)

theorem dropDotRuns_of_noDouble {path : JsString} (h : NoDouble 46 path) : dropDotRuns false path = path := by
  induction path with
  | nil => rfl
  | cons unit rest ih =>
    obtain ⟨hnext, hrest⟩ := isChain_cons.mp h
    rw [dropDotRuns]
    split_ifs with hdot hrun
    · have hhead : rest.head? = some 46 := by simpa using hrun
      exact absurd ⟨hdot, rfl⟩ (hnext 46 hhead)
    · rw [ih hrest, hdot]
    · rw [ih hrest]

theorem dropSlashPairs_of_noDouble {path : JsString} (h : NoDouble 47 path) : dropSlashPairs path = path := by
  induction path using dropSlashPairs.induct with
  | case1 rest ih => exact absurd ⟨rfl, rfl⟩ ((isChain_cons.mp h).1 47 rfl)
  | case2 unit rest hpair ih => rw [dropSlashPairs.eq_2 _ _ hpair, ih (isChain_cons.mp h).2]
  | case3 => rfl

variable {parts : List JsString}

/-- Between parts there is one slash. -/
theorem noDouble_joined {unit : UInt16} (h : ∀ part ∈ parts, NoDouble unit part)
    (hends : unit = 47 → ∀ part ∈ parts, part ≠ [] ∧ 47 ∉ part) : NoDouble unit (joined parts) := by
  induction parts with
  | nil => exact List.IsChain.nil
  | cons part parts ih =>
    by_cases hnil : parts = []
    · rw [hnil, joined_single]
      exact h part mem_cons_self
    · have hrest := ih (fun other hother => h other (mem_cons_of_mem _ hother))
        fun hunit other hother => hends hunit other (mem_cons_of_mem _ hother)
      rw [joined_cons part hnil]
      refine isChain_append.mpr ⟨h part mem_cons_self, isChain_cons.mpr ⟨?_, hrest⟩, ?_⟩
      · rintro second hsecond ⟨hslash, rfl⟩
        obtain ⟨next, others, rfl⟩ := exists_cons_of_ne_nil hnil
        obtain ⟨hne, hfree⟩ := hends hslash.symm next (mem_cons_of_mem _ mem_cons_self)
        obtain ⟨first, tail, rfl⟩ := exists_cons_of_ne_nil hne
        have hhead : (joined ((first :: tail) :: others)).head? = some first := by
          cases others with
          | nil => rw [joined_single]; rfl
          | cons other others => rw [joined_cons _ (cons_ne_nil _ _)]; rfl
        rw [hhead] at hsecond
        exact hfree ((Option.some.inj hsecond).trans hslash.symm ▸ mem_cons_self)
      · rintro last hlast second hsecond ⟨hsame, hslash⟩
        have hunit : unit = 47 := hslash.symm.trans (Option.some.inj hsecond).symm
        exact (hends hunit part mem_cons_self).2 (hunit ▸ hsame ▸ mem_of_getLast? hlast)

/-! ## Parts -/

variable {part : JsString}

theorem joined_holds (h : part ∈ parts) : part <:+: joined parts := by
  induction parts with
  | nil => cases h
  | cons first parts ih =>
    by_cases hnil : parts = []
    · subst hnil
      rw [joined_single, mem_singleton.mp h]
    · rw [joined_cons first hnil]
      rcases mem_cons.mp h with rfl | h
      · exact (prefix_append _ _).isInfix
      · exact (ih h).trans ((suffix_cons _ _).trans (suffix_append _ _)).isInfix

/-- A part that `filter` keeps of a path that has been cleaned. -/
structure Cleaned (part : JsString) : Prop where
  kept : keptPart part = true
  slash : 47 ∉ part
  backslash : 92 ∉ part
  dots : NoDouble 46 part

theorem backslash_cleaned (wiki : Wiki) (rawPath : JsString) : 92 ∉ cleaned wiki rawPath := by
  intro hmem
  have hfiltered := (dropSlashPairs_sublist _).subset ((dropDotRuns_sublist false _).subset hmem)
  simpa using (mem_filter.mp hfiltered).2

theorem locatedParts_cleaned (wiki : Wiki) (rawPath : JsString) :
    ∀ part ∈ (takeLocale wiki (rawParts wiki rawPath)).2, Cleaned part := by
  intro part hpart
  have hkept := (dropShort_suffix _).subset ((takeLocale_suffix wiki _).subset hpart)
  obtain ⟨hsegment, hkept⟩ := mem_filter.mp hkept
  have hinside := joined_holds hsegment
  rw [joined_segments] at hinside
  have hdots : NoDouble 46 (cleaned wiki rawPath) := (dropDotRuns_noDouble false _).1
  refine ⟨hkept, segments_no_slash _ _ hsegment, fun hmem => backslash_cleaned wiki rawPath (hinside.subset hmem), ?_⟩
  obtain ⟨before, after, heq⟩ := hinside
  rw [← heq] at hdots
  exact (isChain_append.mp (isChain_append.mp hdots).1).2.1

theorem Cleaned.ne (h : Cleaned part) : part ≠ [] ∧ part ≠ js "." ∧ part ≠ js ".." := by
  refine ⟨?_, ?_, ?_⟩ <;> (rintro rfl; exact absurd h.kept (by decide))

/-- The name of a part with an extension goes up to its last dot. -/
theorem partName_spec (h : hasExtension part = true) :
    ∃ extension, part = partName part ++ 46 :: extension ∧ partName part ≠ [] ∧ (partName part).head? ≠ some 46 := by
  obtain ⟨hdot, hhead⟩ := Bool.and_eq_true_iff.mp h
  have hdot : 46 ∈ part := by simpa using hdot
  have hhead : part.head? ≠ some 46 := by simpa using hhead
  obtain ⟨after, before, hreverse, hlast⟩ := eq_append_cons_of_mem (mem_reverse.mpr hdot)
  have hpart : part = before.reverse ++ 46 :: after.reverse := by
    rw [← reverse_reverse part, hreverse]
    simp
  have hname : partName part = before.reverse := by
    unfold partName
    rw [hpart, splitExtension_append _ (by simpa using hlast)]
    rfl
  rw [hname]
  refine ⟨after.reverse, hpart, ?_, ?_⟩
  · intro hnil
    rw [hpart, hnil] at hhead
    exact hhead rfl
  · intro hfirst
    apply hhead
    rw [hpart, head?_append, hfirst]
    rfl

/-! ## Paths that were returned -/

theorem stripExtension_mem (h : part ∈ stripExtension parts) : part ∈ parts ∨ ∃ last ∈ parts, hasExtension last = true ∧
    part = partName last ∧ (stripExtension parts).getLast? = some part := by
  unfold stripExtension at h ⊢
  cases hlast : parts.getLast? with
  | none =>
    rw [hlast] at h
    exact .inl h
  | some last =>
    rw [hlast] at h
    dsimp only at h ⊢
    split_ifs at h ⊢ with hextension
    · rcases mem_append.mp h with h | h
      · exact .inl (dropLast_subset _ h)
      · have hpart := mem_singleton.mp h
        refine .inr ⟨last, mem_of_getLast? hlast, hextension, hpart, ?_⟩
        rw [getLast?_append, hpart]
        rfl
    · exact .inl h

/-- What every part that is returned is like; only a name whose extension went may be blank, as the last part. -/
structure Returned (part : JsString) : Prop where
  ne : part ≠ [] ∧ part ≠ js "." ∧ part ≠ js ".."
  slash : 47 ∉ part
  backslash : 92 ∉ part
  dots : NoDouble 46 part

theorem Cleaned.returned (h : Cleaned part) : Returned part := ⟨h.ne, h.slash, h.backslash, h.dots⟩

theorem Cleaned.partName (h : Cleaned part) (hextension : hasExtension part = true) : Returned (partName part) := by
  obtain ⟨extension, hpart, hne, hhead⟩ := partName_spec hextension
  have hsub : ∀ unit ∈ ParsedPaths.partName part, unit ∈ part := by
    intro unit hunit
    rw [hpart]
    exact mem_append_left _ hunit
  have hdots := h.dots
  rw [hpart] at hdots
  refine ⟨⟨hne, ?_, ?_⟩, fun hmem => h.slash (hsub _ hmem), fun hmem => h.backslash (hsub _ hmem), ?_⟩
  · exact fun hdot => hhead (by rw [hdot]; rfl)
  · exact fun hdots => hhead (by rw [hdots]; rfl)
  · exact (isChain_append.mp hdots).1

variable {wiki : Wiki}

/-- A part is kept, or it is the last and a name that no dot ends. -/
theorem pathParts_mem {rawPath part : JsString} {stripExt : Bool} (h : part ∈ pathParts wiki rawPath stripExt) :
    Returned part ∧
    (keptPart part = true ∨ (pathParts wiki rawPath stripExt).getLast? = some part ∧ part.getLast? ≠ some 46) := by
  have hcleaned := locatedParts_cleaned wiki rawPath
  unfold pathParts at h ⊢
  dsimp only at h ⊢
  split_ifs at h ⊢
  · rcases stripExtension_mem h with h | ⟨last, hlast, hextension, rfl, hplace⟩
    · exact ⟨(hcleaned part h).returned, .inl (hcleaned part h).kept⟩
    · refine ⟨(hcleaned last hlast).partName hextension, .inr ⟨hplace, fun hdot => ?_⟩⟩
      obtain ⟨extension, hpart, -, -⟩ := partName_spec hextension
      have hdots := (hcleaned last hlast).dots
      rw [hpart] at hdots
      exact (isChain_append.mp hdots).2.2 46 hdot 46 rfl ⟨rfl, rfl⟩
  · exact ⟨(hcleaned part h).returned, .inl (hcleaned part h).kept⟩

/-- A part whose last character is neither white space nor a dot is kept. -/
theorem keptPart_of_getLast {unit : UInt16} (h : part.getLast? = some unit)
    (hspace : whitespace unit = false) (hdot : unit ≠ 46) : keptPart part = true := by
  obtain ⟨init, rfl⟩ := getLast?_eq_some_iff.mp h
  have hstripped : ∃ tail, stripped whitespace (init ++ [unit]) = tail ++ [unit] := by
    obtain ⟨tail, htail⟩ : ∃ tail, (init ++ [unit]).dropWhile whitespace = tail ++ [unit] := by
      induction init with
      | nil => exact ⟨[], dropWhile_cons_of_neg (by simp [hspace])⟩
      | cons first init ih =>
        by_cases hfirst : whitespace first = true
        · rw [cons_append, dropWhile_cons_of_pos hfirst]
          exact ih (by simp)
        · exact ⟨first :: init, dropWhile_cons_of_neg hfirst⟩
    refine ⟨tail, ?_⟩
    unfold stripped
    rw [htail, reverse_append, reverse_singleton, singleton_append,
      dropWhile_cons_of_neg (by simp [hspace]), reverse_cons, reverse_reverse]
  obtain ⟨tail, htail⟩ := hstripped
  have hother : ∀ text : JsString, text.getLast? ≠ some unit → tail ++ [unit] ≠ text := by
    rintro text hne rfl
    exact hne (by simp)
  unfold keptPart
  rw [htail]
  simp only [Bool.and_eq_true, decide_eq_true_eq]
  refine ⟨⟨hother _ nofun, hother _ fun hlast => ?_⟩, hother _ fun hlast => ?_⟩
  · exact hdot (Option.some.inj hlast).symm
  · exact hdot (Option.some.inj hlast).symm

/-- Text that trimming leaves alone does not end in white space. -/
theorem getLast_of_stripped {text : JsString} (h : stripped whitespace text = text) {unit : UInt16}
    (hlast : text.getLast? = some unit) : whitespace unit = false := by
  have hhead : text.reverse.head? = some unit := by rw [head?_reverse, hlast]
  unfold stripped at h
  have hreverse : (text.dropWhile whitespace).reverse.dropWhile whitespace = text.reverse := by
    rw [← reverse_inj, reverse_reverse]
    exact h
  have hne : (text.dropWhile whitespace).reverse.dropWhile whitespace ≠ [] := by
    rw [hreverse]
    intro hnil
    rw [hnil] at hhead
    cases hhead
  have hnot := head_dropWhile_not whitespace hne
  have hfirst := head?_eq_some_head hne
  rw [congrArg List.head? hreverse, hhead] at hfirst
  rw [Option.some.inj hfirst]
  exact hnot

theorem takeLocale_none {first : JsString} (h : localeSegment wiki first = none)
    (rest : List JsString) : takeLocale wiki (first :: rest) = (none, first :: rest) := by
  rw [takeLocale, h]

/-- A safe path that unescaping and trimming leave alone comes apart into its parts again. -/
theorem rawParts_joined {first : JsString} {rest : List JsString} (hparts : parts = first :: rest)
    (hlong : 1 < first.length) (hreturned : ∀ part ∈ parts, Returned part)
    (hkept : ∀ part ∈ parts, keptPart part = true) (hsafe : ∀ unit ∈ joined parts, unsafeChar unit = false)
    (htrimmed : trimmed wiki (joined parts) = joined parts) : rawParts wiki (joined parts) = parts := by
  have hne : parts ≠ [] := by simp [hparts]
  have hinside := joined_holds (show first ∈ parts by simp [hparts])
  have hlength : 0 < (joined parts).length := lt_of_lt_of_le (by omega) hinside.length_le
  have hhead : (joined parts).head? ≠ some 47 := by
    obtain ⟨unit, tail, htail⟩ := exists_cons_of_length_pos (show 0 < first.length by omega)
    have hslash := (hreturned first (by simp [hparts])).slash
    have hfirst : (joined parts).head? = some unit := by
      rw [hparts, htail]
      cases rest with
      | nil => rw [joined_single]; rfl
      | cons other others => rw [joined_cons _ (cons_ne_nil _ _)]; rfl
    rw [hfirst]
    intro hunit
    exact hslash (htail ▸ Option.some.inj hunit ▸ mem_cons_self)
  have hcleaned : cleaned wiki (joined parts) = joined parts := by
    have hslash : dropFirstSlash (joined parts) = joined parts := if_neg hhead
    have hunsafe : dropUnsafe (joined parts) = joined parts :=
      eraseP_of_forall_not fun unit hunit => by simp [hsafe unit hunit]
    have hbackslash : (joined parts).filter (· ≠ 92) = joined parts := by
      refine filter_eq_self.mpr fun unit hunit => decide_eq_true ?_
      rintro rfl
      exact absurd (hsafe 92 hunit) (by decide)
    have hslashes : NoDouble 47 (joined parts) :=
      noDouble_joined (fun part hpart => .of_not_mem (hreturned part hpart).slash)
        fun _ part hpart => ⟨(hreturned part hpart).ne.1, (hreturned part hpart).slash⟩
    have hdots : NoDouble 46 (joined parts) :=
      noDouble_joined (fun part hpart => (hreturned part hpart).dots) fun h => absurd h (by decide)
    unfold cleaned
    dsimp only
    rw [htrimmed, hslash, hunsafe, if_neg (ne_nil_of_length_pos hlength), hbackslash,
      dropSlashPairs_of_noDouble hslashes, dropDotRuns_of_noDouble hdots]
  unfold rawParts
  rw [hcleaned, segments_joined (fun part hpart => (hreturned part hpart).slash) hne,
    filter_eq_self.mpr hkept, hparts, dropShort, if_neg (by omega)]

/-! ## Lengths -/

theorem joined_sublist {parts parts' : List JsString} (h : parts.Sublist parts') :
    (joined parts).Sublist (joined parts') := by
  induction h with
  | slnil => exact Sublist.refl _
  | @cons parts parts' part hsub ih =>
    by_cases hnil : parts' = []
    · subst hnil
      rw [sublist_nil.mp hsub]
      exact nil_sublist _
    · rw [joined_cons part hnil]
      exact (ih.cons 47).trans (sublist_append_right _ _)
  | @cons_cons parts parts' part hsub ih =>
    by_cases hnil : parts' = []
    · subst hnil
      rw [sublist_nil.mp hsub]
    · rw [joined_cons part hnil]
      by_cases hnone : parts = []
      · subst hnone
        rw [joined_single]
        exact sublist_append_left _ _
      · rw [joined_cons part hnone]
        exact (ih.cons_cons 47).append_left part

/-- Stripping takes an extension off the end of the path, or changes nothing. -/
theorem joined_stripExtension (parts : List JsString) :
    stripExtension parts = parts ∧ (∀ last, parts.getLast? = some last → hasExtension last = false)
    ∨ (∃ last, parts.getLast? = some last ∧ hasExtension last = true)
      ∧ ∃ extension, joined parts = joined (stripExtension parts) ++ 46 :: extension := by
  unfold stripExtension
  cases hlast : parts.getLast? with
  | none => exact .inl ⟨rfl, nofun⟩
  | some last =>
    obtain ⟨init, rfl⟩ := getLast?_eq_some_iff.mp hlast
    dsimp only
    rw [dropLast_concat]
    split_ifs with hextension
    · obtain ⟨extension, hpart, -, -⟩ := partName_spec hextension
      refine .inr ⟨⟨last, rfl, hextension⟩, extension, ?_⟩
      rw [joined_append_last, ← hpart]
    · refine .inl ⟨rfl, fun other hother => ?_⟩
      rw [← Option.some.inj hother]
      exact Bool.eq_false_iff.mpr hextension

theorem joined_stripExtension_sublist (parts : List JsString) :
    (joined (stripExtension parts)).Sublist (joined parts) := by
  rcases joined_stripExtension parts with ⟨hsame, -⟩ | ⟨-, extension, hjoined⟩
  · rw [hsame]
  · rw [hjoined]
    exact sublist_append_left _ _

theorem parsePath_sublist_cleaned (wiki : Wiki) (rawPath : JsString) (stripExt : Bool) :
    (parsePath wiki rawPath stripExt).path.Sublist (cleaned wiki rawPath) := by
  have hlocated : (joined (takeLocale wiki (rawParts wiki rawPath)).2).Sublist (cleaned wiki rawPath) := by
    have hsub := (((takeLocale_suffix wiki _).trans (dropShort_suffix _)).sublist).trans
      (filter_sublist (p := keptPart) (l := segments (cleaned wiki rawPath)))
    have hjoined := joined_sublist hsub
    rwa [joined_segments] at hjoined
  cases stripExt with
  | false => exact hlocated
  | true => exact (joined_stripExtension_sublist _).trans hlocated

theorem cleaned_sublist (wiki : Wiki) (rawPath : JsString) : (cleaned wiki rawPath).Sublist (trimmed wiki rawPath) ∨
    dropUnsafe (dropFirstSlash (trimmed wiki rawPath)) = [] ∧ cleaned wiki rawPath = js "home" := by
  have hsteps (path : JsString) : (dropDotRuns false (dropSlashPairs (path.filter (· ≠ 92)))).Sublist path :=
    ((dropDotRuns_sublist false _).trans (dropSlashPairs_sublist _)).trans filter_sublist
  unfold cleaned
  dsimp only
  split_ifs with hnil
  · exact .inr ⟨hnil, by decide⟩
  · exact .inl ((hsteps _).trans (eraseP_sublist.trans (dropFirstSlash_sublist _)))

theorem stripped_of_no_space {text : JsString} (h : ∀ unit ∈ text, whitespace unit = false) :
    stripped whitespace text = text := by
  have hdrop : ∀ other : JsString, (∀ unit ∈ other, whitespace unit = false) → other.dropWhile whitespace = other := by
    intro other hother
    cases other with
    | nil => rfl
    | cons unit rest => exact dropWhile_cons_of_neg (by simp [hother unit mem_cons_self])
  unfold stripped
  rw [hdrop text h, hdrop _ fun unit hunit => h unit (mem_reverse.mp hunit), reverse_reverse]

theorem suffix_joined {last : JsString} (h : parts.getLast? = some last) : last <:+ joined parts := by
  obtain ⟨init, rfl⟩ := getLast?_eq_some_iff.mp h
  induction init with
  | nil => rw [nil_append, joined_single]
  | cons part init ih =>
    rw [cons_append, joined_cons part (by simp)]
    exact (ih (by simp)).trans ((suffix_cons _ _).trans (suffix_append _ _))

theorem mem_of_mem_joined {unit : UInt16} (h : unit ∈ joined parts) : unit = 47 ∨ ∃ part ∈ parts, unit ∈ part := by
  induction parts with
  | nil => cases h
  | cons part parts ih =>
    by_cases hnil : parts = []
    · rw [hnil, joined_single] at h
      exact .inr ⟨part, mem_cons_self, h⟩
    · rw [joined_cons part hnil] at h
      rcases mem_append.mp h with h | h
      · exact .inr ⟨part, mem_cons_self, h⟩
      · rcases mem_cons.mp h with rfl | h
        · exact .inl rfl
        · exact (ih h).imp_right fun ⟨other, hother, hunit⟩ => ⟨other, mem_cons_of_mem _ hother, hunit⟩

/-- A path that comes back as it was is its own unescaped and trimmed text. -/
theorem trimmed_of_same (hshort : ∀ text, (wiki.unescape text).length ≤ text.length)
    (hplain : ∀ text, 37 ∉ text → wiki.unescape text = text) {path : JsString} (hne : path ≠ []) {stripExt : Bool}
    (h : (parsePath wiki path stripExt).path = path) : trimmed wiki path = path := by
  have hcleaned := parsePath_sublist_cleaned wiki path stripExt
  rw [h] at hcleaned
  rcases cleaned_sublist wiki path with htrimmed | ⟨hnil, hhome⟩
  · have hunescaped : (trimmed wiki path).Sublist (wiki.unescape path) := stripped_sublist _
    exact ((hcleaned.trans htrimmed).eq_of_length_le (hunescaped.length_le.trans (hshort path))).symm
  · -- only `home` comes from a path of which nothing is left
    rw [hhome] at hcleaned
    have hunits : ∀ unit ∈ path, unit ∈ js "home" := fun unit hunit => hcleaned.subset hunit
    have hhomes : ∀ unit ∈ js "home", whitespace unit = false ∧ unsafeChar unit = false ∧ unit ≠ 37 ∧ unit ≠ 47 := by
      intro unit hunit
      have hunit : unit ∈ [104, 111, 109, 101] := hunit
      simp only [mem_cons, not_mem_nil, or_false] at hunit
      rcases hunit with rfl | rfl | rfl | rfl <;> decide
    have hsame : trimmed wiki path = path := by
      unfold trimmed
      rw [hplain path fun hmem => (hhomes 37 (hunits 37 hmem)).2.2.1 rfl]
      exact stripped_of_no_space fun unit hunit => (hhomes unit (hunits unit hunit)).1
    have hslash : dropFirstSlash path = path := by
      refine if_neg fun hhead => ?_
      exact (hhomes 47 (hunits 47 (mem_of_mem_head? hhead))).2.2.2 rfl
    rw [hsame, hslash, dropUnsafe, eraseP_of_forall_not fun unit hunit => by
      simp [(hhomes unit (hunits unit hunit)).2.1]] at hnil
    exact absurd hnil hne

/-- The segments of a path that is trimmed already are kept: the last one ends with neither a space nor a point. -/
theorem keptPart_of_trimmed (hshort : ∀ text, (wiki.unescape text).length ≤ text.length)
    (hmem : ∀ part ∈ parts, Returned part
      ∧ (keptPart part = true ∨ parts.getLast? = some part ∧ part.getLast? ≠ some 46))
    (htrimmed : trimmed wiki (joined parts) = joined parts) :
    ∀ part ∈ parts, keptPart part = true := by
  intro part hpart
  obtain ⟨hreturned, hkept | ⟨hlast, hdot⟩⟩ := hmem part hpart
  · exact hkept
  obtain ⟨init, unit, hunit⟩ := eq_nil_or_concat part |>.resolve_left hreturned.ne.1
  have hend : part.getLast? = some unit := by rw [hunit]; simp
  have hunescaped : wiki.unescape (joined parts) = joined parts := by
    have hsub : (trimmed wiki (joined parts)).Sublist (wiki.unescape (joined parts)) := stripped_sublist _
    rw [htrimmed] at hsub
    exact (hsub.eq_of_length_le (hshort _)).symm
  have hspace : whitespace unit = false := by
    unfold trimmed at htrimmed
    rw [hunescaped] at htrimmed
    obtain ⟨before, hbefore⟩ := suffix_joined hlast
    refine getLast_of_stripped htrimmed ?_
    rw [← hbefore, getLast?_append, hend]
    rfl
  exact keptPart_of_getLast hend hspace fun hsame => hdot (hsame ▸ hend)

/-- A path that is trimmed already is parsed into the segments that it was joined of. -/
theorem parsePath_joined {first : JsString} {rest : List JsString} (hparts : parts = first :: rest)
    (hlong : 1 < first.length) (hlocale : localeSegment wiki first = none)
    (hreturned : ∀ part ∈ parts, Returned part) (hkept : ∀ part ∈ parts, keptPart part = true)
    (hsafe : ∀ unit ∈ joined parts, unsafeChar unit = false)
    (htrimmed : trimmed wiki (joined parts) = joined parts) (stripExt : Bool) :
    (parsePath wiki (joined parts) stripExt).path
      = joined (if stripExt = true then stripExtension parts else parts) := by
  unfold parsePath pathParts
  dsimp only
  rw [rawParts_joined hparts hlong hreturned hkept hsafe htrimmed, hparts, takeLocale_none hlocale]

/-- The extension is what stripping takes away. -/
theorem joined_stripExtension_iff (parts : List JsString) : joined (stripExtension parts) = joined parts
    ↔ ∀ last, parts.getLast? = some last → hasExtension last = false := by
  rcases joined_stripExtension parts with ⟨hsame, hextension⟩ | ⟨⟨last, hlast, hother⟩, extension, hlonger⟩
  · exact ⟨fun _ => hextension, fun _ => by rw [hsame]⟩
  · constructor
    · intro hsame
      have hlength := congrArg List.length hlonger
      rw [hsame, length_append, length_cons] at hlength
      omega
    · intro hextension
      rw [hextension last hlast] at hother
      cases hother

theorem parsePath_safe {wiki : Wiki} (hshort : ∀ text, (wiki.unescape text).length ≤ text.length)
    (hplain : ∀ text, 37 ∉ text → wiki.unescape text = text) (rawPath : JsString) (stripExt : Bool) :
    let path := (parsePath wiki rawPath stripExt).path
    (92 ∉ path ∧ (path = [] ∨ ∀ segment ∈ segments path, segment ≠ [] ∧ segment ≠ js "." ∧ segment ≠ js ".."))
    ∧ ∀ first, (segments path).head? = some first → 1 < first.length → localeSegment wiki first = none →
        (∀ unit ∈ path, unsafeChar unit = false) → ∀ stripExt' : Bool,
          ((parsePath wiki path stripExt').path = path ↔ trimmed wiki path = path
            ∧ (stripExt' = true → ∀ last, (segments path).getLast? = some last → hasExtension last = false)) := by
  have hmem (part : JsString) (h : part ∈ pathParts wiki rawPath stripExt) := pathParts_mem h
  have hpath : (parsePath wiki rawPath stripExt).path = joined (pathParts wiki rawPath stripExt) := rfl
  dsimp only
  rw [hpath]
  generalize pathParts wiki rawPath stripExt = parts at hmem
  have hreturned : ∀ part ∈ parts, Returned part := fun part hpart => (hmem part hpart).1
  have hslashes : ∀ part ∈ parts, 47 ∉ part := fun part hpart => (hreturned part hpart).slash
  refine ⟨⟨?_, ?_⟩, ?_⟩
  · intro hbackslash
    rcases mem_of_mem_joined hbackslash with hslash | ⟨part, hpart, hunit⟩
    · exact absurd hslash (by decide)
    · exact (hreturned part hpart).backslash hunit
  · by_cases hnil : parts = []
    · exact .inl (by rw [hnil]; rfl)
    · rw [segments_joined hslashes hnil]
      exact .inr fun part hpart => (hreturned part hpart).ne
  · intro first hfirst hlong hlocale hsafe stripExt'
    have hnil : parts ≠ [] := by
      rintro rfl
      rw [show segments (joined []) = [[]] by decide] at hfirst
      cases hfirst
      cases hlong
    rw [segments_joined hslashes hnil] at hfirst ⊢
    obtain ⟨rest, hparts⟩ : ∃ rest, parts = first :: rest := by
      cases parts with
      | nil => exact absurd rfl hnil
      | cons other rest => exact ⟨rest, by rw [Option.some.inj hfirst]⟩
    have hne : joined parts ≠ [] := by
      have hinside := joined_holds (show first ∈ parts by simp [hparts])
      exact ne_nil_of_length_pos (lt_of_lt_of_le (by omega) hinside.length_le)
    have hagain (htrimmed : trimmed wiki (joined parts) = joined parts) :=
      parsePath_joined hparts hlong hlocale hreturned
        (keptPart_of_trimmed hshort hmem htrimmed) hsafe htrimmed stripExt'
    constructor
    · intro hsame
      have htrimmed := trimmed_of_same hshort hplain hne hsame
      refine ⟨htrimmed, fun hstrip => ?_⟩
      rw [hagain htrimmed, if_pos hstrip] at hsame
      exact (joined_stripExtension_iff parts).mp hsame
    · rintro ⟨htrimmed, hextension⟩
      rw [hagain htrimmed]
      split_ifs with hstrip
      · exact (joined_stripExtension_iff parts).mpr (hextension hstrip)
      · rfl

/-! ## A wiki with English pages -/

def hexDigit (unit : UInt16) : Option Nat :=
  if 48 ≤ unit ∧ unit ≤ 57 then some (unit.toNat - 48)
  else if 65 ≤ unit ∧ unit ≤ 70 then some (unit.toNat - 55)
  else if 97 ≤ unit ∧ unit ≤ 102 then some (unit.toNat - 87)
  else none

/-- `unescape` where only characters of ASCII are escaped. -/
def unescapeAscii : JsString → JsString
  | 37 :: high :: low :: rest =>
    match hexDigit high, hexDigit low with
    | some high', some low' =>
      if high' < 8 then UInt16.ofNat (16 * high' + low') :: unescapeAscii rest
      else 37 :: unescapeAscii (high :: low :: rest)
    | _, _ => 37 :: unescapeAscii (high :: low :: rest)
  | unit :: rest => unit :: unescapeAscii rest
  | [] => []

def englishWiki : Wiki := ⟨js "en", [js "en"], [], unescapeAscii, lower⟩

theorem unescapeAscii_length_le (text : JsString) : (unescapeAscii text).length ≤ text.length := by
  fun_induction unescapeAscii text <;> simp only [length_cons, length_nil] at * <;> omega

theorem unescapeAscii_plain {text : JsString} (h : 37 ∉ text) : unescapeAscii text = text := by
  fun_induction unescapeAscii text <;> simp_all

theorem parsePath_safe_example : (parsePath englishWiki (js "/en/docs//a.b/../c.md") true).path = js "docsa.b/c" ∧
    (parsePath englishWiki (js "docsa.b/c") false).path = js "docsa.b/c" := by
  have hpath : (parsePath englishWiki (js "/en/docs//a.b/../c.md") true).path = js "docsa.b/c" := by decide +kernel
  have hsafe :=
    (parsePath_safe (show ∀ text, (englishWiki.unescape text).length ≤ text.length from unescapeAscii_length_le)
    (fun _ => unescapeAscii_plain) (js "/en/docs//a.b/../c.md") true).2 (js "docsa.b")
  rw [hpath] at hsafe
  have hall : (js "docsa.b/c").all (fun unit => !unsafeChar unit) = true := by decide +kernel
  have hunsafe : ∀ unit ∈ js "docsa.b/c", unsafeChar unit = false := fun unit hunit => by
    simpa using all_eq_true.mp hall unit hunit
  refine ⟨rfl, (hsafe (by decide +kernel) (by decide) (by decide +kernel) hunsafe false).mpr ⟨?_, nofun⟩⟩
  decide +kernel

/-- Of two unsafe characters one stays, what was escaped twice is unescaped in two turns, and a path
of a locale alone is empty. -/
theorem parsed_paths_change : (∃ unit ∈ (parsePath englishWiki (js "/docs<a>b") false).path, unsafeChar unit = true) ∧
    (parsePath englishWiki (js "/docs%2525") false).path = js "docs%25" ∧
    (parsePath englishWiki (js "docs%25") false).path ≠ js "docs%25" ∧
    [] ∈ segments (parsePath englishWiki (js "/en") false).path := by
  exact ⟨⟨62, by decide +kernel, by decide⟩, by decide +kernel, by decide +kernel, by decide +kernel⟩

end TsEpistle.Pages.ParsedPaths
