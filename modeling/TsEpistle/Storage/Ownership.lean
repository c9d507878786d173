import TsEpistle.Storage.Mirror

/-! The names of public pages on a target (`storagePagePath` in `server/helpers/storage-page-path.ts`) and
their owners (`currentPage` in `server/jobs/storage-mutations.ts`): which pages that `createPage` and
`movePage` accept share a file. -/

namespace TsEpistle.Storage
open Library Checked List Function
open Pages (PageRow PageDatabase VersionColumns PageOp Sound Call)
open Outbox (OutboxError)

variable {target : StorageTarget} {db db' : PageDatabase}

/-! ## Names -/

/-- The locale stands in front of the name. -/
def Namespaced (target : StorageTarget) (columns : VersionColumns) : Prop :=
  (target.key = js "git" ∧ target.alwaysNamespace = true)
    ∨ (target.key = js "disk" ∨ target.namespacing = true) ∧ target.defaultLocale ≠ columns.localeCode

/-- Two pages that are not Markdown, of one extension: one path without locales, or a path that is another
one behind its locale. -/
def Clash (target : StorageTarget) (left right : VersionColumns) : Prop :=
  left.contentType ≠ js "markdown" ∧ right.contentType ≠ js "markdown"
    ∧ getFileExtension left.contentType = getFileExtension right.contentType
    ∧ (¬ Namespaced target left ∧ ¬ Namespaced target right ∧ left.path = right.path
      ∨ ¬ Namespaced target left ∧ Namespaced target right ∧ left.path = right.localeCode ++ 47 :: right.path
      ∨ Namespaced target left ∧ ¬ Namespaced target right ∧ left.localeCode ++ 47 :: left.path = right.path)

open Classical in
/-- The name without its extension, of a page that is not Markdown. -/
theorem storagePagePath_stem {columns : VersionColumns} (h : columns.contentType ≠ js "markdown") :
    storagePagePath target columns
      = (if Namespaced target columns then columns.localeCode ++ 47 :: columns.path else columns.path)
        ++ 46 :: getFileExtension columns.contentType := by
  unfold storagePagePath Namespaced
  rw [if_neg h]
  simp only [Bool.or_eq_true, Bool.and_eq_true, decide_eq_true_eq]
  split <;> simp

theorem storagePagePath_markdown {columns : VersionColumns} (h : columns.contentType = js "markdown") :
    storagePagePath target columns = okfFilePath columns.localeCode columns.path := by
  simp [storagePagePath, h]

/-- Only the names of Markdown pages end with a `d`. -/
theorem storagePagePath_last (target : StorageTarget) (columns : VersionColumns) :
    (storagePagePath target columns).getLast? = some 100 ↔ columns.contentType = js "markdown" := by
  by_cases h : columns.contentType = js "markdown"
  · refine iff_of_true ?_ h
    have hmd : (js ".md").getLast? = some 100 := by decide
    rw [storagePagePath_markdown h, okfFilePath, ← cons_append, ← append_assoc,
      getLast?_append_of_ne_nil _ (by decide), hmd]
  · refine iff_of_false ?_ h
    obtain ⟨-, -, c, hlast, hc⟩ := getFileExtension_plain h
    have hne : getFileExtension columns.contentType ≠ [] := by
      intro hnil
      rw [hnil] at hlast
      cases hlast
    rw [storagePagePath_stem h, getLast?_append_of_ne_nil _ (by simp), getLast?_cons_of_ne_nil hne, hlast]
    exact fun hd => hc (Option.some.inj hd)

theorem locale_path_inj {locale locale' path path' : JsString} (h : 47 ∉ locale) (h' : 47 ∉ locale')
    (heq : locale ++ 47 :: path = locale' ++ 47 :: path') : locale = locale' ∧ path = path' := by
  have htake : ∀ locale path : JsString, 47 ∉ locale →
      (locale ++ 47 :: path).takeWhile (· ≠ 47) = locale := by
    intro locale path hslash
    rw [takeWhile_append_of_pos fun u hu => by simpa using fun heq : u = 47 => hslash (heq ▸ hu)]
    simp
  have hlocale : locale = locale' := by rw [← htake locale path h, heq, htake locale' path' h']
  subst hlocale
  exact ⟨rfl, by simpa using heq⟩

/-- **Names.** Pages at different locations share a name exactly where they clash. -/
theorem storagePagePath_eq_iff {left right : Pages.PageColumns} (hleft : CleanColumns left)
    (hright : CleanColumns right) (hne : ¬ (left.localeCode = right.localeCode ∧ left.path = right.path)) :
    storagePagePath target left.toVersionColumns = storagePagePath target right.toVersionColumns
      ↔ Clash target left.toVersionColumns right.toVersionColumns := by
  by_cases hl : left.contentType = js "markdown"
  · refine iff_of_false (fun heq => hne ?_) fun hclash => hclash.1 hl
    have hr : right.contentType = js "markdown" := by
      rw [← storagePagePath_last target, ← heq, storagePagePath_last]
      exact hl
    rw [storagePagePath_markdown hl, storagePagePath_markdown hr] at heq
    have hparse := congrArg parseOkfFilePath heq
    rw [parseOkfFilePath_okfFilePath hleft.locale hleft.path,
      parseOkfFilePath_okfFilePath hright.locale hright.path] at hparse
    simpa using hparse
  · by_cases hr : right.contentType = js "markdown"
    · refine iff_of_false (fun heq => hl ?_) fun hclash => hclash.2.1 hr
      have hlast := (storagePagePath_last target left.toVersionColumns).mp
      rw [heq] at hlast
      exact hlast ((storagePagePath_last target _).mpr hr)
    · obtain ⟨hdot, -⟩ := getFileExtension_plain hl
      obtain ⟨hdot', -⟩ := getFileExtension_plain hr
      have hinj : ∀ stem stem' : JsString, stem ++ 46 :: getFileExtension left.contentType
          = stem' ++ 46 :: getFileExtension right.contentType
          ↔ stem = stem' ∧ getFileExtension left.contentType = getFileExtension right.contentType := by
        intro stem stem'
        constructor
        · intro heq
          have := congrArg splitExtension heq
          rw [splitExtension_append stem hdot, splitExtension_append stem' hdot'] at this
          simpa using this
        · rintro ⟨rfl, heq⟩
          rw [heq]
      rw [storagePagePath_stem hl, storagePagePath_stem hr, hinj, and_comm]
      unfold Clash
      by_cases hn : Namespaced target left.toVersionColumns <;>
        by_cases hn' : Namespaced target right.toVersionColumns
      · have hboth : left.localeCode ++ 47 :: left.path ≠ right.localeCode ++ 47 :: right.path :=
          fun heq => hne (locale_path_inj hleft.locale.slashes hright.locale.slashes heq)
        simp [hl, hr, hn, hn', hboth]
      · simp [hl, hr, hn, hn']
      · simp [hl, hr, hn, hn']
      · simp [hl, hr, hn, hn']

/-! ## Pages that are accepted -/

/-- A creation or a move of a page. -/
inductive Placement
  | create (call : Call) (opts : Pages.CreatePageOptions)
  | move (call : Call) (page : PageRow) (opts : Pages.MovePageOptions)

def Placement.op : Placement → PageOp
  | .create call opts => .create call opts
  | .move call page opts => .move call page opts

variable (env : Pages.Environment)

/-- Creations and moves of pages, whose locales are those of the table of locales. -/
def placements : Machine PageDatabase Placement where
  enabled placement db := placement.op.enabled db ∧ ∀ locale ∈ namedLocales placement.op, CleanLocale locale
  exec placement db := (placement.op.run env db).toOption.getD db

/-- Every location has one page. -/
def Located (db : PageDatabase) : Prop :=
  ∀ p q page other, db.pages p = some page → db.pages q = some other → page.location = other.location → p = q

variable {env}

/-- What a placement that is accepted does to the pages. -/
theorem placement_pages (hs : Sound db) {placement : Placement} (hop : placement.op.enabled db)
    (h : placement.op.run env db = .ok db') :
    ∃ next, db'.pages = Function.update db.pages next.id (some next) ∧ db.occupied next.location none = false
      ∧ (isPublic next = true → next.columns.ownerId = none ∨ ∃ stored, db.pages next.id = some stored
        ∧ isPublic stored = true ∧ next.columns.ownerId = stored.columns.ownerId) := by
  cases placement with
  | create call opts =>
    obtain ⟨created, hchecks, h⟩ := bind_ok h
    obtain ⟨path, -, rfl, hfree, -⟩ := Pages.createChecks_ok hchecks
    obtain ⟨next, effects, hnext, rfl, -⟩ := Pages.enqueueCurrentPageProjections_ok h
    refine ⟨Pages.createdPage env call opts path db.nextPageId, rfl, hfree, fun hpublic => ?_⟩
    have hvisibility : opts.visibility = .public := of_decide_eq_true hpublic
    exact .inl (by simp [Pages.createdPage, Pages.visibilityOwner, hvisibility])
  | move call page opts =>
    obtain ⟨revision, hchecks, h⟩ := bind_ok h
    obtain ⟨stored, effects, hp, hid, hrev, rfl, -, hvalid⟩ := Pages.saveCanonicalPageRevision_ok hs h
    obtain ⟨hcols, -⟩ := Pages.read_columns hs (hop.1 page rfl) hp hrev
    have hrow : (revision.row stored (db.pageTags page.id) call.now).id = page.id := by
      rw [Pages.Revision.row_id, hid]
    refine ⟨revision.row stored (db.pageTags page.id) call.now, rfl, ?_⟩
    rw [hrow]
    obtain ⟨-, path, -, hfree, rfl⟩ := Pages.moveChecks_ok hchecks
    refine ⟨?_, fun hpublic => .inr ⟨stored, hp, ?_, ?_⟩⟩
    · rw [← hfree]
      congr 1
    · rw [isPublic, Pages.Revision.row_columns] at hpublic
      simpa [isPublic, Pages.simpleRevision, Pages.movedColumns, hcols] using hpublic
    · rw [Pages.Revision.row_columns, ← hcols]
      rfl

/-- What holds of the pages in every run. -/
structure Placed (db : PageDatabase) : Prop where
  sound : Sound db
  clean : CleanPages db
  located : Located db
  owners : ∀ p page, db.pages p = some page → isPublic page = true → page.columns.ownerId = none

theorem placed_empty : Placed .empty where
  sound := Pages.sound_empty
  clean p page hp := by cases hp
  located p q page other hp := by cases hp
  owners p page hp := by cases hp

theorem free_location (hs : Sound db) {location : Outbox.PageProjectionLocation} (h : db.occupied location none = false)
    {p : Nat} {page : PageRow} (hp : db.pages p = some page) : page.location ≠ location := by
  intro heq
  have hlt := (hs.issued page (hs.stored _ _ hp)).1
  rw [hs.ids _ _ hp] at hlt
  unfold PageDatabase.occupied at h
  rw [any_eq_false] at h
  exact h p (mem_range.mpr hlt) (by simp [hp, heq])

theorem Placed.run (hs : Placed db) {placement : Placement} (hop : (placements env).enabled placement db)
    (h : placement.op.run env db = .ok db') : Placed db' := by
  have hstep := PageOp.run_step hs.sound hop.1 h
  have hpath : ∀ path, recoveryPath placement.op = some path → assertRecoveryPath path = true := by
    cases placement <;> exact fun path hpath => nomatch hpath
  have hhidden : Hidden db placement.op := by
    cases placement <;> trivial
  have hwrites := PageOp.run_writes hs.sound hs.clean hop.1 hop.2 hpath hhidden h
  obtain ⟨next, hpages, hfree, howner⟩ := placement_pages hs.sound hop.1 h
  refine ⟨hstep.sound hs.sound, hwrites.clean hs.clean, fun p q page other hp hq hlocation => ?_,
    fun p page hp hpublic => ?_⟩
  case refine_2 =>
    rw [hpages] at hp
    by_cases hpn : p = next.id
    · rw [hpn, update_self, Option.some.injEq] at hp
      subst hp
      rcases howner hpublic with hnone | ⟨stored, hstored, hpublic', hsame⟩
      · exact hnone
      · exact hsame.trans (hs.owners _ stored hstored hpublic')
    · rw [update_of_ne hpn] at hp
      exact hs.owners p page hp hpublic
  rw [hpages] at hp hq
  by_cases hpn : p = next.id
  · by_cases hqn : q = next.id
    · exact hpn.trans hqn.symm
    · rw [hpn, update_self, Option.some.injEq] at hp
      rw [update_of_ne hqn] at hq
      exact absurd (hlocation.symm.trans (congrArg _ hp.symm)) (free_location hs.sound hfree hq)
  · rw [update_of_ne hpn] at hp
    by_cases hqn : q = next.id
    · rw [hqn, update_self, Option.some.injEq] at hq
      exact absurd (hlocation.trans (congrArg _ hq.symm)) (free_location hs.sound hfree hp)
    · rw [update_of_ne hqn] at hq
      exact hs.located p q page other hp hq hlocation

theorem placed_of_reachable (h : (placements env).Reachable .empty db) : Placed db := by
  refine h.invariant placed_empty fun placement db hop hs => ?_
  cases hrun : placement.op.run env db with
  | error e => simpa [placements, hrun, Except.toOption] using hs
  | ok db' => simpa [placements, hrun, Except.toOption] using hs.run hop hrun

/-! ## Owners -/

theorem location_ne (hs : Placed db) {p q : Nat} {page other : PageRow} (hp : db.pages p = some page)
    (hq : db.pages q = some other) (hpublic : isPublic page = true) (hpublic' : isPublic other = true) (hne : p ≠ q) :
    ¬ (page.columns.localeCode = other.columns.localeCode ∧ page.columns.path = other.columns.path) := by
  rintro ⟨hlocale, hpath⟩
  have hvisibility : page.columns.visibility = .public := by simpa [isPublic] using hpublic
  have hvisibility' : other.columns.visibility = .public := by simpa [isPublic] using hpublic'
  refine hne (hs.located p q page other hp hq ?_)
  simp [PageRow.location, hlocale, hpath, hvisibility, hvisibility', hs.owners p page hp hpublic,
    hs.owners q other hq hpublic']

theorem mem_pathOwners (hs : Sound db) {p : Nat} {page : PageRow} (hp : db.pages p = some page)
    (hpublic : isPublic page = true) {relativePath : JsString} (hpath : pagePath target page = relativePath)
    {candidates : List (JsString × Option JsString)}
    (hany : (candidates.any fun candidate => candidate.1 = page.columns.path
      && candidate.2.all (· = page.columns.localeCode)) = true) :
    page ∈ pathOwners target db relativePath candidates := by
  refine mem_filter.mpr ⟨?_, by simp [hpublic, hany, hpath]⟩
  refine mem_filterMap.mpr ⟨p, mem_range.mpr ?_, hp⟩
  have hlt := (hs.issued page (hs.stored _ _ hp)).1
  rwa [hs.ids _ _ hp] at hlt

theorem nodup_allPages (hs : Sound db) : (allPages db).Nodup := by
  refine Nodup.filterMap (fun p q page hp hq => ?_) nodup_range
  exact (hs.ids _ _ hp).symm.trans (hs.ids _ _ hq)

theorem eq_singleton {α : Type} {l : List α} (hnodup : l.Nodup) {a : α} (ha : a ∈ l) (h : ∀ b ∈ l, b = a) :
    l = [a] := by
  cases l with
  | nil => cases ha
  | cons b l =>
    obtain rfl := h b mem_cons_self
    have hnil : l = [] := eq_nil_iff_forall_not_mem.mpr fun c hc =>
      (nodup_cons.mp hnodup).1 (h c (mem_cons_of_mem _ hc) ▸ hc)
    rw [hnil]

/-- The owner is found exactly if no other public page has the name. -/
theorem currentPage_iff (hs : Placed db) {p : Nat} {page : PageRow} (hp : db.pages p = some page)
    (hpublic : isPublic page = true) : currentPage target db (pagePath target page) = .ok (some page) ↔ ∀ q other,
    db.pages q = some other → isPublic other = true → q ≠ p → pagePath target page ≠ pagePath target other := by
  obtain ⟨candidates, hcandidates, hany⟩ := pageCandidates_pagePath target (hs.clean _ _ hp)
  have hmem : page ∈ pathOwners target db (pagePath target page) candidates :=
    mem_pathOwners hs.sound hp hpublic rfl hany
  unfold currentPage
  rw [hcandidates]
  constructor
  · intro h q other hq hpublic' hne heq
    obtain ⟨candidates', hcandidates', hany'⟩ := pageCandidates_pagePath target (hs.clean _ _ hq)
    rw [← heq, hcandidates] at hcandidates'
    cases hcandidates'
    have hmem' := mem_pathOwners hs.sound hq hpublic' heq.symm hany'
    have hids : page.id ≠ other.id := by
      rw [hs.sound.ids _ _ hp, hs.sound.ids _ _ hq]
      exact hne.symm
    dsimp only at h
    split at h
    · cases h
    · rename_i owner howners
      rw [howners, mem_singleton] at hmem hmem'
      exact hids (by rw [hmem, hmem'])
    · cases h
  · intro h
    have hone : pathOwners target db (pagePath target page) candidates = [page] := by
      refine eq_singleton ((nodup_allPages hs.sound).filter _) hmem fun other hother => ?_
      obtain ⟨hall, hcond⟩ := mem_filter.mp hother
      obtain ⟨q, -, hq⟩ := mem_filterMap.mp hall
      simp only [Bool.and_eq_true, decide_eq_true_eq] at hcond
      by_contra hne
      refine h q other hq hcond.1.1 (fun hqp => hne ?_) hcond.2.symm
      rw [hqp, hp] at hq
      exact (Option.some.inj hq).symm
    simp only [hone]

/-- **Owners of names.** In every run of creations and moves, two public pages share a name exactly if they
clash, and the owner of a public page's name is found exactly if the page clashes with no other one. -/
theorem storagePagePath_owners (h : (placements env).Reachable .empty db) (target : StorageTarget) :
    (∀ p q page other, db.pages p = some page → db.pages q = some other → isPublic page = true →
      isPublic other = true → p ≠ q → (pagePath target page = pagePath target other
        ↔ Clash target page.columns.toVersionColumns other.columns.toVersionColumns))
    ∧ ∀ p page, db.pages p = some page → isPublic page = true →
      (currentPage target db (pagePath target page) = .ok (some page)
        ↔ ∀ q other, db.pages q = some other → isPublic other = true → q ≠ p →
          ¬ Clash target page.columns.toVersionColumns other.columns.toVersionColumns) := by
  have hs := placed_of_reachable h
  have hnames : ∀ p q page other, db.pages p = some page → db.pages q = some other → isPublic page = true →
      isPublic other = true → p ≠ q → (pagePath target page = pagePath target other
        ↔ Clash target page.columns.toVersionColumns other.columns.toVersionColumns) :=
    fun p q page other hp hq hpublic hpublic' hne => storagePagePath_eq_iff (hs.clean _ _ hp) (hs.clean _ _ hq)
      (location_ne hs hp hq hpublic hpublic' hne)
  refine ⟨hnames, fun p page hp hpublic => ?_⟩
  rw [currentPage_iff hs hp hpublic]
  refine forall₂_congr fun q other => forall₃_congr fun hq hpublic' hne => not_congr ?_
  exact hnames p q page other hp hq hpublic hpublic' hne.symm

/-! ## Two pages with one name -/

def htmlEnvironment : Pages.Environment :=
  { Pages.exampleEnvironment with editorContentType := fun _ => some (js "html") }

def htmlCreation (n : Nat) (locale path : JsString) : Placement :=
  .create (Pages.exampleCall n) { Pages.exampleCreation with locale, path }

/-- A page below the path `fr`, and a French page. -/
def clashingPlacements : List Placement :=
  [htmlCreation 1 (js "en") (js "fr/about"), htmlCreation 2 (js "fr") (js "about")]

theorem clashingPlacements_valid : (placements htmlEnvironment).Valid clashingPlacements .empty := by
  refine ⟨⟨⟨nofun, nofun⟩, ?_⟩, ⟨⟨nofun, nofun⟩, ?_⟩, trivial⟩ <;>
  · intro locale hlocale
    obtain rfl := mem_singleton.mp hlocale
    exact ⟨by decide, by decide, by decide⟩

/-- Both are accepted, and no job for their file can run. -/
theorem storagePagePath_clash : (placements htmlEnvironment).Valid clashingPlacements .empty ∧
    currentPage exampleTarget ((placements htmlEnvironment).after clashingPlacements .empty)
    (js "fr/about.html") = .error ⟨"Error", "Storage path has multiple canonical page owners"⟩ :=
  ⟨clashingPlacements_valid, by decide⟩

/-- An English page, and a French one of the same path. -/
def apartPlacements : List Placement :=
  [htmlCreation 1 (js "en") (js "about"), htmlCreation 2 (js "fr") (js "about")]

theorem storagePagePath_owners_example :
    let db := (placements htmlEnvironment).after apartPlacements .empty
    ∃ page other, db.pages 1 = some page ∧ db.pages 2 = some other ∧
      ¬ Clash exampleTarget page.columns.toVersionColumns other.columns.toVersionColumns ∧
      currentPage exampleTarget db (pagePath exampleTarget page) = .ok (some page) ∧
      currentPage exampleTarget db (pagePath exampleTarget other) = .ok (some other) := by
  intro db
  have hvalid : (placements htmlEnvironment).Valid apartPlacements .empty := by
    refine ⟨⟨⟨nofun, nofun⟩, ?_⟩, ⟨⟨nofun, nofun⟩, ?_⟩, trivial⟩ <;>
    · intro locale hlocale
      obtain rfl := mem_singleton.mp hlocale
      exact ⟨by decide, by decide, by decide⟩
  obtain ⟨hshared, howners⟩ := storagePagePath_owners ⟨_, hvalid, rfl⟩ exampleTarget
  have hids : ∀ q other, db.pages q = some other → q = 1 ∨ q = 2 := by
    intro q other hq
    by_contra hne
    obtain ⟨hfirst, hsecond⟩ := not_or.mp hne
    cases (update_of_ne hsecond _ _).symm.trans hq |>.symm.trans (update_of_ne hfirst _ _)
  have hapart : ∀ p q page other, p ≠ q → db.pages p = some page → db.pages q = some other →
      isPublic page = true → isPublic other = true →
        pagePath exampleTarget page ≠ pagePath exampleTarget other →
          ¬ Clash exampleTarget page.columns.toVersionColumns other.columns.toVersionColumns :=
    fun p q page other hne hp hq hpublic hpublic' hpath hclash =>
      hpath ((hshared p q page other hp hq hpublic hpublic' hne).mpr hclash)
  have hfirst : ¬ Clash exampleTarget _ _ := hapart 1 2 _ _ (by decide) rfl rfl rfl rfl (by decide)
  have hsecond : ¬ Clash exampleTarget _ _ := hapart 2 1 _ _ (by decide) rfl rfl rfl rfl (by decide)
  refine ⟨_, _, rfl, rfl, hfirst, (howners 1 _ rfl rfl).mpr ?_, (howners 2 _ rfl rfl).mpr ?_⟩
  · intro q other hq _ hne
    rcases hids q other hq with rfl | rfl
    · exact absurd rfl hne
    · cases hq
      exact hfirst
  · intro q other hq _ hne
    rcases hids q other hq with rfl | rfl
    · cases hq
      exact hsecond
    · exact absurd rfl hne

end TsEpistle.Storage
