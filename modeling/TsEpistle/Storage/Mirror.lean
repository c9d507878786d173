import TsEpistle.Storage.Writes

/-! A storage target holds the pages once no job is left. A location that the target is behind
with has a job that will see to it: one of another page, or one of this page at its revision. -/

namespace TsEpistle.Storage
open Library Checked List
open Pages (PageRow PageDatabase PageColumns PageOp Sound)
open Outbox (OutboxError)

variable {target : StorageTarget} {db : PageDatabase} {page : PageRow}

/-! ## The owner of a path -/

theorem getFileExtension_plain {contentType : JsString} (h : contentType ≠ js "markdown") :
    46 ∉ getFileExtension contentType ∧ 47 ∉ getFileExtension contentType ∧
      ∃ c, (getFileExtension contentType).getLast? = some c ∧ c ≠ 100 := by
  unfold getFileExtension
  rw [if_neg h]
  split
  · exact ⟨by decide, by decide, 99, by decide, by decide⟩
  · split
    · exact ⟨by decide, by decide, 108, by decide, by decide⟩
    · exact ⟨by decide, by decide, 116, by decide, by decide⟩

variable (target) in
/-- The name of a page leads back to its location. -/
theorem pageCandidates_pagePath (hclean : CleanColumns page.columns) :
    ∃ candidates, pageCandidates (pagePath target page) = some candidates ∧
      (candidates.any fun candidate => candidate.1 = page.columns.path
        && candidate.2.all (· = page.columns.localeCode)) = true := by
  by_cases hmarkdown : page.columns.contentType = js "markdown"
  · have hpath : pagePath target page = okfFilePath page.columns.localeCode page.columns.path := by
      simp [pagePath, storagePagePath, hmarkdown]
    refine ⟨[(page.columns.path, some page.columns.localeCode)], ?_, by simp⟩
    unfold pageCandidates
    rw [hpath, parseOkfFilePath_okfFilePath hclean.locale hclean.path]
  · obtain ⟨hdot, hslash, c, hlast, hc⟩ := getFileExtension_plain hmarkdown
    -- the name with or without the locale in front
    obtain ⟨stem, hpath, hstem⟩ : ∃ stem, pagePath target page
        = stem ++ 46 :: getFileExtension page.columns.contentType ∧
          (stem = page.columns.path ∨ stem = page.columns.localeCode ++ 47 :: page.columns.path) := by
      unfold pagePath storagePagePath
      rw [if_neg hmarkdown]
      dsimp only
      split
      · exact ⟨page.columns.localeCode ++ 47 :: page.columns.path, by simp, .inr rfl⟩
      · exact ⟨page.columns.path, rfl, .inl rfl⟩
    have hother : parseOkfFilePath (pagePath target page) = none := by
      cases hparse : parseOkfFilePath (pagePath target page) with
      | none => rfl
      | some identity =>
        have hends := endsWith_of_parseOkfFilePath hparse
        have hsuffix : js ".md" <:+ pagePath target page := by
          simpa [endsWith, isSuffixOf_iff_suffix] using hends
        obtain ⟨init, hinit⟩ := hsuffix
        have hne : getFileExtension page.columns.contentType ≠ [] := by
          intro hnil
          rw [hnil] at hlast
          cases hlast
        have hlast' : (pagePath target page).getLast? = some c := by
          rw [hpath, getLast?_append_of_ne_nil _ (by simp), getLast?_cons_of_ne_nil hne, hlast]
        rw [← hinit, getLast?_append_of_ne_nil _ (by decide)] at hlast'
        have hmd : (js ".md").getLast? = some 100 := by decide
        rw [hmd] at hlast'
        exact absurd (Option.some.inj hlast').symm hc
    unfold pageCandidates
    rw [hother, hpath, splitExtension_append _ hdot]
    have hcontains : (getFileExtension page.columns.contentType).contains 47 = false := by
      simpa using hslash
    simp only [hcontains, Bool.false_eq_true, if_false, Option.some.injEq, exists_eq_left']
    rcases hstem with rfl | rfl
    · simp
    · have hne : ∀ u ∈ page.columns.localeCode, decide (u ≠ 47) = true := by
        intro u hu
        simpa using fun heq : u = 47 => hclean.locale.slashes (heq ▸ hu)
      rw [takeWhile_append_of_pos hne, dropWhile_append_of_pos hne]
      simp [hclean.locale.named]

/-- The owner of a path that some page has is that page. -/
theorem currentPage_of_page (hs : Sound db) (hclean : CleanPages db) {p : Nat}
    (hp : db.pages p = some page) (hpublic : isPublic page = true) {owner : Option PageRow}
    (h : currentPage target db (pagePath target page) = .ok owner) : owner = some page := by
  obtain ⟨candidates, hcandidates, hany⟩ := pageCandidates_pagePath target (hclean _ _ hp)
  have hmem : page ∈ pathOwners target db (pagePath target page) candidates := by
    refine mem_filter.mpr ⟨?_, by simp only [hpublic, hany]; simp⟩
    refine mem_filterMap.mpr ⟨p, mem_range.mpr ?_, hp⟩
    have hlt := (hs.issued page (hs.stored _ _ hp)).1
    rwa [hs.ids _ _ hp] at hlt
  unfold currentPage at h
  rw [hcandidates] at h
  dsimp only at h
  cases howners : pathOwners target db (pagePath target page) candidates with
  | nil =>
    rw [howners] at hmem
    cases hmem
  | cons first rest =>
    rw [howners] at h hmem
    cases rest with
    | nil =>
      cases h
      rw [mem_singleton.mp hmem]
    | cons second rest => cases h

/-- An owner is a public page with this name. -/
theorem currentPage_some {relativePath : JsString} (h : currentPage target db relativePath = .ok (some page)) :
    (∃ p, db.pages p = some page) ∧ isPublic page = true ∧ pagePath target page = relativePath := by
  unfold currentPage at h
  split at h
  · cases h
  next candidates hcandidates =>
    split at h
    · cases h
    next owner howners =>
      cases h
      have hmem : page ∈ pathOwners target db relativePath candidates := by
        rw [howners]
        exact mem_cons_self
      obtain ⟨hall, hcond⟩ := mem_filter.mp hmem
      obtain ⟨p, -, hp⟩ := mem_filterMap.mp hall
      simp only [Bool.and_eq_true, decide_eq_true_eq] at hcond
      exact ⟨⟨p, hp⟩, hcond.1.1, hcond.2⟩
    · cases h

/-! ## A run of a job -/

section
variable {δ : Type} {encode : PageRow → Finset Nat → δ} {job : StorageMutation}
  {files files' : JsString → Option δ}

/-- The job is about an earlier revision of the page. -/
def Stale (job : StorageMutation) (page : PageRow) : Prop :=
  page.id = job.entityId ∧ page.sourceRevision ≠ job.sourceRevision

/-- What a run leaves at a path of the job. -/
inductive Settled (target : StorageTarget) (encode : PageRow → Finset Nat → δ)
    (job : StorageMutation) (db : PageDatabase) (files files' : JsString → Option δ)
    (relativePath : JsString) : Prop
  | skipped (page : PageRow) (owner : currentPage target db relativePath = .ok (some page))
      (stale : Stale job page) (kept : files' relativePath = files relativePath)
  | written (page : PageRow) (owner : currentPage target db relativePath = .ok (some page))
      (current : ¬Stale job page)
      (content : files' relativePath = some (encode page (db.pageTags page.id)))
  | removed (owner : currentPage target db relativePath = .ok none)
      (content : files' relativePath = none)

/-- No path of the job that is without an owner could be the name of an imported page. -/
def NotImported (target : StorageTarget) (job : StorageMutation) (db : PageDatabase)
    (paths : List JsString) : Prop :=
  ∀ path ∈ paths, currentPage target db path = .ok none → hasImportedPageOwner target db path job.entityId = false

theorem runPath_settled {relativePath : JsString} (hnot : NotImported target job db [relativePath])
    (h : runPath target encode job db files relativePath = .ok files') :
    Settled target encode job db files files' relativePath ∧ ∀ path, path ≠ relativePath →
    files' path = files path := by
  obtain ⟨owner, howner, h⟩ := bind_ok h
  cases owner with
  | none =>
    have himported := hnot relativePath (mem_singleton.mpr rfl) howner
    simp only [himported, Bool.false_eq_true, if_false] at h
    cases h
    exact ⟨.removed howner (by simp), fun path hne => by simp [Function.update_of_ne hne]⟩
  | some page =>
    dsimp only at h
    split at h
    next hstale =>
      cases h
      exact ⟨.skipped page howner (by simpa [Stale] using hstale) rfl, fun path hne => rfl⟩
    next hcurrent =>
      cases h
      exact ⟨.written page howner (by simpa [Stale] using hcurrent) (by simp),
        fun path hne => by simp [Function.update_of_ne hne]⟩

/-- **Job rule.** A run settles each of its paths and leaves the others. -/
theorem runPaths_settled {paths : List JsString} (hnot : NotImported target job db paths)
    (h : runPaths target encode job db paths files = .ok files') :
    (∀ path ∈ paths, Settled target encode job db files files' path) ∧
      ∀ path, path ∉ paths → files' path = files path := by
  induction paths generalizing files with
  | nil =>
    cases h
    exact ⟨by simp, fun path _ => rfl⟩
  | cons first paths ih =>
    unfold runPaths at h ih
    rw [foldlM_cons] at h
    obtain ⟨mid, hmid, h⟩ := bind_ok h
    obtain ⟨hfirst, hothers⟩ := runPath_settled
      (fun path hpath => hnot path (by simp [mem_singleton.mp hpath])) hmid
    obtain ⟨hrest, hkept⟩ := ih (fun path hpath => hnot path (mem_cons_of_mem _ hpath)) h
    refine ⟨?_, ?_⟩
    · intro path hpath
      by_cases hmem : path ∈ paths
      · cases hrest path hmem with
        | written page owner current content => exact .written page owner current content
        | removed owner content => exact .removed owner content
        | skipped page owner stale kept =>
          refine .skipped page owner stale (kept.trans ?_)
          by_cases heq : path = first
          · subst heq
            -- the first turn met the same owner
            cases hfirst with
            | skipped _ _ _ kept => exact kept
            | written page' owner' current content =>
              rw [owner] at owner'
              cases owner'
              exact absurd stale current
            | removed owner' content =>
              rw [owner] at owner'
              cases owner'
          · exact hothers path heq
      · obtain rfl : path = first := by
          rcases mem_cons.mp hpath with h | h
          · exact h
          · exact absurd h hmem
        have hsame := hkept path hmem
        cases hfirst with
        | skipped page owner stale kept => exact .skipped page owner stale (hsame.trans kept)
        | written page owner current content =>
          exact .written page owner current (hsame.trans content)
        | removed owner content => exact .removed owner (hsame.trans content)
    · intro path hpath
      rw [mem_cons, not_or] at hpath
      rw [hkept path hpath.2, hothers path hpath.1]

end

/-! ## The invariant -/

/-- The job of a request has the path of every public location that the request is about. -/
theorem enqueuePageStorageMutation_ok {request : StorageRequest} {job : Option StorageMutation}
    (h : enqueuePageStorageMutation target request db = .ok job) {location : PageRow}
    (hlocation : location ∈ requestLocations request db) :
    ∃ queued, job = some queued ∧ pagePath target location ∈ queued.paths ∧
      queued.entityId = request.pageId ∧ queued.sourceRevision = requestRevision request db := by
  unfold enqueuePageStorageMutation at h
  dsimp only at h
  split at h
  next hempty =>
    rw [List.isEmpty_iff] at hempty
    rw [hempty] at hlocation
    cases hlocation
  next =>
    split at h
    · cases h
    split at h
    · cases h
    cases h
    exact ⟨_, rfl, mem_dedup.mpr (mem_map.mpr ⟨location, hlocation, rfl⟩), rfl, rfl⟩

/-- A public page has this name. -/
def Owned (target : StorageTarget) (db : PageDatabase) (path : JsString) : Prop :=
  ∃ p page, db.pages p = some page ∧ isPublic page = true ∧ pagePath target page = path

/-- A job will write the page at its revision. -/
def Awaited (target : StorageTarget) (jobs : List StorageMutation) (page : PageRow) : Prop :=
  ∃ job ∈ jobs, pagePath target page ∈ job.paths ∧ ¬Stale job page

section
variable {env : Pages.Environment} {δ : Type} {encode : PageRow → Finset Nat → δ} {s : System δ}

structure Mirroring (target : StorageTarget) (encode : PageRow → Finset Nat → δ) (s : System δ) :
    Prop where
  sound : Sound s.pages.db
  clean : CleanPages s.pages.db
  pages : ∀ p page, s.pages.db.pages p = some page → isPublic page = true →
    s.files (pagePath target page) = some (encode page (s.pages.db.pageTags page.id)) ∨ Awaited target s.jobs page
  files : ∀ path content, s.files path = some content → Owned target s.pages.db path ∨ ∃ job ∈ s.jobs, path ∈ job.paths

theorem mirroring_empty : Mirroring target encode .empty where
  sound := Pages.sound_empty
  clean := by
    intro p page hp
    cases hp
  pages := by
    intro p page hp
    cases hp
  files := by
    intro path content hfile
    cases hfile

/-- A run of a job keeps the invariant, and a job that settled all its paths may go. -/
theorem Mirroring.run (hs : Mirroring target encode s) {job : StorageMutation} {paths : List JsString}
    {files : JsString → Option δ} {jobs : List StorageMutation} (hnot : NotImported target job s.pages.db paths)
    (hrun : runPaths target encode job s.pages.db paths s.files = .ok files)
    (hjobs : ∀ other ∈ s.jobs, other ∈ jobs ∨ other = job ∧ ∀ path ∈ job.paths, path ∈ paths) :
    Mirroring target encode { s with files, jobs } := by
  obtain ⟨hsettled, hkept⟩ := runPaths_settled hnot hrun
  refine ⟨hs.sound, hs.clean, ?_, ?_⟩
  · intro p page hp hpublic
    have howner : ∀ owner, currentPage target s.pages.db (pagePath target page) = .ok owner →
        owner = some page := fun owner h => currentPage_of_page hs.sound hs.clean hp hpublic h
    -- where the run met the path, it wrote the page or passed it over
    have hmet : pagePath target page ∈ paths →
        files (pagePath target page) = some (encode page (s.pages.db.pageTags page.id)) ∨
          Stale job page ∧ files (pagePath target page) = s.files (pagePath target page) := by
      intro hmem
      cases hsettled _ hmem with
      | skipped other owner stale kept =>
        cases howner _ owner
        exact .inr ⟨stale, kept⟩
      | written other owner current content =>
        cases howner _ owner
        exact .inl content
      | removed owner content =>
        have := howner _ owner
        cases this
    rcases hs.pages p page hp hpublic with hcontent | ⟨other, hother, hpath, hcurrent⟩
    · by_cases hmem : pagePath target page ∈ paths
      · rcases hmet hmem with h | ⟨-, hsame⟩
        · exact .inl h
        · exact .inl (hsame.trans hcontent)
      · exact .inl ((hkept _ hmem).trans hcontent)
    · rcases hjobs other hother with hother | ⟨rfl, hall⟩
      · exact .inr ⟨other, hother, hpath, hcurrent⟩
      · rcases hmet (hall _ hpath) with h | ⟨hstale, -⟩
        · exact .inl h
        · exact absurd hstale hcurrent
  · intro path content hcontent
    have hcontent : files path = some content := hcontent
    by_cases hmem : path ∈ paths
    · cases hsettled path hmem with
      | skipped page owner stale kept =>
        obtain ⟨⟨p, hp⟩, hpublic, hpath⟩ := currentPage_some owner
        exact .inl ⟨p, page, hp, hpublic, hpath⟩
      | written page owner current written =>
        obtain ⟨⟨p, hp⟩, hpublic, hpath⟩ := currentPage_some owner
        exact .inl ⟨p, page, hp, hpublic, hpath⟩
      | removed owner removed =>
        rw [removed] at hcontent
        cases hcontent
    · rw [hkept path hmem] at hcontent
      rcases hs.files path content hcontent with howned | ⟨other, hother, hpath⟩
      · exact .inl howned
      · rcases hjobs other hother with hother | ⟨rfl, hall⟩
        · exact .inr ⟨other, hother, hpath⟩
        · exact absurd (hall path hpath) hmem

/-- What an operation wrote and queued keeps the invariant. -/
theorem Mirroring.writes (hs : Mirroring target encode s) {pages : Pages.System} {request : Option StorageRequest}
    {job : Option StorageMutation} (hsound : Sound pages.db) (hwrites : Writes s.pages.db pages.db request)
    (hjob : ∀ r, request = some r → enqueuePageStorageMutation target r pages.db = .ok job) :
    Mirroring target encode { s with pages, jobs := s.jobs ++ job.toList } := by
  -- a page that is as it was before
  have hsame : ∀ {p page}, pages.db.pages p = s.pages.db.pages p →
      pages.db.pageTags p = s.pages.db.pageTags p → pages.db.pages p = some page →
      isPublic page = true →
      s.files (pagePath target page) = some (encode page (pages.db.pageTags page.id)) ∨
        Awaited target (s.jobs ++ job.toList) page := by
    intro p page hpages htags hp hpublic
    have hid := hsound.ids _ _ hp
    rcases hs.pages p page (by rw [← hpages]; exact hp) hpublic with h | ⟨other, hother, h⟩
    · exact .inl (by rw [hid, htags, ← hid]; exact h)
    · exact .inr ⟨other, mem_append_left _ hother, h⟩
  have howned : ∀ {p page path}, pages.db.pages p = s.pages.db.pages p →
      s.pages.db.pages p = some page → isPublic page = true → pagePath target page = path →
      Owned target pages.db path ∨ ∃ job' ∈ s.jobs ++ job.toList, path ∈ job'.paths :=
    fun hpages hp hpublic hpath => .inl ⟨_, _, hpages.trans hp, hpublic, hpath⟩
  have hpending : ∀ path content, s.files path = some content →
      (∀ p page, s.pages.db.pages p = some page → isPublic page = true →
        pagePath target page = path → Owned target pages.db path ∨ ∃ job' ∈ s.jobs ++ job.toList, path ∈ job'.paths) →
      Owned target pages.db path ∨ ∃ job' ∈ s.jobs ++ job.toList, path ∈ job'.paths := by
    intro path content hcontent hcase
    rcases hs.files path content hcontent with ⟨p, page, hp, hpublic, hpath⟩ | ⟨other, hother, h⟩
    · exact hcase p page hp hpublic hpath
    · exact .inr ⟨other, mem_append_left _ hother, h⟩
  refine ⟨hsound, hwrites.clean hs.clean, ?_, ?_⟩
  · intro p page hp hpublic
    cases hwrites with
    | still hpages htags => exact hsame (congrFun hpages p) (congrFun htags p) hp hpublic
    | hidden pageId others before after =>
      by_cases hq : p = pageId
      · have hprivate := (after page (hq ▸ hp)).1
        rw [hpublic] at hprivate
        cases hprivate
      · exact hsame (others p hq).1 (others p hq).2 hp hpublic
    | requested request others previous after =>
      by_cases hq : p = request.pageId
      · have hlocation : page ∈ requestLocations request pages.db := by
          refine mem_filter.mpr ⟨mem_append_right _ ?_, hpublic⟩
          rw [← hq, hp]
          simp
        obtain ⟨queued, rfl, hpath, hentity, hrevision⟩ := enqueuePageStorageMutation_ok (hjob request rfl) hlocation
        refine .inr ⟨queued, by simp, hpath, ?_⟩
        rintro ⟨-, hstale⟩
        refine hstale ?_
        have hnext : pages.db.pages p = some page := hp
        rw [hrevision]
        simp [requestRevision, ← hq, hnext]
      · exact hsame (others p hq).1 (others p hq).2 hp hpublic
  · intro path content hcontent
    refine hpending path content hcontent ?_
    intro p page hp hpublic hpath
    cases hwrites with
    | still hpages htags => exact howned (congrFun hpages p) hp hpublic hpath
    | hidden pageId others before after =>
      by_cases hq : p = pageId
      · have hprivate := before page (hq ▸ hp)
        rw [hpublic] at hprivate
        cases hprivate
      · exact howned (others p hq).1 hp hpublic hpath
    | requested request others previous after =>
      by_cases hq : p = request.pageId
      · obtain ⟨earlier, hprevious, hcols⟩ := previous page (hq ▸ hp)
        have hlocation : earlier ∈ requestLocations request pages.db := by
          refine mem_filter.mpr ⟨mem_append_left _ (by simp [hprevious]), ?_⟩
          rw [← hpublic]
          simp [isPublic, hcols]
        obtain ⟨queued, rfl, hqueued, -, -⟩ := enqueuePageStorageMutation_ok (hjob request rfl) hlocation
        refine .inr ⟨queued, by simp, ?_⟩
        rw [← hpath]
        simpa [pagePath, hcols] using hqueued
      · exact howned (others p hq).1 hp hpublic hpath

/-! ## Runs -/

/-- No approval publication, taxonomy change or account reassignment writes a public page, and no
job meets a path without an owner that could be the name of an imported page. -/
def Regular (target : StorageTarget) (op : Op) (s : System δ) : Prop :=
  match op with
  | .operation (.page op) => Hidden s.pages.db op
  | .operation (.submit ..) => True
  | .operation (.transition _ input _ _) => input.action = .publish →
      ∀ request, Table.get Pages.ApprovalRequest.id s.pages.requests input.requestId = some request →
        ∀ page, s.pages.db.pages request.pageId = some page → isPublic page = false
  | .attempt job paths => NotImported target job s.pages.db (job.paths.take paths)
  | .complete job => NotImported target job s.pages.db job.paths

theorem Mirroring.operation (hs : Mirroring target encode s) {op : Pages.Op}
    (hop : (Op.operation op).enabled s) (hregular : Regular target (.operation op) s)
    {s' : System δ} (h : runOperation env target op s = .ok s') : Mirroring target encode s' := by
  obtain ⟨pages, hrun, h⟩ := bind_ok h
  obtain ⟨job, hjob, h⟩ := bind_ok h
  cases h
  have hsound : Sound pages.db := by
    obtain ⟨now, target, hstep⟩ := Pages.Op.run_step hs.sound hop.1 hrun
    exact hstep.sound hs.sound
  cases op with
  | page op =>
    cases hpage : op.run env s.pages.db with
    | error e => simp [Pages.Op.run, hpage, Except.map] at hrun
    | ok db =>
      simp only [Pages.Op.run, hpage, Except.map] at hrun
      cases hrun
      have hwrites := PageOp.run_writes hs.sound hs.clean hop.1 (hop.2 op rfl).1
        (hop.2 op rfl).2 hregular hpage
      refine hs.writes hsound hwrites ?_
      intro request hrequest
      simpa [queuedJob, hrequest] using hjob
  | submit requester input id now =>
    obtain ⟨submitterId, page, hsub⟩ := Pages.submitPageApproval_ok hrun
    cases hjob
    have hwrites : Writes s.pages.db pages.db none := by
      refine .still ?_ ?_
      · rw [hsub.db]
        rfl
      · rw [hsub.db]
        rfl
    exact hs.writes hsound hwrites (by simp)
  | transition requester input now fresh =>
    obtain ⟨actor, expected, request, next, page, ht⟩ := Pages.transitionApproval_ok hrun
    cases hjob
    have hid := hs.sound.ids _ _ ht.present
    have hwrites := transitionAction_writes hs.clean (by rw [hid]; exact ht.present)
      (fun hpublish => hregular hpublish request ht.found page ht.present) ht.action
    exact hs.writes hsound hwrites (by simp)

theorem Mirroring.exec (hs : Mirroring target encode s) {op : Op} (hop : op.enabled s)
    (hregular : Regular target op s) : Mirroring target encode (exec env target encode op s) := by
  cases op with
  | operation op =>
    cases hrun : runOperation env target op s with
    | error e => simpa [Storage.exec, hrun, Except.toOption] using hs
    | ok s' => simpa [Storage.exec, hrun, Except.toOption] using hs.operation hop hregular hrun
  | attempt job paths =>
    cases hrun : runPaths target encode job s.pages.db (job.paths.take paths) s.files with
    | error e => simpa [Storage.exec, hrun] using hs
    | ok files =>
      simpa [Storage.exec, hrun] using hs.run hregular hrun fun other hother => .inl hother
  | complete job =>
    cases hrun : runPaths target encode job s.pages.db job.paths s.files with
    | error e => simpa [Storage.exec, hrun] using hs
    | ok files =>
      have hdone : ∀ other ∈ s.jobs,
          other ∈ s.jobs.erase job ∨ other = job ∧ ∀ path ∈ job.paths, path ∈ job.paths := by
        intro other hother
        by_cases heq : other = job
        · exact .inr ⟨heq, fun path hpath => hpath⟩
        · exact .inl ((mem_erase_of_ne heq).mpr hother)
      simpa [Storage.exec, hrun] using hs.run hregular hrun hdone

/-! ## The main result -/

/-- The target holds every public page at its name and nothing else. -/
structure Mirrors (target : StorageTarget) (encode : PageRow → Finset Nat → δ) (s : System δ) :
    Prop where
  holds : ∀ p page, s.pages.db.pages p = some page → isPublic page = true →
    s.files (pagePath target page) = some (encode page (s.pages.db.pageTags page.id))
  nothingElse : ∀ path content, s.files path = some content → Owned target s.pages.db path

/-- **Convergence.** -/
theorem storage_mirror_converges (h : ((mirror env target encode).restrict (Regular target)).Reachable .empty s)
    (hdone : s.jobs = []) : Mirrors target encode s := by
  have hs : Mirroring target encode s := by
    refine h.invariant mirroring_empty ?_
    intro op s hop hs
    exact hs.exec hop.1 hop.2
  constructor
  · intro p page hp hpublic
    rcases hs.pages p page hp hpublic with hcontent | ⟨job, hjob, -⟩
    · exact hcontent
    · rw [hdone] at hjob
      cases hjob
  · intro path content hcontent
    rcases hs.files path content hcontent with howned | ⟨job, hjob, -⟩
    · exact howned
    · rw [hdone] at hjob
      cases hjob

end

/-! ## An example -/

def exampleTarget : StorageTarget := ⟨js "disk", js "en", false, false, false, fun _ => none⟩

/-- The columns of the page stand for its encoding. -/
def exampleEncode (page : PageRow) (_ : Finset Nat) : PageColumns := page.columns

def exampleCreation : Pages.CreatePageOptions := { Pages.exampleCreation with isPublished := false }

def exampleJob : StorageMutation := ⟨1, 1, [js "en/home.md"]⟩

/-- User 7 creates a public page, and its job runs. -/
def mirrorOps : List Op :=
  [.operation (.page (.create (Pages.exampleCall 1) exampleCreation)), .complete exampleJob]

/-- The page is submitted, approved and published. -/
def publicationOps : List Op :=
  [.operation (.submit Pages.exampleRequester ⟨1, some 1, none, []⟩ (js "request") 2),
    .operation (.transition Pages.exampleRequester (Pages.exampleTransition .approve) 3 (Pages.exampleFresh 3)),
    .operation (.transition Pages.exampleRequester (Pages.exampleTransition .publish) 4 (Pages.exampleFresh 4))]

def exampleMirror : Machine (System PageColumns) Op :=
  mirror Pages.exampleEnvironment exampleTarget exampleEncode

theorem mirrorOps_valid : (exampleMirror.restrict (Regular exampleTarget)).Valid mirrorOps .empty := by
  refine ⟨⟨⟨⟨?_, ?_⟩, ?_⟩, trivial⟩, ⟨mem_cons_self, ?_⟩, trivial⟩
  · intro page h
    cases h
  · intro rows h
    cases h
  · intro op h
    cases h
    refine ⟨?_, ?_⟩
    · intro locale hlocale
      obtain rfl := mem_singleton.mp hlocale
      exact ⟨by decide, by decide, by decide⟩
    · intro path hpath
      cases hpath
  · intro path hpath _
    obtain rfl : path = js "en/home.md" := mem_singleton.mp hpath
    decide

theorem publicationOps_valid : exampleMirror.Valid (mirrorOps ++ publicationOps) .empty := by
  have hmirror : exampleMirror.Valid mirrorOps .empty := by
    obtain ⟨⟨hcreate, -⟩, ⟨hcomplete, -⟩, -⟩ := mirrorOps_valid
    exact ⟨hcreate, hcomplete, trivial⟩
  have hrest : exampleMirror.Valid publicationOps (exampleMirror.after mirrorOps .empty) := by
    refine ⟨⟨not_mem_nil, ?_⟩, ⟨trivial, ?_⟩, ⟨trivial, ?_⟩, trivial⟩
    · intro op h
      cases h
    · intro op h
      cases h
    · intro op h
      cases h
  exact (Machine.valid_append ..).mpr ⟨hmirror, hrest⟩

/-- After the publication no job is left, and the target still holds the page as it was. -/
theorem publication_not_mirrored :
    exampleMirror.Reachable .empty (exampleMirror.after (mirrorOps ++ publicationOps) .empty) ∧
    (exampleMirror.after (mirrorOps ++ publicationOps) .empty).jobs = [] ∧
    ∃ page, (exampleMirror.after (mirrorOps ++ publicationOps) .empty).pages.db.pages 1 = some page ∧
      isPublic page = true ∧ page.sourceRevision = 2 ∧
      (exampleMirror.after (mirrorOps ++ publicationOps) .empty).files (pagePath exampleTarget page)
        ≠ some (exampleEncode page
          ((exampleMirror.after (mirrorOps ++ publicationOps) .empty).pages.db.pageTags page.id)) := by
  refine ⟨⟨_, publicationOps_valid, rfl⟩, by decide, _, rfl, by decide,
    by decide, by decide⟩

theorem storage_mirror_converges_example : Mirrors exampleTarget exampleEncode (exampleMirror.after mirrorOps .empty) :=
  storage_mirror_converges ⟨mirrorOps, mirrorOps_valid, rfl⟩ (by decide)

end TsEpistle.Storage
