import TsEpistle.Admission.Exclusion

/-! What holds of pages, assets and targets in every reachable state. -/

namespace TsEpistle.Admission
open Library Checked List Option
open Pages (PageRow PageDatabase VersionColumns Sound)
open Storage (StorageTarget pagePath isPublic CleanPages)

variable {env : Environment} {s : System} {store store' : Store} {db : PageDatabase}

/-! ## Paths of assets -/

/-- New folders leave the way up from the others. -/
theorem climb_append {folders : List AssetFolderRow} (extra : List AssetFolderRow) {fuel : Nat} (fuel' : Nat)
    {folderId : Option Nat} {slugs : List JsString} (hfuel : fuel ≤ fuel')
    (h : climb folders fuel folderId = some slugs) : climb (folders ++ extra) fuel' folderId = some slugs := by
  induction fuel generalizing fuel' folderId slugs with
  | zero =>
    cases folderId with
    | none =>
      cases h
      cases fuel' <;> rfl
    | some id => simp [climb] at h
  | succ fuel ih =>
    cases folderId with
    | none =>
      cases h
      cases fuel' <;> rfl
    | some id =>
      obtain ⟨fuel', rfl⟩ : ∃ n, fuel' = n + 1 := ⟨fuel' - 1, by omega⟩
      unfold climb at h ⊢
      cases hget : Table.get AssetFolderRow.id folders id with
      | none => simp [hget] at h
      | some row =>
        have hget' : Table.get AssetFolderRow.id (folders ++ extra) id = some row := by
          unfold Table.get at hget ⊢
          rw [find?_append, hget]
          rfl
        rw [hget] at h
        rw [hget']
        dsimp only at h ⊢
        split at h
        · cases h
        next hslug =>
          rw [if_neg hslug]
          obtain ⟨above, habove, rfl⟩ := map_eq_some_iff.mp h
          rw [ih fuel' (by omega) habove]
          rfl

theorem filePath_append (folder : AssetFolderRow) (nextFolderId : Nat) {folderId : Option Nat}
    {filename path : JsString} (h : filePath store folderId filename = some path) :
    filePath { store with folders := store.folders ++ [folder], nextFolderId } folderId filename = some path := by
  obtain ⟨slugs, hslugs, rfl⟩ := map_eq_some_iff.mp h
  have hclimb := climb_append [folder] (store.folders ++ [folder]).length (by simp) hslugs
  unfold filePath getHierarchy
  dsimp only
  rw [hclimb]
  rfl

theorem requiredPath_ok {broken : Outbox.OutboxError} {folderId : Option Nat} {filename path : JsString}
    (h : requiredPath broken store folderId filename = .ok path) : filePath store folderId filename = some path := by
  unfold requiredPath at h
  split at h
  · cases h
  next found hfound =>
    cases h
    exact hfound

theorem normalizedName_ok {invalid : Outbox.OutboxError} {value name : JsString}
    (h : normalizedName env invalid value = .ok name) : 47 ∉ name := by
  unfold normalizedName at h
  split at h
  · cases h
  split at h
  · cases h
  next hname =>
    cases h
    simp only [Bool.or_eq_true, not_or] at hname
    intro hmem
    exact hname.1.2 (contains_iff_mem.mpr hmem)

/-! ## The invariant -/

/-- An asset whose name has no slash lies at a path where no public page is stored. -/
structure Lies (env : Environment) (store : Store) (db : PageDatabase) (asset : AssetRow) : Prop where
  filename : 47 ∉ asset.filename
  path : ∃ path, assetPath store asset = some path ∧ FreeOfPages env store db path

/-- No asset lies at the name of a public page on an enabled target. -/
def Exclusive (env : Environment) (s : System) : Prop :=
  ∀ asset ∈ s.store.assets, ∀ path, assetPath s.store asset = some path → FreeOfPages env s.store s.pages.db path

/-- The rows that the writers of pages, folders and assets leave, exclusive ones. -/
structure Excluded (env : Environment) (s : System) : Prop where
  sound : Sound s.pages.db
  clean : CleanPages s.pages.db
  wellFormed : WellFormed s.store
  exclusive : Exclusive env s

theorem Excluded.lies (hs : Excluded env s) {asset : AssetRow} (h : asset ∈ s.store.assets) :
    Lies env s.store s.pages.db asset := by
  obtain ⟨slugs, hslugs⟩ := isSome_iff_exists.mp (hs.wellFormed.rooted asset h)
  have hpath : assetPath s.store asset = some (Storage.joined (slugs ++ [asset.filename])) := by
    simp [assetPath, filePath, hslugs]
  exact ⟨hs.wellFormed.filenames asset h, _, hpath, hs.exclusive asset h _ hpath⟩

/-- Assets change where each of them is an old one or lies at a free path. -/
theorem Excluded.assets (hs : Excluded env s) {assets : List AssetRow} {reserved : List JsString} {nextAssetId : Nat}
    (h : ∀ asset ∈ assets, asset ∈ s.store.assets ∨ Lies env s.store s.pages.db asset) :
    Excluded env { s with store := { s.store with assets, reserved, nextAssetId } } := by
  have hall : ∀ asset ∈ assets, Lies env s.store s.pages.db asset := by
    intro asset hasset
    rcases h asset hasset with hold | hnew
    · exact hs.lies hold
    · exact hnew
  refine ⟨hs.sound, hs.clean, ⟨hs.wellFormed.unique, hs.wellFormed.slugs, ?_, ?_⟩, ?_⟩
  · exact fun asset hasset => (hall asset hasset).filename
  · intro asset hasset
    obtain ⟨path, hpath, -⟩ := (hall asset hasset).path
    obtain ⟨slugs, hslugs, -⟩ := map_eq_some_iff.mp hpath
    exact isSome_iff_exists.mpr ⟨slugs, hslugs⟩
  · intro asset hasset path hpath
    obtain ⟨path', hpath', hfree⟩ := (hall asset hasset).path
    change assetPath s.store asset = some path at hpath
    rw [hpath'] at hpath
    cases hpath
    exact hfree

/-! ## Operations on assets -/

theorem Excluded.upload (hs : Excluded env s) {opts : UploadOptions} (hname : 47 ∉ opts.originalname)
    (h : upload env opts s.pages.db s.store = .ok store') : Excluded env { s with store := store' } := by
  obtain ⟨⟨⟩, hdestination, h⟩ := bind_ok h
  obtain ⟨⟨⟩, hpages, h⟩ := bind_ok h
  obtain ⟨-, -, h⟩ := bind_ok h
  obtain ⟨-, -, h⟩ := bind_ok h
  cases h
  have hfree := assertNoPublicStoragePageAtPath_ok hs.sound hs.clean hpages
  have hpath : filePath s.store opts.folderId opts.originalname = some opts.assetPath := by
    obtain ⟨-, -, hdestination⟩ := bind_ok hdestination
    obtain ⟨canonical, hcanonical, hdestination⟩ := bind_ok hdestination
    obtain ⟨-, -, hdestination⟩ := bind_ok hdestination
    split at hdestination
    · cases hdestination
    next hsame =>
      rw [← not_not.mp hsame]
      exact requiredPath_ok hcanonical
  unfold upsertAsset
  split
  · refine hs.assets ?_
    intro asset hasset
    obtain ⟨old, hold, hasset⟩ := Table.mem_updateWhere.mp hasset
    split at hasset
    · subst hasset
      exact .inr ⟨hname, opts.assetPath, hpath, hfree⟩
    · subst hasset
      exact .inl hold
  · refine hs.assets ?_
    intro asset hasset
    rcases mem_append.mp hasset with hasset | hasset
    · exact .inl hasset
    · obtain rfl := mem_singleton.mp hasset
      exact .inr ⟨hname, opts.assetPath, hpath, hfree⟩

theorem givenFilename_ok {filename given : Option JsString}
    (h : givenFilename env filename = .ok given) : ∀ name, given = some name → 47 ∉ name := by
  intro name hname
  unfold givenFilename at h
  split at h
  · cases h
    cases hname
  next value =>
    cases hnormal : normalizedName env assetRenameInvalid value with
    | error e => simp [hnormal, Except.map] at h
    | ok normal =>
      rw [hnormal] at h
      cases h
      cases hname
      exact normalizedName_ok hnormal

theorem Excluded.relocate (hs : Excluded env s) {opts : RelocateOptions}
    (h : relocate env opts s.pages.db s.store = .ok store') : Excluded env { s with store := store' } := by
  obtain ⟨given, hgiven, h⟩ := bind_ok h
  cases hget : Table.get AssetRow.id s.store.assets opts.id with
  | none => simp [hget] at h
  | some asset =>
    obtain ⟨hasset, -⟩ := Table.get_mem _ hget
    rw [hget] at h
    dsimp only at h
    obtain ⟨sourcePath, -, h⟩ := bind_ok h
    obtain ⟨destinationPath, hdestination, h⟩ := bind_ok h
    obtain ⟨⟨⟩, hpages, h⟩ := bind_ok h
    obtain ⟨-, -, h⟩ := bind_ok h
    obtain ⟨-, -, h⟩ := bind_ok h
    split at h
    · cases h
    cases h
    have hfree := assertNoPublicStoragePageAtPath_ok hs.sound hs.clean hpages
    refine hs.assets ?_
    intro moved hmoved
    rcases Table.mem_replace AssetRow.id hmoved with rfl | ⟨hold, -⟩
    · refine .inr ⟨?_, destinationPath, requiredPath_ok hdestination, hfree⟩
      cases hname : given with
      | none => simpa [hname] using hs.wellFormed.filenames asset hasset
      | some name => simpa [hname] using givenFilename_ok hgiven name hname
    · exact .inl hold

theorem Excluded.resizeImage (hs : Excluded env s) {opts : ResizeOptions}
    (h : resizeImage env opts s.pages.db s.store = .ok store') : Excluded env { s with store := store' } := by
  obtain ⟨filename, hfilename, h⟩ := bind_ok h
  cases hget : Table.get AssetRow.id s.store.assets opts.id with
  | none => simp [hget] at h
  | some asset =>
    rw [hget] at h
    dsimp only at h
    obtain ⟨currentSourcePath, -, h⟩ := bind_ok h
    obtain ⟨destinationPath, hdestination, h⟩ := bind_ok h
    obtain ⟨⟨⟩, hpages, h⟩ := bind_ok h
    obtain ⟨-, -, h⟩ := bind_ok h
    obtain ⟨-, -, h⟩ := bind_ok h
    split at h
    · cases h
    split at h
    · cases h
    cases h
    have hfree := assertNoPublicStoragePageAtPath_ok hs.sound hs.clean hpages
    refine hs.assets ?_
    intro added hadded
    rcases mem_append.mp hadded with hold | hadded
    · exact .inl hold
    · obtain rfl := mem_singleton.mp hadded
      exact .inr ⟨normalizedName_ok hfilename, destinationPath, requiredPath_ok hdestination, hfree⟩

/-- A new folder leaves every asset where it is. -/
theorem Excluded.createFolder (hs : Excluded env s) {opts : FolderOptions}
    (h : createFolder env opts s.store = .ok store') : Excluded env { s with store := store' } := by
  obtain ⟨folderSlug, hslug, h⟩ := bind_ok h
  dsimp only at h
  obtain ⟨destinationPath, -, h⟩ := bind_ok h
  obtain ⟨-, -, h⟩ := bind_ok h
  obtain ⟨-, -, h⟩ := bind_ok h
  generalize hparent : (if opts.parentFolderId = 0 then none else some opts.parentFolderId) = parentId at h
  split at h
  · cases h
  next hfree =>
    cases h
    have hnone : ∀ f ∈ s.store.folders, f.slug = folderSlug → f.parentId ≠ parentId := by
      intro f hf hs hp
      refine hfree ?_
      unfold childFolder
      rw [isSome_map, find?_isSome]
      exact ⟨f, hf, by simp [hs, hp]⟩
    refine ⟨hs.sound, hs.clean, ⟨?_, ?_, hs.wellFormed.filenames, ?_⟩, ?_⟩
    · intro f hf g hg hslugs hparents
      rcases mem_append.mp hf with hf | hf
      · rcases mem_append.mp hg with hg | hg
        · exact hs.wellFormed.unique f hf g hg hslugs hparents
        · obtain rfl := mem_singleton.mp hg
          exact absurd hparents (hnone f hf hslugs)
      · obtain rfl := mem_singleton.mp hf
        rcases mem_append.mp hg with hg | hg
        · exact absurd hparents.symm (hnone g hg hslugs.symm)
        · obtain rfl := mem_singleton.mp hg
          rfl
    · exact forall_mem_append.mpr ⟨hs.wellFormed.slugs, forall_mem_singleton.mpr (normalizedName_ok hslug)⟩
    · intro asset hasset
      obtain ⟨path, hpath, -⟩ := (hs.lies hasset).path
      obtain ⟨slugs, hslugs, -⟩ := map_eq_some_iff.mp (filePath_append _ _ hpath)
      exact isSome_iff_exists.mpr ⟨slugs, hslugs⟩
    · intro asset hasset path hpath
      obtain ⟨path', hpath', hpages⟩ := (hs.lies hasset).path
      have hkept := filePath_append ⟨s.store.nextFolderId, folderSlug, parentId⟩
        (s.store.nextFolderId + 1) hpath'
      change filePath _ asset.folderId asset.filename = some path at hpath
      rw [hkept] at hpath
      cases hpath
      exact hpages

/-! ## Targets -/

/-- Every policy that is enabled after the publication was enabled before or has been checked. -/
theorem Excluded.configure (hs : Excluded env s) {next : StorageTargetRow} {outstanding : Bool}
    (h : configure env next outstanding s.pages.db s.store = .ok store') : Excluded env { s with store := store' } := by
  unfold Admission.configure at h
  cases hget : Table.get StorageTargetRow.key s.store.targets next.key with
  | none => simp [hget] at h
  | some original =>
    obtain ⟨horiginal, -⟩ := Table.get_mem _ hget
    rw [hget] at h
    dsimp only at h
    split at h
    · cases h
    have hchecked : next.isEnabled = true → nativeStorageMutationConfigurationKey original
        ≠ nativeStorageMutationConfigurationKey next →
        assertStorageTargetPathsAvailable env s.store s.pages.db next = .ok () := by
      intro henabled hchanged
      rw [if_pos (by simp [henabled, hchanged])] at h
      obtain ⟨⟨⟩, hchecked, -⟩ := bind_ok h
      exact hchecked
    have hstore : store' = { s.store with
        targets := Table.replace StorageTargetRow.key next s.store.targets } := by
      split at h
      · obtain ⟨-, -, h⟩ := bind_ok h
        cases h
        rfl
      · cases h
        rfl
    subst hstore
    refine ⟨hs.sound, hs.clean,
      ⟨hs.wellFormed.unique, hs.wellFormed.slugs, hs.wellFormed.filenames, hs.wellFormed.rooted⟩, ?_⟩
    intro asset hasset path hpath p page hp hpublic options hoptions heq
    change assetPath s.store asset = some path at hpath
    obtain ⟨target, htarget, rfl⟩ := List.mem_map.mp hoptions
    obtain ⟨hmem, henabled⟩ := mem_filter.mp htarget
    rcases Table.mem_replace StorageTargetRow.key hmem with rfl | ⟨hold, -⟩
    · by_cases hsame : nativeStorageMutationConfigurationKey original
          = nativeStorageMutationConfigurationKey target
      · simp only [nativeStorageMutationConfigurationKey, Prod.mk.injEq] at hsame
        obtain ⟨hkey, henabled', -, halways, -⟩ := hsame
        have hpolicy : pagePathOptions env.lang target = pagePathOptions env.lang original := by
          simp [pagePathOptions, hkey, halways]
        refine hs.exclusive asset hasset path hpath p page hp hpublic _ ?_ heq
        rw [hpolicy]
        exact List.mem_map.mpr
          ⟨original, mem_filter.mpr ⟨horiginal, henabled'.trans henabled⟩, rfl⟩
      · have hfree := assertStorageTargetPathsAvailable_ok hs.sound hs.wellFormed
          (hchecked henabled hsame) hp hpublic
        exact hfree asset hasset (by rw [hpath, heq])
    · exact hs.exclusive asset hasset path hpath p page hp hpublic _
        (List.mem_map.mpr ⟨target, mem_filter.mpr ⟨hold, henabled⟩, rfl⟩) heq

/-! ## Operations on pages -/

/-- Pages change where each is where it was or where its name is free of assets. -/
theorem Excluded.placed (hs : Excluded env s) {pages : Pages.System} {checked : Option VersionColumns}
    (hsound : Sound pages.db) (hclean : CleanPages pages.db) (hplaced : Placed s.pages.db pages.db checked)
    (hchecked : ∀ columns, checked = some columns → assertNoStorageAssetAtPagePaths env s.store columns = .ok ()) :
    Excluded env { s with pages } := by
  refine ⟨hsound, hclean, hs.wellFormed, ?_⟩
  intro asset hasset path hpath p next hp hpublic options hoptions heq
  rcases hplaced p next hp with ⟨stored, hstored, hsame⟩ | ⟨columns, hcolumns, hsame⟩
  · have hpublic' : isPublic stored = true := by
      simp only [isPublic, decide_eq_true_eq] at hpublic ⊢
      rw [← hsame.visibility]
      exact hpublic
    refine hs.exclusive asset hasset path hpath p stored hstored hpublic' options hoptions ?_
    rw [← heq]
    exact (hsame.storagePagePath options).symm
  · have hpublic' : columns.visibility = .public := by
      simp only [isPublic, decide_eq_true_eq] at hpublic
      rw [← hsame.visibility]
      exact hpublic
    have hfree := assertNoStorageAssetAtPagePaths_ok hs.wellFormed (hchecked columns hcolumns)
      hpublic' options hoptions
    refine hfree asset hasset ?_
    rw [hpath, ← heq]
    exact congrArg some (hsame.storagePagePath options)

theorem Excluded.page (hs : Excluded env s) {op : Pages.Op} (hop : (Op.page op).enabled s)
    {s' : System} (h : runPage env op s = .ok s') : Excluded env s' := by
  obtain ⟨pages, hrun, h⟩ := bind_ok h
  obtain ⟨⟨⟩, hcheck, h⟩ := bind_ok h
  cases h
  have hsound : Sound pages.db := by
    obtain ⟨now, target, hstep⟩ := Pages.Op.run_step hs.sound hop.1 hrun
    exact hstep.sound hs.sound
  cases op with
  | page op =>
    cases hpage : op.run env.pages s.pages.db with
    | error e => simp [Pages.Op.run, hpage, Except.map] at hrun
    | ok db =>
      simp only [Pages.Op.run, hpage, Except.map] at hrun
      cases hrun
      obtain ⟨hlocales, hpath⟩ := hop.2 op rfl
      refine hs.placed hsound (run_clean hs.sound hs.clean hop.1 hlocales hpath hpage)
        (run_placed hs.sound hop.1 hpage) ?_
      intro columns hcolumns
      simpa [checkPage, hcolumns] using hcheck
  | submit requester input id now =>
    obtain ⟨submitterId, page, hsub⟩ := Pages.submitPageApproval_ok hrun
    have hplaced : Placed s.pages.db pages.db none := by
      refine placed_of_pages_eq ?_
      rw [hsub.db]
      rfl
    exact hs.placed hsound (hplaced.clean hs.clean rfl) hplaced (by simp)
  | transition requester input now fresh =>
    obtain ⟨actor, expected, request, next, page, ht⟩ := Pages.transitionApproval_ok hrun
    have hid := hs.sound.ids _ _ ht.present
    have hplaced := transitionAction_placed (by rw [hid]; exact ht.present) ht.action
    exact hs.placed hsound (hplaced.clean hs.clean rfl) hplaced (by simp)

/-! ## The main result -/

theorem Excluded.stored (hs : Excluded env s) {op : Op} (hexec : exec env op s = s.commit (runStore env s op))
    (h : ∀ store, runStore env s op = .ok store → Excluded env { s with store }) : Excluded env (exec env op s) := by
  rw [hexec]
  cases hrun : runStore env s op with
  | error e => exact hs
  | ok store => exact h store hrun

theorem Excluded.exec (hs : Excluded env s) {op : Op} (hop : op.enabled s) : Excluded env (exec env op s) := by
  cases op with
  | page op =>
    unfold Admission.exec
    cases hrun : runPage env op s with
    | error e => simpa [hrun, Except.toOption] using hs
    | ok s' => simpa [hrun, Except.toOption] using hs.page hop hrun
  | upload opts => exact hs.stored rfl fun store h => hs.upload hop h
  | relocate opts => exact hs.stored rfl fun store h => hs.relocate h
  | resizeImage opts => exact hs.stored rfl fun store h => hs.resizeImage h
  | createFolder opts => exact hs.stored rfl fun store h => hs.createFolder h
  | configure next outstanding => exact hs.stored rfl fun store h => hs.configure h
  | effects reserved => exact hs.assets fun asset hasset => .inl hasset

/-- **Exclusion.** In every reachable state no public page and no asset have the same file on an
enabled target, and the search for the path of an asset looks at every public page that has this
name on some target. -/
theorem files_exclusive {s₀ : System} (h₀ : Excluded env s₀) (h : (exclusion env).Reachable s₀ s) : Exclusive env s ∧
    ∀ p page, s.pages.db.pages p = some page → isPublic page = true → ∀ target : StorageTarget,
    page ∈ pagesLookedUp s.pages.db (pagePath target page) := by
  have hs : Excluded env s := h.invariant h₀ fun op s hop hs => hs.exec hop
  exact ⟨hs.exclusive, fun p page hp hpublic target =>
    pagesLookedUp_complete hs.sound hs.clean hp hpublic target⟩

/-! ## An example -/

def exampleEnvironment : Environment where
  pages := Pages.exampleEnvironment
  lang := ⟨js "en", true⟩
  isStorageInternalPath _ := false
  generateHash path := path
  normalized value := some value

/-- A target on disk that is not enabled yet. -/
def exampleTarget : StorageTargetRow := ⟨js "disk", false, js "push", false, [], []⟩

def exampleStart : System := ⟨.empty, ⟨[], [], [exampleTarget], [], 1, 1⟩⟩

def exampleUpload (filename : String) : UploadOptions :=
  ⟨js filename, js "en/" ++ js filename, some 1, .ok ()⟩

/-- The target is enabled, the page en/home is created, and two files are uploaded to the folder
en, the second one at the name of the page. -/
def exampleOps : List Op :=
  [.configure { exampleTarget with isEnabled := true } false,
    .page (.page (.create (Pages.exampleCall 1) Pages.exampleCreation)),
    .createFolder ⟨js "en", 0, .ok ()⟩,
    .upload (exampleUpload "logo.png"),
    .upload (exampleUpload "home.md")]

theorem excluded_exampleStart : Excluded exampleEnvironment exampleStart where
  sound := Pages.sound_empty
  clean := by simp [CleanPages, exampleStart, Pages.System.empty, PageDatabase.empty]
  wellFormed := ⟨by simp [exampleStart], by simp [exampleStart], by simp [exampleStart],
    by simp [exampleStart]⟩
  exclusive := by simp [Exclusive, exampleStart]

theorem exampleOps_valid : (exclusion exampleEnvironment).Valid exampleOps exampleStart := by
  have hlogo : 47 ∉ js "logo.png" := by decide
  have hhome : 47 ∉ js "home.md" := by decide
  refine ⟨trivial, ⟨⟨?_, ?_⟩, ?_⟩, trivial, hlogo, hhome, trivial⟩
  · intro page h
    cases h
  · intro rows h
    cases h
  · intro op h
    cases h
    refine ⟨?_, ?_⟩
    · intro locale hlocale
      obtain rfl := mem_singleton.mp hlocale
      exact ⟨by decide, by decide, by decide⟩
    · intro path hpath
      cases hpath

/-- The second file is refused. -/
theorem files_exclusive_example :
    Exclusive exampleEnvironment ((exclusion exampleEnvironment).after exampleOps exampleStart) ∧
      ((exclusion exampleEnvironment).after exampleOps exampleStart).store.assets.map
        AssetRow.filename = [js "logo.png"] :=
  ⟨(files_exclusive excluded_exampleStart ⟨exampleOps, exampleOps_valid, rfl⟩).1, by decide⟩

end TsEpistle.Admission
