import TsEpistle.Admission.Checks
import TsEpistle.Storage.Mirror
import TsEpistle.Library.Scan

/-! What the two searches find: every page whose name on some target is the path of an asset, and
every asset whose path is a name of a page. -/

namespace TsEpistle.Admission
open Library Checked List
open Pages (PageRow PageDatabase VersionColumns Sound)
open Outbox (OutboxError)
open Storage (StorageTarget storagePagePath pagePath segments joined isPublic allPages CleanColumns CleanPages)

variable {env : Environment} {store : Store} {db : PageDatabase} {page : PageRow}

/-! ## Pages -/

theorem mem_allPages (hs : Sound db) {p : Nat} (hp : db.pages p = some page) : page ∈ allPages db := by
  refine mem_filterMap.mpr ⟨p, mem_range.mpr ?_, hp⟩
  have hlt := (hs.issued page (hs.stored _ _ hp)).1
  rwa [hs.ids _ _ hp] at hlt

/-- The candidates for an asset are those of the storage mutations, without their locales. -/
theorem candidatePaths_eq {path : JsString} {candidates : List (JsString × Option JsString)}
    (h : Storage.pageCandidates path = some candidates) : candidatePaths path = candidates.map Prod.fst := by
  unfold Storage.pageCandidates at h
  unfold candidatePaths
  cases hokf : Storage.parseOkfFilePath path with
  | some okf =>
    rw [hokf] at h
    cases h
    rfl
  | none =>
    rw [hokf] at h
    dsimp only at h ⊢
    cases hsplit : Storage.splitExtension path with
    | none => simp [hsplit] at h
    | some parts =>
      rw [hsplit] at h
      dsimp only at h ⊢
      split at h
      · cases h
      next hcontains =>
        rw [if_neg hcontains]
        cases h
        split <;> rfl

/-- **Lookup.** The search for an asset path looks at every public page whose name on some target
is that path. -/
theorem pagesLookedUp_complete (hs : Sound db) (hclean : CleanPages db) {p : Nat} (hp : db.pages p = some page)
    (hpublic : isPublic page = true) (target : StorageTarget) : page ∈ pagesLookedUp db (pagePath target page) := by
  obtain ⟨candidates, hcandidates, hany⟩ := Storage.pageCandidates_pagePath target (hclean _ _ hp)
  obtain ⟨candidate, hmem, hcandidate⟩ := any_eq_true.mp hany
  simp only [Bool.and_eq_true, decide_eq_true_eq] at hcandidate
  refine mem_filter.mpr ⟨mem_allPages hs hp, ?_⟩
  rw [hpublic, candidatePaths_eq hcandidates, Bool.true_and, contains_iff_mem]
  exact mem_map.mpr ⟨candidate, hmem, hcandidate.1⟩

/-- No public page has this name on an enabled target. -/
def FreeOfPages (env : Environment) (store : Store) (db : PageDatabase) (path : JsString) : Prop :=
  ∀ p page, db.pages p = some page → isPublic page = true →
    ∀ options ∈ enabledPagePathOptions env.lang store, pagePath options page ≠ path

theorem assertNoPublicStoragePageAtPath_ok (hs : Sound db) (hclean : CleanPages db) {path : JsString}
    (h : assertNoPublicStoragePageAtPath env store db path = .ok ()) : FreeOfPages env store db path := by
  intro p page hp hpublic options hoptions heq
  obtain ⟨-, -, h⟩ := bind_ok h
  dsimp only at h
  split at h
  · cases h
  next hnone =>
    refine hnone (any_eq_true.mpr ⟨page, ?_, ?_⟩)
    · rw [← heq]
      exact pagesLookedUp_complete hs hclean hp hpublic options
    · exact any_eq_true.mpr ⟨options, hoptions, by simpa using heq⟩

/-! ## Assets -/

/-- What the tables of folders and assets keep: a folder has one name below its parent, names have
no slash in them, and assets lie in folders that lead to the root. -/
structure WellFormed (store : Store) : Prop where
  unique : ∀ f ∈ store.folders, ∀ g ∈ store.folders, f.slug = g.slug → f.parentId = g.parentId → f.id = g.id
  slugs : ∀ f ∈ store.folders, 47 ∉ f.slug
  filenames : ∀ asset ∈ store.assets, 47 ∉ asset.filename
  rooted : ∀ asset ∈ store.assets, (getHierarchy store asset.folderId).isSome

theorem childFolder_of_mem (hs : WellFormed store) {row : AssetFolderRow} (hrow : row ∈ store.folders) :
    childFolder store.folders row.parentId row.slug = some (some row.id) := by
  unfold childFolder
  cases hfind : store.folders.find? fun folder =>
      folder.slug = row.slug && folder.parentId = row.parentId with
  | none =>
    have := find?_eq_none.mp hfind row hrow
    simp at this
  | some found =>
    have hmem := mem_of_find?_eq_some hfind
    have hfound := find?_some hfind
    simp only [Bool.and_eq_true, decide_eq_true_eq] at hfound
    rw [Option.map_some, hs.unique found hmem row hrow hfound.1 hfound.2]

/-- The way down from the root leads to the folder that the way up started from. -/
theorem walk_climb (hs : WellFormed store) {fuel : Nat} {folderId : Option Nat}
    {slugs : List JsString} (h : climb store.folders fuel folderId = some slugs) :
    slugs.foldlM (childFolder store.folders) none = some folderId ∧ ∀ s ∈ slugs, 47 ∉ s := by
  induction fuel generalizing folderId slugs with
  | zero =>
    cases folderId with
    | none =>
      cases h
      exact ⟨rfl, by simp⟩
    | some id => simp [climb] at h
  | succ fuel ih =>
    cases folderId with
    | none =>
      cases h
      exact ⟨rfl, by simp⟩
    | some id =>
      unfold climb at h
      cases hget : Table.get AssetFolderRow.id store.folders id with
      | none => simp [hget] at h
      | some row =>
        rw [hget] at h
        dsimp only at h
        split at h
        · cases h
        obtain ⟨above, habove, rfl⟩ := Option.map_eq_some_iff.mp h
        obtain ⟨hrow, rfl⟩ := Table.get_mem _ hget
        obtain ⟨hwalk, hslash⟩ := ih habove
        constructor
        · rw [foldlM_append, hwalk]
          simp [childFolder_of_mem hs hrow]
        · exact forall_mem_append.mpr ⟨hslash, forall_mem_singleton.mpr (hs.slugs row hrow)⟩

theorem isInFolder_self (asset : AssetRow) : isInFolder (asset.folderId.filter (· ≠ 0)) asset = true := by
  cases hfolder : asset.folderId with
  | none => simp [isInFolder, hfolder]
  | some id =>
    by_cases hid : id = 0
    · simp [isInFolder, hfolder, hid, Option.filter]
    · simp [isInFolder, hfolder, hid, Option.filter]

/-- **Walk.** The search for the name of a page stops at every asset with this path. -/
theorem assertNoAssetAtPath_ok (hs : WellFormed store) {path : JsString} (h : assertNoAssetAtPath store path = .ok ())
    {asset : AssetRow} (hasset : asset ∈ store.assets) : assetPath store asset ≠ some path := by
  intro hpath
  obtain ⟨slugs, hclimb, rfl⟩ := Option.map_eq_some_iff.mp hpath
  obtain ⟨hwalk, hslash⟩ := walk_climb hs hclimb
  have hparts : segments (joined (slugs ++ [asset.filename])) = slugs ++ [asset.filename] := by
    refine Storage.segments_joined ?_ (by simp)
    exact forall_mem_append.mpr ⟨hslash, forall_mem_singleton.mpr (hs.filenames asset hasset)⟩
  obtain ⟨-, -, h⟩ := bind_ok h
  rw [hparts] at h
  dsimp only at h
  rw [getLast?_concat, dropLast_concat, hwalk] at h
  split at h
  · cases h
  dsimp only at h
  split at h
  · cases h
  next hnone =>
    refine hnone (any_eq_true.mpr ⟨asset, hasset, ?_⟩)
    rw [isInFolder_self]
    simp

/-- No asset has this path. -/
def FreeOfAssets (store : Store) (path : JsString) : Prop :=
  ∀ asset ∈ store.assets, assetPath store asset ≠ some path

theorem assertNoAssets_ok (hs : WellFormed store) {paths : List JsString}
    (h : assertNoAssets store paths = .ok ()) : ∀ path ∈ paths, FreeOfAssets store path := by
  induction paths with
  | nil => simp
  | cons first paths ih =>
    obtain ⟨⟨⟩, hfirst, hrest⟩ := bind_ok (by simpa [assertNoAssets] using h)
    intro path hmem
    rcases mem_cons.mp hmem with rfl | hmem
    · exact fun asset hasset => assertNoAssetAtPath_ok hs hfirst hasset
    · exact ih hrest path hmem

/-- A location that passed has no asset at its name on any enabled target. -/
theorem assertNoStorageAssetAtPagePaths_ok (hs : WellFormed store) {columns : VersionColumns}
    (h : assertNoStorageAssetAtPagePaths env store columns = .ok ()) (hpublic : columns.visibility = .public) :
    ∀ options ∈ enabledPagePathOptions env.lang store, FreeOfAssets store (storagePagePath options columns) := by
  unfold assertNoStorageAssetAtPagePaths at h
  rw [if_neg (by simpa using hpublic)] at h
  intro options hoptions
  refine assertNoAssets_ok hs h _ (mem_dedup.mpr (mem_append_left _ ?_))
  exact mem_map.mpr ⟨options, hoptions, rfl⟩

/-! ## All pages at once -/

theorem allPages_pairwise (hs : Sound db) : (allPages db).Pairwise fun first second => first.id < second.id := by
  unfold allPages
  rw [pairwise_filterMap]
  refine pairwise_lt_range.imp ?_
  intro p q hlt first hfirst second hsecond
  rw [hs.ids _ _ hfirst, hs.ids _ _ hsecond]
  exact hlt

/-- The batches reach every public page after the id that they start at. -/
theorem checkBatches_ok (hdb : Sound db) (hs : WellFormed store) {options : StorageTarget}
    {fuel afterId : Nat} (h : checkBatches store db options fuel afterId = .ok ()) :
    ∀ page ∈ allPages db, isPublic page = true → afterId < page.id → FreeOfAssets store (pagePath options page) := by
  induction fuel generalizing afterId with
  | zero => cases h
  | succ fuel ih =>
    intro page hpage hpublic hafter
    have hmem : page ∈ (allPages db).filter fun page =>
        isPublic page && decide (afterId < page.id) :=
      mem_filter.mpr ⟨hpage, by simp [hpublic, hafter]⟩
    have hsplit := Scan.mem_take_or_before _ ((allPages_pairwise hdb).filter _) hmem 500
    unfold checkBatches at h
    cases hlast : (pageBatch db afterId).getLast? with
    | none =>
      have hnil : pageBatch db afterId = [] := getLast?_eq_none_iff.mp hlast
      have htake := (take_eq_nil_iff.mp hnil).resolve_left (by decide)
      rw [htake] at hmem
      cases hmem
    | some last =>
      rw [hlast] at h
      obtain ⟨⟨⟩, hbatch, hrest⟩ := bind_ok h
      rcases hsplit with hin | hbefore
      · exact assertNoAssets_ok hs hbatch _ (mem_map.mpr ⟨page, hin, rfl⟩)
      · exact ih hrest page hpage hpublic (hbefore.2 last (mem_of_getLast? hlast))

/-- A target that passed has no asset at the name of a public page. -/
theorem assertStorageTargetPathsAvailable_ok (hdb : Sound db) (hs : WellFormed store) {target : StorageTargetRow}
    (h : assertStorageTargetPathsAvailable env store db target = .ok ()) {p : Nat} (hp : db.pages p = some page)
    (hpublic : isPublic page = true) : FreeOfAssets store (pagePath (pagePathOptions env.lang target) page) := by
  refine checkBatches_ok hdb hs h page (mem_allPages hdb hp) hpublic ?_
  have hvalid := (hdb.issued page (hdb.stored _ _ hp)).2.1
  unfold Outbox.validPageId at hvalid
  simp only [Bool.and_eq_true, decide_eq_true_eq] at hvalid
  omega

end TsEpistle.Admission
