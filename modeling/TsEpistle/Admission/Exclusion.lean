import TsEpistle.Admission.Lookups

/-! Pages and assets never claim the same file. Every operation on a page either leaves its name
alone or has the location that it writes checked; every operation on an asset has its path
checked; and a target is enabled or moved only where no page would meet an asset. -/

namespace TsEpistle.Admission
open Library Checked Function
open Pages (PageRow PageDatabase PageColumns VersionColumns PageOp Revision Sound)
open Outbox (OutboxError Fresh)
open Storage (StorageTarget storagePagePath pagePath isPublic CleanColumns CleanPages)

/-! ## The locations that operations on pages write -/

/-- The columns that decide whether and where a page is stored. -/
structure SamePlace (a b : VersionColumns) : Prop where
  path : b.path = a.path
  locale : b.localeCode = a.localeCode
  contentType : b.contentType = a.contentType
  visibility : b.visibility = a.visibility

theorem SamePlace.refl (a : VersionColumns) : SamePlace a a := ⟨rfl, rfl, rfl, rfl⟩

theorem SamePlace.storagePagePath {a b : VersionColumns} (h : SamePlace a b) (target : StorageTarget) :
    Storage.storagePagePath target b = Storage.storagePagePath target a := by
  unfold Storage.storagePagePath
  rw [h.path, h.locale, h.contentType]

/-- Every page is where it was, or at the location that was checked. -/
def Placed (db db' : PageDatabase) (checked : Option VersionColumns) : Prop :=
  ∀ p next, db'.pages p = some next →
    (∃ stored, db.pages p = some stored ∧ SamePlace stored.columns.toVersionColumns next.columns.toVersionColumns) ∨
    ∃ columns, checked = some columns ∧ SamePlace columns next.columns.toVersionColumns

variable {env : Environment} {penv : Pages.Environment} {call : Pages.Call}
  {db db' : PageDatabase} {page : PageRow}

theorem placed_of_pages_eq {checked : Option VersionColumns} (h : db'.pages = db.pages) : Placed db db' checked := by
  intro p next hp
  rw [h] at hp
  exact .inl ⟨next, hp, .refl _⟩

/-- Pages other than this one stay. -/
theorem placed_of_others {checked : Option VersionColumns} (pageId : Nat)
    (hothers : ∀ q, q ≠ pageId → db'.pages q = db.pages q)
    (hpage : ∀ next, db'.pages pageId = some next →
      (∃ stored, db.pages pageId = some stored ∧
        SamePlace stored.columns.toVersionColumns next.columns.toVersionColumns) ∨
      ∃ columns, checked = some columns ∧ SamePlace columns next.columns.toVersionColumns) :
    Placed db db' checked := by
  intro p next hp
  by_cases hne : p = pageId
  · subst hne
    exact hpage next hp
  · rw [hothers p hne] at hp
    exact .inl ⟨next, hp, .refl _⟩

/-- The common path writes the columns of its revision. -/
theorem save_placed (hs : Sound db) (hread : page ∈ db.committed) {revision : Revision} {now : Pages.Time}
    {fresh : Fresh} {columns : VersionColumns}
    (hsame : SamePlace columns (revision.columns page.columns).toVersionColumns)
    (h : Pages.saveCanonicalPageRevision penv page revision now fresh db = .ok db') : Placed db db' (some columns) := by
  obtain ⟨stored, effects, hp, hid, hrev, rfl, -, -⟩ := Pages.saveCanonicalPageRevision_ok hs h
  obtain ⟨hcols, -⟩ := Pages.read_columns hs hread hp hrev
  refine placed_of_others page.id ?_ ?_
  · intro q hq
    have hne : q ≠ (revision.row stored (db.pageTags page.id) now).id := by
      rw [Revision.row_id, hid]
      exact hq
    simp only [PageDatabase.revised, update_of_ne hne]
  · intro next hnext
    obtain rfl : revision.row stored (db.pageTags page.id) now = next := by
      simpa [PageDatabase.revised, hid] using hnext
    rw [Revision.row_columns, ← hcols]
    exact .inr ⟨columns, rfl, hsame⟩

theorem createPage_placed {opts : Pages.CreatePageOptions} (h : Pages.createPage env.pages call opts db = .ok db') :
    Placed db db' (checkedIdentity env db (.create call opts)) := by
  obtain ⟨created, hchecks, h⟩ := bind_ok h
  obtain ⟨path, hpath, rfl, -⟩ := Pages.createChecks_ok hchecks
  obtain ⟨next, effects, hnext, rfl, -, -, -⟩ := Pages.enqueueCurrentPageProjections_ok h
  refine placed_of_others db.nextPageId ?_ ?_
  · intro q hq
    simp [PageDatabase.putPage, PageDatabase.putTags, Pages.createdPage, update_of_ne hq]
  · intro next hp
    obtain rfl : Pages.createdPage env.pages call opts path db.nextPageId = next := by
      simpa [PageDatabase.putPage, PageDatabase.putTags, Pages.createdPage] using hp
    refine .inr ⟨_, ?_, .refl _⟩
    simp only [checkedIdentity, hpath]

theorem updatePage_placed (hs : Sound db) (hread : page ∈ db.committed)
    {opts : Pages.UpdatePageOptions} (h : Pages.updatePage env.pages call page opts db = .ok db') :
    Placed db db' (checkedIdentity env db (.update call page opts)) := by
  obtain ⟨checked, hchecks, h⟩ := bind_ok h
  simp only [checkedIdentity, hchecks]
  cases checked with
  | none =>
    cases h
    exact placed_of_pages_eq rfl
  | some revision => exact save_placed hs hread (.refl _) h

theorem changeVisibility_placed (hs : Sound db) (hread : page ∈ db.committed) {visibility : Outbox.PageVisibility}
    {expected : Option Nat} (h : Pages.changeVisibility env.pages call page visibility expected db = .ok db') :
    Placed db db' (checkedIdentity env db (.changeVisibility call page visibility expected)) := by
  obtain ⟨checked, hchecks, h⟩ := bind_ok h
  cases checked with
  | none =>
    cases h
    exact placed_of_pages_eq rfl
  | some revision =>
    refine save_placed hs hread ?_ h
    obtain ⟨-, -, rfl⟩ := Pages.visibilityChecks_ok hchecks
    exact ⟨rfl, rfl, rfl, rfl⟩

/-- A page that changes hands is private before and after. -/
theorem transferOwnership_placed (hs : Sound db) (hread : page ∈ db.committed) {ownerId : Int} {expected : Option Nat}
    (h : Pages.transferOwnership penv call page ownerId expected db = .ok db') : Placed db db' none := by
  obtain ⟨revision, hchecks, h⟩ := bind_ok h
  obtain ⟨mid, hmid, h⟩ := bind_ok h
  cases h
  obtain ⟨hprivate, -, rfl⟩ := Pages.ownershipChecks_ok hchecks
  obtain ⟨stored, effects, hp, hid, hrev, rfl, -, -⟩ := Pages.saveCanonicalPageRevision_ok hs hmid
  obtain ⟨hcols, -⟩ := Pages.read_columns hs hread hp hrev
  refine placed_of_others page.id ?_ ?_
  · intro q hq
    have hne : q ≠ stored.id := by rw [hid]; exact hq
    simp [PageDatabase.revised, update_of_ne hne]
  · intro next hnext
    obtain rfl : Revision.row _ stored (db.pageTags page.id) call.now = next := by
      simpa [PageDatabase.revised, hid] using hnext
    rw [Revision.row_columns]
    refine .inl ⟨stored, hp, rfl, rfl, rfl, ?_⟩
    rw [← hcols, hprivate]
    rfl

theorem convertPage_placed (hs : Sound db) (hread : page ∈ db.committed)
    {opts : Pages.ConvertPageOptions} (h : Pages.convertPage env.pages call page opts db = .ok db') :
    Placed db db' (checkedIdentity env db (.convert call page opts)) := by
  obtain ⟨revision, hchecks, h⟩ := bind_ok h
  refine save_placed hs hread ?_ h
  obtain ⟨-, -, _, _, rfl⟩ := Pages.convertChecks_ok hchecks
  exact ⟨rfl, rfl, rfl, rfl⟩

theorem movePage_placed (hs : Sound db) (hread : page ∈ db.committed) {opts : Pages.MovePageOptions}
    (h : Pages.movePage env.pages call page opts db = .ok db') :
    Placed db db' (checkedIdentity env db (.move call page opts)) := by
  obtain ⟨revision, hchecks, h⟩ := bind_ok h
  obtain ⟨-, path, hpath, -, rfl⟩ := Pages.moveChecks_ok hchecks
  simp only [checkedIdentity, hpath]
  exact save_placed hs hread ⟨rfl, rfl, rfl, rfl⟩ h

theorem migratePage_placed (hs : Sound db) {pageId : Nat} {targetLocale : JsString}
    (h : Pages.migratePage env.pages call pageId targetLocale db = .ok db') :
    Placed db db' (checkedIdentity env db (.migrate call pageId targetLocale)) := by
  obtain ⟨page, mid, hash, f, hp, rfl, -, hmid, rfl⟩ := Pages.migratePage_ok hs h
  simp only [checkedIdentity, hp, Option.map_some]
  have hplaced : Placed db mid (some { page.columns.toVersionColumns with localeCode := targetLocale }) :=
    save_placed hs (hs.stored _ _ hp) ⟨rfl, rfl, rfl, rfl⟩ hmid
  exact hplaced

theorem applyTaxonomy_placed (hs : Sound db) {pageId : Nat} {tags : Finset Nat} {extra : JsString → JsString}
    (h : Pages.applyTaxonomy penv call pageId tags extra db = .ok db') : Placed db db' none := by
  obtain ⟨page, hp, rfl, h⟩ := Pages.applyTaxonomy_ok hs h
  obtain ⟨effects, rfl, -⟩ := Pages.enqueue_ok rfl h
  refine placed_of_others page.id ?_ ?_
  · intro q hq
    simp [PageDatabase.putPage, PageDatabase.putTags, PageDatabase.addVersion, update_of_ne hq]
  · intro next hnext
    simp only [PageDatabase.putPage, update_self, Option.some.injEq] at hnext
    subst hnext
    exact .inl ⟨page, hp, rfl, rfl, rfl, rfl⟩

theorem reassignAccount_placed (hs : Sound db) {pageId : Nat} {id replaceId : Int}
    (h : Pages.reassignAccount pageId id replaceId db = .ok db') : Placed db db' none := by
  obtain ⟨page, hp, rfl, _, _, rfl⟩ := Pages.reassignAccount_ok hs h
  refine placed_of_others page.id ?_ ?_
  · intro q hq
    simp [PageDatabase.putPage, PageDatabase.addVersion, PageRow.patched, update_of_ne hq]
  · intro next hnext
    simp only [PageDatabase.putPage, PageRow.patched, update_self, Option.some.injEq] at hnext
    subst hnext
    exact .inl ⟨page, hp, rfl, rfl, rfl, rfl⟩

theorem deletePage_placed {expected : Option Nat}
    (h : Pages.deletePage penv call page expected db = .ok db') : Placed db db' none := by
  obtain ⟨-, -, h⟩ := bind_ok h
  obtain ⟨-, hlock, h⟩ := bind_ok h
  obtain ⟨-, -, h⟩ := bind_ok h
  obtain ⟨queued, hqueue, h⟩ := bind_ok h
  obtain ⟨effects, rfl, -, -, -⟩ := Pages.enqueue_ok rfl hqueue
  cases h
  refine placed_of_others page.id ?_ ?_
  · intro q hq
    simp [PageDatabase.deletePage, PageDatabase.addVersion, update_of_ne hq]
  · intro next hnext
    simp [PageDatabase.deletePage] at hnext

theorem restoreDeletedPage_placed {opts : Pages.RestoreOptions}
    (h : Pages.restoreDeletedPage env.pages call opts db = .ok db') :
    Placed db db' (checkedIdentity env db (.restore call opts)) := by
  unfold Pages.restoreDeletedPage at h
  split at h
  · cases h
  cases hv : Pages.latestVersion opts.pageId db.history with
  | none => simp [hv] at h
  | some history =>
    rw [hv] at h
    dsimp only at h
    split at h
    · cases h
    obtain ⟨former, hformer, h⟩ := bind_ok h
    obtain ⟨revision, -, h⟩ := bind_ok h
    split at h
    · cases h
    obtain ⟨owner, howner, h⟩ := bind_ok h
    obtain ⟨-, -, h⟩ := bind_ok h
    split at h
    · cases h
    obtain ⟨next, effects, hnext, rfl, -, -, -⟩ := Pages.enqueueCurrentPageProjections_ok h
    refine placed_of_others opts.pageId ?_ ?_
    · intro q hq
      simp [PageDatabase.putPage, PageDatabase.putTags, PageDatabase.addVersion, Pages.restoredPage, update_of_ne hq]
    · intro next hp
      obtain rfl : Pages.restoredPage env.pages call opts history owner revision = next := by
        simpa [PageDatabase.putPage, PageDatabase.putTags, PageDatabase.addVersion, Pages.restoredPage] using hp
      refine .inr ⟨{ history.columns with
        path := opts.path, localeCode := opts.localeCode, visibility := owner.1 }, ?_,
        rfl, rfl, rfl, rfl⟩
      have hbind : (Except.ok former >>= Pages.restoredOwner call opts) = .ok owner := howner
      simp only [checkedIdentity, recoveryIdentity, hv, hformer, hbind]

/-- **Placement rule.** An operation on pages leaves every page where it was or puts it where it
had checked. -/
theorem run_placed (hs : Sound db) {op : PageOp} (hop : op.enabled db)
    (h : op.run env.pages db = .ok db') : Placed db db' (checkedIdentity env db op) := by
  cases op with
  | create call opts => exact createPage_placed h
  | update call page opts => exact updatePage_placed hs (hop.1 page rfl) h
  | changeVisibility call page visibility expected =>
    exact changeVisibility_placed hs (hop.1 page rfl) h
  | transferOwnership call page ownerId expected =>
    exact transferOwnership_placed hs (hop.1 page rfl) h
  | convert call page opts => exact convertPage_placed hs (hop.1 page rfl) h
  | move call page opts => exact movePage_placed hs (hop.1 page rfl) h
  | migrate call pageId targetLocale => exact migratePage_placed hs h
  | applyTaxonomy call pageId tags extra => exact applyTaxonomy_placed hs h
  | reassignAccount pageId id replaceId => exact reassignAccount_placed hs h
  | delete call page expected => exact deletePage_placed h
  | restore call opts => exact restoreDeletedPage_placed h
  | outbox rows =>
    cases h
    exact placed_of_pages_eq rfl

/-- An approval leaves every page where it was. -/
theorem transitionAction_placed {requester : Pages.Requester} {actor : Int}
    {input : Pages.TransitionInput} {expected : Nat} {request next : Pages.ApprovalRequest}
    {now : Pages.Time} {fresh : Fresh} (hp : db.pages page.id = some page)
    (h : Pages.transitionAction penv requester actor input expected request page now fresh db
      = .ok (next, db')) : Placed db db' none := by
  have hacts := Pages.transitionAction_acts h
  generalize input.action = action at hacts
  cases hacts with
  | approve _ | requestChanges _ | reject _ | cancel _ | reassign _ | resubmit _ =>
    exact placed_of_pages_eq rfl
  | publish status reviewer current db' run =>
    obtain ⟨effects, rfl, -⟩ := Pages.publishPage_ok run
    refine placed_of_others page.id ?_ ?_
    · intro q hq
      simp [PageDatabase.revised, PageRow.patched, update_of_ne hq]
    · intro next hnext
      simp only [PageDatabase.revised, PageRow.patched, update_self, Option.some.injEq] at hnext
      subst hnext
      exact .inl ⟨page, hp, rfl, rfl, rfl, rfl⟩

/-- Locations stay clean. -/
theorem Placed.clean {checked : Option VersionColumns} (h : Placed db db' checked)
    (hclean : CleanPages db) (hnone : checked = none) : CleanPages db' := by
  intro p next hp
  rcases h p next hp with ⟨stored, hstored, hsame⟩ | ⟨columns, hchecked, -⟩
  · have hold := hclean p stored hstored
    exact ⟨hsame.path ▸ hold.path, hsame.locale ▸ hold.locale⟩
  · rw [hnone] at hchecked
    cases hchecked

theorem run_clean (hs : Sound db) (hclean : CleanPages db) {op : PageOp} (hop : op.enabled db)
    (hlocales : ∀ locale ∈ Storage.namedLocales op, Storage.CleanLocale locale)
    (hpath : ∀ path, Storage.recoveryPath op = some path → Storage.assertRecoveryPath path = true)
    (h : op.run penv db = .ok db') : CleanPages db' := by
  cases op with
  | applyTaxonomy call pageId tags extra => exact (applyTaxonomy_placed hs h).clean hclean rfl
  | reassignAccount pageId id replaceId => exact (reassignAccount_placed hs h).clean hclean rfl
  | create call opts | update call page opts | changeVisibility call page visibility expected
  | transferOwnership call page ownerId expected | convert call page opts | move call page opts
  | migrate call pageId targetLocale | delete call page expected | restore call opts
  | outbox rows =>
    exact (Storage.PageOp.run_writes hs hclean hop hlocales hpath trivial h).clean hclean

end TsEpistle.Admission
