import TsEpistle.Pages.Steps

/-! Every operation on pages is one of the steps. -/

namespace TsEpistle.Pages
open Library Checked List
open Outbox (PageMutationOutboxRow OutboxError Fresh validLocation)

variable {env : Environment} {db db' : PageDatabase} {page : PageRow} {call : Call}
  {revision : Revision}

/-! ## The common path -/

theorem patched_succeeds (stored : PageRow) (columns : PageColumns) (changeReason : Option JsString)
    (updatedAt : Time) : Succeeds stored (stored.patched columns changeReason updatedAt) := by
  refine ⟨rfl, ?_⟩
  by_cases h : columns = stored.columns
  · exact .inr (by simp [PageRow.patched, h])
  · exact .inl (by simp [PageRow.patched, h])

namespace Revision
variable (revision : Revision) (stored : PageRow) (tags : Finset Nat) (now : Time)

@[simp] theorem row_id : (revision.row stored tags now).id = stored.id := by
  unfold Revision.row
  dsimp only
  split <;> rfl

@[simp] theorem row_updatedAt : (revision.row stored tags now).updatedAt = now := by
  unfold Revision.row
  dsimp only
  split <;> rfl

@[simp] theorem row_columns : (revision.row stored tags now).columns = revision.columns stored.columns := by
  unfold Revision.row
  dsimp only
  split <;> rfl

/-- The revision moves exactly where a compared column or the tags change. -/
theorem row_sourceRevision :
    (revision.row stored tags now).sourceRevision =
      if revision.columns stored.columns ≠ stored.columns ∨ revision.tagsChanged tags = true then
        stored.sourceRevision + 1
      else stored.sourceRevision := by
  unfold Revision.row PageRow.patched
  by_cases hc : revision.columns stored.columns = stored.columns <;>
    by_cases ht : revision.tagsChanged tags = true <;> simp [hc, ht]

theorem row_succeeds : Succeeds stored (revision.row stored tags now) := by
  refine ⟨row_id .., ?_⟩
  rw [row_sourceRevision, row_columns]
  by_cases hc : revision.columns stored.columns = stored.columns
  · by_cases ht : revision.tagsChanged tags = true
    · exact .inl (by simp [ht])
    · exact .inr (by simp [hc, ht])
  · exact .inl (by simp [hc])

end Revision

theorem enqueueCurrentPageProjections_ok {pageId : Nat} {action : Outbox.Action}
    {previous : Option Outbox.PageProjectionLocation} {fresh : Fresh}
    (h : enqueueCurrentPageProjections env pageId action previous fresh db = .ok db') : ∃ page effects,
    db.pages pageId = some page ∧ db' = { db with outbox := db.outbox ++ effects } ∧
    (∀ row ∈ effects, row.pageId = page.id ∧ row.sourceRevision = page.sourceRevision) ∧
    validLocation page.location = true ∧ Outbox.validPageId page.id = true := by
  unfold enqueueCurrentPageProjections at h
  cases hp : db.pages pageId with
  | none => simp [hp] at h
  | some page =>
    rw [hp] at h
    obtain ⟨-, -, h⟩ := bind_ok h
    obtain ⟨effects, hdb, hat, -, hlocation, hid⟩ := enqueue_ok rfl h
    exact ⟨page, effects, rfl, hdb, hat, by simpa [presentEffects] using hlocation, hid⟩

/-- The common path writes the page that was read at its next revision. -/
theorem saveCanonicalPageRevision_ok (hs : Sound db) {revision : Revision} {now : Time}
    {fresh : Fresh} (h : saveCanonicalPageRevision env page revision now fresh db = .ok db') :
    ∃ stored effects, db.pages page.id = some stored ∧ stored.id = page.id ∧
      stored.sourceRevision = page.sourceRevision ∧
      db' = db.revised (revision.row stored (db.pageTags page.id) now)
        (revision.tags.getD (db.pageTags page.id)) (db.version page revision.historyAction) id
        effects ∧
      (∀ row ∈ effects, row.pageId = page.id ∧ row.sourceRevision
        = (revision.row stored (db.pageTags page.id) now).sourceRevision) ∧
      validLocation (revision.row stored (db.pageTags page.id) now).location = true := by
  unfold saveCanonicalPageRevision at h
  cases hp : db.pages page.id with
  | none => simp [hp] at h
  | some stored =>
    have hid := hs.ids _ _ hp
    rw [hp] at h
    dsimp only at h
    split at h
    · cases h
    next hrev =>
      obtain ⟨next, effects, hnext, rfl, hat, hvalid, -⟩ := enqueueCurrentPageProjections_ok h
      obtain rfl : revision.row stored (db.pageTags page.id) now = next := by
        simpa [PageDatabase.putPage, PageDatabase.putTags, PageDatabase.addVersion, hid]
          using hnext
      refine ⟨stored, effects, rfl, hid, by simpa using hrev, ?_, by simpa [hid] using hat, hvalid⟩
      simp [PageDatabase.revised, PageDatabase.putPage, PageDatabase.putTags, PageDatabase.addVersion, hid]

/-- The step of a common path after which the versions are rewritten. -/
theorem revised_step {revision : Revision} {now : Time} {stored : PageRow}
    {effects : List PageMutationOutboxRow} {f : PageVersion → PageVersion} (keeps : Keeps f)
    (hp : db.pages page.id = some stored) (hid : stored.id = page.id)
    (hat : ∀ row ∈ effects, row.pageId = page.id ∧ row.sourceRevision
      = (revision.row stored (db.pageTags page.id) now).sourceRevision)
    (hvalid : validLocation (revision.row stored (db.pageTags page.id) now).location = true) :
    Step now (some page.id) db (db.revised (revision.row stored (db.pageTags page.id) now)
      (revision.tags.getD (db.pageTags page.id)) (db.version page revision.historyAction) f
      effects) := by
  refine .revised stored _ _ _ f effects (by rw [hid]; exact hp) (revision.row_succeeds ..) rfl
    hid.symm keeps (.inl hvalid) (.inl ⟨revision.row_updatedAt .., by rw [hid]⟩) ?_
  simpa [hid] using hat

theorem saveCanonicalPageRevision_step (hs : Sound db) {revision : Revision} {now : Time} {fresh : Fresh}
    (h : saveCanonicalPageRevision env page revision now fresh db = .ok db') : Step now (some page.id) db db' := by
  obtain ⟨stored, effects, hp, hid, -, rfl, hat, hvalid⟩ := saveCanonicalPageRevision_ok hs h
  exact revised_step keeps_id hp hid hat hvalid

/-- A rewrite of some versions that keeps what they show. -/
theorem keeps_updateWhere {p : PageVersion → Bool} {f : PageVersion → PageVersion}
    (hf : Keeps f) : Keeps fun v => if p v then f v else v := by
  constructor <;> intro v <;> by_cases hp : p v = true <;>
    simp [hp, hf.id, hf.pageId, hf.sourceRevision, hf.reviewed]

theorem updateWhere_step (hs : Sound db) {revision : Revision} {now : Time} {fresh : Fresh}
    {p : PageVersion → Bool} {f : PageVersion → PageVersion} (hf : Keeps f)
    (h : saveCanonicalPageRevision env page revision now fresh db = .ok db') :
    Step now (some page.id) db { db' with history := Table.updateWhere p f db'.history } := by
  obtain ⟨stored, effects, hp, hid, -, rfl, hat, hvalid⟩ := saveCanonicalPageRevision_ok hs h
  have hstep := revised_step (keeps_updateWhere (p := p) hf) hp hid hat hvalid
  simpa [PageDatabase.revised, Table.updateWhere] using hstep

theorem enqueue_of_projections {pageId : Nat} {action : Outbox.Action}
    {previousLocation : Option Outbox.PageProjectionLocation} {fresh : Fresh} {next : PageRow}
    (h : enqueueCurrentPageProjections env pageId action previousLocation fresh db = .ok db')
    (hp : db.pages pageId = some next) :
    enqueue env (presentEffects next action previousLocation) fresh db = .ok db' := by
  unfold enqueueCurrentPageProjections at h
  rw [hp] at h
  obtain ⟨-, -, h⟩ := bind_ok h
  exact h

/-! ## What the checks accept -/

theorem createChecks_ok {opts : CreatePageOptions} {created : PageRow}
    (h : createChecks env call opts db = .ok created) :
    ∃ path, checkedPath opts.path = .ok path ∧ createdPage env call opts path db.nextPageId = created ∧
      db.occupied created.location none = false ∧ db.nextPageId ≤ maxPageId := by
  obtain ⟨path, hpath, h⟩ := bind_ok h
  split at h
  · cases h
  obtain ⟨-, -, h⟩ := bind_ok h
  dsimp only at h
  split at h
  · cases h
  next hfree =>
    split at h
    · cases h
    next hserial =>
      cases h
      exact ⟨path, hpath, rfl, Bool.not_eq_true _ ▸ hfree, Nat.le_of_not_lt hserial⟩

theorem updateChecks_ok {opts : UpdatePageOptions}
    (h : updateChecks env call page opts db = .ok (some revision)) :
    lockPageForMutation page db = .ok () ∧
      (revision.previousLocation = none ∨ revision.previousLocation = some page.location) ∧
      ∃ path, checkedPath (opts.path.getD page.columns.path) = .ok path ∧
        revision.columns = fun _ => updatedColumns env call.user page opts path
          (opts.locale.getD page.columns.localeCode) := by
  unfold updateChecks at h
  split at h
  · cases h
  obtain ⟨-, -, h⟩ := bind_ok h
  split at h
  · cases h
  obtain ⟨path, hpath, h⟩ := bind_ok h
  dsimp only at h
  split at h
  · cases h
  obtain ⟨_, hlock, h⟩ := bind_ok h
  obtain ⟨-, -, h⟩ := bind_ok h
  split at h
  · cases h
  cases h
  refine ⟨hlock, ?_, path, hpath, rfl⟩
  dsimp only
  split
  · exact .inr rfl
  · exact .inl rfl

theorem visibilityChecks_ok {visibility : Outbox.PageVisibility} {expected : Option Nat}
    (h : visibilityChecks env call page visibility expected db = .ok (some revision)) :
    page.columns.visibility ≠ visibility ∧ lockPageForMutation page db = .ok () ∧
    simpleRevision (visibilityAction visibility)
    (ownedColumns env visibility (visibilityOwner call visibility)) .visibility (some page.location) = revision := by
  unfold visibilityChecks at h
  split at h
  · cases h
  next hdiffers =>
    obtain ⟨-, -, h⟩ := bind_ok h
    obtain ⟨_, hlock, h⟩ := bind_ok h
    obtain ⟨-, -, h⟩ := bind_ok h
    dsimp only at h
    split at h
    · cases h
    cases h
    exact ⟨hdiffers, hlock, rfl⟩

theorem ownershipChecks_ok {ownerId : Int} {expected : Option Nat}
    (h : ownershipChecks env call page ownerId expected db = .ok revision) :
    page.columns.visibility = .private ∧
      db.occupied { page.location with visibility := .private, ownerId := some ownerId } none = false ∧
      simpleRevision "ownership-transferred" (ownedColumns env .private (some ownerId)) .ownership
        (some page.location) = revision := by
  unfold ownershipChecks at h
  obtain ⟨-, -, h⟩ := bind_ok h
  split at h
  · cases h
  next hprivate =>
    obtain ⟨-, -, h⟩ := bind_ok h
    dsimp only at h
    split at h
    · cases h
    next hfree =>
      cases h
      exact ⟨not_not.mp hprivate, Bool.not_eq_true _ ▸ hfree, rfl⟩

theorem convertChecks_ok {opts : ConvertPageOptions}
    (h : convertChecks env call page opts db = .ok revision) :
    page.columns.editorKey ≠ opts.editor ∧ lockPageForMutation page db = .ok () ∧
      ∃ content extra : PageColumns → JsString, simpleRevision "updated"
        (fun columns => { columns with
          contentType := (env.editorContentType opts.editor).getD (js "text"), editorKey := opts.editor
          content := content columns, extra := extra columns })
        .convert none = revision := by
  unfold convertChecks at h
  obtain ⟨-, -, h⟩ := bind_ok h
  split at h
  · cases h
  next hdiffers =>
    obtain ⟨converted, -, h⟩ := bind_ok h
    obtain ⟨_, hlock, h⟩ := bind_ok h
    obtain ⟨-, -, h⟩ := bind_ok h
    cases h
    exact ⟨hdiffers, hlock, _, _, rfl⟩

theorem moveChecks_ok {opts : MovePageOptions} (h : moveChecks env call page opts db = .ok revision) :
    lockPageForMutation page db = .ok () ∧ ∃ path, checkedPath opts.destinationPath = .ok path ∧
      db.occupied { page.location with path, locale := opts.destinationLocale } none = false ∧
      simpleRevision "moved"
        (fun _ => movedColumns env path opts.destinationLocale opts.extra page.columns) .move
        (some page.location) = revision := by
  unfold moveChecks at h
  obtain ⟨-, -, h⟩ := bind_ok h
  obtain ⟨path, hpath, h⟩ := bind_ok h
  obtain ⟨_, hlock, h⟩ := bind_ok h
  obtain ⟨-, -, h⟩ := bind_ok h
  split at h
  · cases h
  next hfree =>
    cases h
    exact ⟨hlock, path, hpath, Bool.not_eq_true _ ▸ hfree, rfl⟩

theorem migratePage_ok (hs : Sound db) {pageId : Nat} {targetLocale : JsString}
    (h : migratePage env call pageId targetLocale db = .ok db') :
    ∃ page mid hash f, db.pages pageId = some page ∧ page.id = pageId ∧ Keeps f ∧
      saveCanonicalPageRevision env page (simpleRevision "moved"
        (fun columns => { columns with localeCode := targetLocale, hash }) .move (some page.location))
        call.now call.fresh db = .ok mid ∧
      { mid with history := Table.updateWhere (fun version => version.pageId = pageId) f mid.history } = db' := by
  unfold migratePage at h
  cases hp : db.pages pageId with
  | none => simp [hp] at h
  | some page =>
    rw [hp] at h
    obtain ⟨-, -, h⟩ := bind_ok h
    obtain ⟨mid, hmid, h⟩ := bind_ok h
    cases h
    refine ⟨page, mid, _, _, rfl, hs.ids _ _ hp, ?_, hmid, rfl⟩
    exact ⟨fun _ => rfl, fun _ => rfl, fun _ => rfl, fun _ => rfl⟩

theorem applyTaxonomy_ok (hs : Sound db) {pageId : Nat} {tags : Finset Nat} {extra : JsString → JsString}
    (h : applyTaxonomy env call pageId tags extra db = .ok db') :
    ∃ page : PageRow, db.pages page.id = some page ∧ page.id = pageId ∧
      let next : PageRow := { page with
        columns := { page.columns with authorId := call.user, extra := extra page.columns.extra }
        sourceRevision := page.sourceRevision + 1, changeReason := none, updatedAt := call.now }
      enqueue env (presentEffects next .update none) call.fresh
        (((db.addVersion (db.version page "updated")).putTags pageId tags).putPage next) = .ok db' := by
  unfold applyTaxonomy at h
  cases hp : db.pages pageId with
  | none => simp [hp] at h
  | some page =>
    obtain rfl := hs.ids _ _ hp
    rw [hp] at h
    obtain ⟨-, -, h⟩ := bind_ok h
    exact ⟨page, hp, rfl, h⟩

theorem reassignAccount_ok (hs : Sound db) {pageId : Nat} {id replaceId : Int}
    (h : reassignAccount pageId id replaceId db = .ok db') :
    ∃ page : PageRow, db.pages page.id = some page ∧ page.id = pageId ∧
      ∃ authorId creatorId, (db.addVersion (db.version page "updated")).putPage
        (page.patched { page.columns with authorId, creatorId } none page.updatedAt) = db' := by
  unfold reassignAccount at h
  cases hp : db.pages pageId with
  | none => simp [hp] at h
  | some page =>
    obtain rfl := hs.ids _ _ hp
    rw [hp] at h
    cases h
    exact ⟨page, hp, rfl, _, _, rfl⟩

/-! ## The operations -/

theorem createPage_step {opts : CreatePageOptions} (h : createPage env call opts db = .ok db') :
    Step call.now none db db' := by
  obtain ⟨created, hchecks, h⟩ := bind_ok h
  obtain ⟨path, -, rfl, -⟩ := createChecks_ok hchecks
  obtain ⟨next, effects, hnext, rfl, hat, hvalid, hid⟩ := enqueueCurrentPageProjections_ok h
  obtain rfl : createdPage env call opts path db.nextPageId = next := by
    simpa [PageDatabase.putPage, PageDatabase.putTags, createdPage] using hnext
  exact .created _ opts.tags effects rfl rfl hat hid hvalid (le_refl 1)

theorem updatePage_step (hs : Sound db) {opts : UpdatePageOptions}
    (h : updatePage env call page opts db = .ok db') : Step call.now (some page.id) db db' := by
  obtain ⟨checked, -, h⟩ := bind_ok h
  cases checked with
  | none =>
    cases h
    exact .idle
  | some revision => exact saveCanonicalPageRevision_step hs h

theorem changeVisibility_step (hs : Sound db) {visibility : Outbox.PageVisibility} {expected : Option Nat}
    (h : changeVisibility env call page visibility expected db = .ok db') : Step call.now (some page.id) db db' := by
  obtain ⟨checked, -, h⟩ := bind_ok h
  cases checked with
  | none =>
    cases h
    exact .idle
  | some revision => exact saveCanonicalPageRevision_step hs h

theorem transferOwnership_step (hs : Sound db) {ownerId : Int} {expected : Option Nat}
    (h : transferOwnership env call page ownerId expected db = .ok db') : Step call.now (some page.id) db db' := by
  obtain ⟨revision, -, h⟩ := bind_ok h
  obtain ⟨mid, hmid, h⟩ := bind_ok h
  cases h
  exact updateWhere_step hs ⟨fun _ => rfl, fun _ => rfl, fun _ => rfl, fun _ => rfl⟩ hmid

theorem convertPage_step (hs : Sound db) {opts : ConvertPageOptions}
    (h : convertPage env call page opts db = .ok db') : Step call.now (some page.id) db db' := by
  obtain ⟨revision, -, h⟩ := bind_ok h
  exact saveCanonicalPageRevision_step hs h

theorem movePage_step (hs : Sound db) {opts : MovePageOptions}
    (h : movePage env call page opts db = .ok db') : Step call.now (some page.id) db db' := by
  obtain ⟨revision, -, h⟩ := bind_ok h
  exact saveCanonicalPageRevision_step hs h

theorem migratePage_step (hs : Sound db) {pageId : Nat} {targetLocale : JsString}
    (h : migratePage env call pageId targetLocale db = .ok db') : Step call.now (some pageId) db db' := by
  obtain ⟨page, mid, hash, f, -, rfl, hf, hmid, rfl⟩ := migratePage_ok hs h
  exact updateWhere_step hs hf hmid

theorem applyTaxonomy_step (hs : Sound db) {pageId : Nat} {tags : Finset Nat} {extra : JsString → JsString}
    (h : applyTaxonomy env call pageId tags extra db = .ok db') : Step call.now (some pageId) db db' := by
  obtain ⟨page, hp, rfl, h⟩ := applyTaxonomy_ok hs h
  obtain ⟨effects, rfl, hat, -, hvalid, -⟩ := enqueue_ok rfl h
  have hstep : Step call.now (some page.id) db _ := .revised page
    { page with
      columns := { page.columns with authorId := call.user, extra := extra page.columns.extra }
      sourceRevision := page.sourceRevision + 1, changeReason := none, updatedAt := call.now }
    tags (db.version page "updated") id effects hp ⟨rfl, .inl (Nat.lt_succ_self _)⟩ rfl rfl
    keeps_id (.inl (by simpa [presentEffects] using hvalid)) (.inl ⟨rfl, rfl⟩) hat
  simpa [PageDatabase.revised, PageDatabase.putPage, PageDatabase.putTags, PageDatabase.addVersion] using hstep

theorem reassignAccount_step (hs : Sound db) {pageId : Nat} {id replaceId : Int}
    (h : reassignAccount pageId id replaceId db = .ok db') (now : Time) : Step now none db db' := by
  obtain ⟨page, hp, rfl, authorId, creatorId, rfl⟩ := reassignAccount_ok hs h
  have hstep : Step now none db _ := .revised page
    (page.patched { page.columns with authorId, creatorId } none page.updatedAt)
    (db.pageTags page.id) (db.version page "updated") (fun v => v) [] hp (patched_succeeds ..)
    rfl rfl keeps_id (.inr rfl) (.inr ⟨rfl, rfl, rfl⟩) (by simp)
  simpa [PageDatabase.revised, PageDatabase.putPage, PageDatabase.addVersion, PageRow.patched] using hstep

theorem lockPageForMutation_ok (h : lockPageForMutation page db = .ok ()) : ∃ stored, db.pages page.id = some stored ∧
    stored.sourceRevision = page.sourceRevision ∧ stored.updatedAt = page.updatedAt := by
  unfold lockPageForMutation at h
  cases hp : db.pages page.id with
  | none => simp [hp] at h
  | some stored =>
    rw [hp] at h
    dsimp only at h
    split at h
    · cases h
    next hfresh =>
      have : stored.sourceRevision = page.sourceRevision ∧ stored.updatedAt = page.updatedAt := by
        simpa using hfresh
      exact ⟨stored, rfl, this⟩

theorem deletePage_step (hs : Sound db) {expected : Option Nat}
    (h : deletePage env call page expected db = .ok db') : Step call.now (some page.id) db db' := by
  obtain ⟨-, -, h⟩ := bind_ok h
  obtain ⟨_, hlock, h⟩ := bind_ok h
  obtain ⟨-, -, h⟩ := bind_ok h
  obtain ⟨stored, hp, hrev, -⟩ := lockPageForMutation_ok hlock
  have hid := hs.ids _ _ hp
  obtain ⟨queued, hqueue, h⟩ := bind_ok h
  obtain ⟨effects, rfl, hat, hmem, -⟩ := enqueue_ok rfl hqueue
  cases h
  have hstep : Step call.now (some page.id) db _ := .deleted stored
    { page with sourceRevision := page.sourceRevision + 1 } (db.version page "deleted")
    ⟨page.id, (db.version page "deleted").id, page.sourceRevision + 1,
      ⟨page.columns.path, page.columns.localeCode, page.columns.visibility, page.columns.ownerId, db.pageTags page.id⟩⟩
    effects (by rw [hid]; exact hp) hid.symm (by simp [hrev]) rfl hid.symm
    (by simpa [hid] using hat) (by simpa [PageDatabase.addVersion, hid] using hmem)
  simpa [PageDatabase.deletePage, PageDatabase.addVersion, hid] using hstep

/-- No effect of the page is beyond the largest one. -/
theorem le_effectMaximum {pageId : Nat} {outbox : List PageMutationOutboxRow}
    {row : PageMutationOutboxRow} (hrow : row ∈ outbox) (hpage : row.pageId = pageId) :
    row.sourceRevision ≤ (effectMaximum pageId outbox).getD 0 := by
  have hmem : row.sourceRevision
      ∈ (outbox.filter (·.pageId = pageId)).map (·.sourceRevision) := by
    refine mem_map.mpr ⟨row, ?_, rfl⟩
    simpa [hpage] using hrow
  unfold effectMaximum
  cases hmax : ((outbox.filter (·.pageId = pageId)).map (·.sourceRevision)).max? with
  | none =>
    rw [max?_eq_none_iff] at hmax
    simp [hmax] at hmem
  | some largest => exact (max?_eq_some_iff.mp hmax).2 _ hmem

theorem restoredRevision_ok {opts : RestoreOptions} {record : Option RecoveryRow} {history : PageVersion}
    {revision : Nat} (h : restoredRevision opts record history db = .ok revision) : 1 ≤ revision ∧ ∀ row ∈ db.outbox,
    row.pageId = opts.pageId → row.sourceRevision < revision := by
  unfold restoredRevision at h
  dsimp only at h
  split at h
  · cases h
  cases h
  refine ⟨by omega, ?_⟩
  intro row hrow hpage
  have := le_effectMaximum hrow hpage
  omega

theorem latestVersion_mem {pageId : Nat} {history : List PageVersion} {version : PageVersion}
    (h : latestVersion pageId history = some version) : version ∈ history ∧ version.pageId = pageId := by
  have hfold : ∀ (vs : List PageVersion) (start : Option PageVersion),
      vs.foldl (fun latest version =>
        if latest.any fun latest => version.versionDate < latest.versionDate
            || version.versionDate = latest.versionDate && version.id < latest.id then latest
        else some version) start = some version → version ∈ vs ∨ start = some version := by
    intro vs
    induction vs with
    | nil => exact fun start h => .inr h
    | cons v vs ih =>
      intro start h
      rw [foldl_cons] at h
      rcases ih _ h with h | h
      · exact .inl (mem_cons_of_mem _ h)
      · split at h
        · exact .inr h
        · cases h
          exact .inl mem_cons_self
  rcases hfold _ none h with h | h
  · simpa using h
  · cases h

/-- What a recovery found and left. -/
structure Restored (env : Environment) (call : Call) (opts : RestoreOptions) (db db' : PageDatabase)
    (next : PageRow) : Prop where
  id : next.id = opts.pageId
  absent : db.pages opts.pageId = none
  fence : ∀ row ∈ db.outbox, row.pageId = opts.pageId → row.sourceRevision < next.sourceRevision
  present : db'.pages opts.pageId = some next
  location : next.columns.path = opts.path ∧ next.columns.localeCode = opts.localeCode
  others : ∀ q, q ≠ opts.pageId → db'.pages q = db.pages q ∧ db'.pageTags q = db.pageTags q
  step : Step call.now none db db'
  kept : ∃ mid version, enqueue env (presentEffects next .restore none) call.fresh mid = .ok db' ∧
    mid.outbox = db.outbox ∧ mid.history = db.history ++ [version] ∧
    version.pageId = next.id ∧ version.sourceRevision = next.sourceRevision

theorem restoreDeletedPage_ok {opts : RestoreOptions} (h : restoreDeletedPage env call opts db = .ok db') : ∃ next,
    Restored env call opts db db' next := by
  unfold restoreDeletedPage at h
  split at h
  · cases h
  next habsent =>
    have habsent : db.pages opts.pageId = none := by simpa using habsent
    cases hv : latestVersion opts.pageId db.history with
    | none => simp [hv] at h
    | some history =>
      obtain ⟨hmem, hpage⟩ := latestVersion_mem hv
      rw [hv] at h
      dsimp only at h
      split at h
      · cases h
      obtain ⟨former, -, h⟩ := bind_ok h
      obtain ⟨revision, hrevision, h⟩ := bind_ok h
      obtain ⟨hpos, hfence⟩ := restoredRevision_ok hrevision
      split at h
      · cases h
      obtain ⟨owner, -, h⟩ := bind_ok h
      obtain ⟨-, -, h⟩ := bind_ok h
      split at h
      · cases h
      have hqueue := h
      obtain ⟨next, effects, hnext, rfl, hat, hvalid, -⟩ := enqueueCurrentPageProjections_ok h
      obtain rfl : restoredPage env call opts history owner revision = next := by
        simpa [PageDatabase.putPage, PageDatabase.putTags, PageDatabase.addVersion, restoredPage] using hnext
      refine ⟨restoredPage env call opts history owner revision, rfl, habsent, hfence, hnext,
        ⟨rfl, rfl⟩, ?_, ?_, ⟨_, _, enqueue_of_projections hqueue hnext, rfl, rfl, rfl, rfl⟩⟩
      · intro q hq
        simp [PageDatabase.putPage, PageDatabase.putTags, PageDatabase.addVersion, restoredPage,
          Function.update_of_ne hq]
      exact .restored (restoredPage env call opts history owner revision) _ _ effects habsent
        ⟨history, hmem, hpage⟩ hfence hpos rfl rfl rfl hvalid hat

/-- When an operation on pages runs. -/
def PageOp.now : PageOp → Time
  | .create call _ | .update call _ _ | .changeVisibility call _ _ _
  | .transferOwnership call _ _ _ | .convert call _ _ | .move call _ _ | .migrate call _ _
  | .applyTaxonomy call _ _ _ | .delete call _ _ | .restore call _ => call.now
  | .reassignAccount .. | .outbox _ => 0

/-- The page that an operation stamps. -/
def PageOp.pageId : PageOp → Option Nat
  | .update _ page _ | .changeVisibility _ page _ _ | .transferOwnership _ page _ _
  | .convert _ page _ | .move _ page _ | .delete _ page _ => some page.id
  | .migrate _ pageId _ | .applyTaxonomy _ pageId _ _ => some pageId
  | .create .. | .reassignAccount .. | .restore .. | .outbox _ => none

/-- **Transaction rule.** An operation on pages that commits is one step. -/
theorem PageOp.run_step (hs : Sound db) {op : PageOp} (hop : op.enabled db)
    (h : op.run env db = .ok db') : Step op.now op.pageId db db' := by
  cases op with
  | create call opts => exact createPage_step h
  | update call page opts => exact updatePage_step hs h
  | changeVisibility call page visibility expected => exact changeVisibility_step hs h
  | transferOwnership call page ownerId expected => exact transferOwnership_step hs h
  | convert call page opts => exact convertPage_step hs h
  | move call page opts => exact movePage_step hs h
  | migrate call pageId targetLocale => exact migratePage_step hs h
  | applyTaxonomy call pageId tags extra => exact applyTaxonomy_step hs h
  | reassignAccount pageId id replaceId => exact reassignAccount_step hs h 0
  | delete call page expected => exact deletePage_step hs h
  | restore call opts =>
    obtain ⟨next, hrestored⟩ := restoreDeletedPage_ok h
    exact hrestored.step
  | outbox rows =>
    cases h
    exact .workers rows (hop.2 rows rfl)

/-! ## Approvals -/

theorem publishPage_ok {actor : Int} {now : Time} {fresh : Fresh}
    (h : publishPage env page actor now fresh db = .ok db') :
    ∃ effects, db' = db.revised
        (page.patched { page.columns with isPublished := true, authorId := actor } none now)
        (db.pageTags page.id) (db.version page "approval-published") id effects ∧
      (∀ row ∈ effects, row.pageId = page.id ∧ row.sourceRevision = (page.patched
        { page.columns with isPublished := true, authorId := actor } none now).sourceRevision) := by
  obtain ⟨effects, rfl, hat, -⟩ := enqueue_ok rfl h
  refine ⟨effects, ?_, hat⟩
  simp [PageDatabase.revised, PageDatabase.putPage, PageDatabase.addVersion, PageRow.patched]

theorem publishPage_step {actor : Int} {now : Time} {fresh : Fresh} (hp : db.pages page.id = some page)
    (h : publishPage env page actor now fresh db = .ok db') : Step now (some page.id) db db' := by
  obtain ⟨effects, rfl, hat⟩ := publishPage_ok h
  exact .revised page _ _ _ id effects hp (patched_succeeds ..) rfl rfl keeps_id (.inr rfl)
    (.inl ⟨rfl, rfl⟩) hat

/-- What an action leaves: only a resubmission archives the page and only a publication writes
it. -/
theorem transitionAction_step {requester : Requester} {actor : Int} {input : TransitionInput} {expected : Nat}
    {request next : ApprovalRequest} {now : Time} {fresh : Fresh} (hp : db.pages page.id = some page)
    (h : transitionAction env requester actor input expected request page now fresh db = .ok (next, db')) :
    Step now (some page.id) db db' := by
  unfold transitionAction at h
  dsimp only at h
  cases hact : input.action <;> rw [hact] at h <;> dsimp only at h
  case approve =>
    split at h
    · cases h
    split at h
    · cases h
    cases h
    exact .idle
  case requestChanges =>
    split at h
    · cases h
    cases h
    exact .idle
  case reject =>
    split at h
    · cases h
    cases h
    exact .idle
  case cancel =>
    split at h
    · cases h
    split at h
    · cases h
    cases h
    exact .idle
  case resubmit =>
    split at h
    · cases h
    split at h
    · cases h
    split at h
    · cases h
    cases h
    exact .archived page _ hp rfl rfl
  case publish =>
    split at h
    · cases h
    split at h
    · cases h
    obtain ⟨published, hpublish, h⟩ := bind_ok h
    cases h
    exact publishPage_step hp hpublish
  case reassign =>
    split at h
    · cases h
    split at h
    · cases h
    split at h
    · cases h
    cases h
    exact .idle

/-- What a successful transition found and left. -/
structure Transitioned (env : Environment) (requester : Requester) (input : TransitionInput)
    (now : Time) (fresh : Fresh) (s s' : System) (actor : Int) (expected : Nat)
    (request next : ApprovalRequest) (page : PageRow) : Prop where
  authenticated : requester.actorId = .ok actor
  found : Table.get ApprovalRequest.id s.requests input.requestId = some request
  present : s.db.pages request.pageId = some page
  viewed : canViewRequest requester actor request page (s.db.pageTags page.id) = true
  action : transitionAction env requester actor input expected request page now fresh s.db = .ok (next, s'.db)
  requests : s'.requests = Table.replace ApprovalRequest.id (stamped next now) s.requests
  transitions : s'.transitions = s.transitions ++ [⟨request.id, some request.status, next.status,
    actor, next.revisionId, storedComment input.comment, now⟩]
  issued : s'.issued = s.issued

theorem transitionApproval_ok {requester : Requester} {input : TransitionInput} {now : Time} {fresh : Fresh}
    {s s' : System} (h : transitionApproval env requester input now fresh s = .ok s') :
    ∃ actor expected request next page,
    Transitioned env requester input now fresh s s' actor expected request next page := by
  unfold transitionApproval at h
  split at h
  · cases h
  obtain ⟨actor, hactor, h⟩ := bind_ok h
  obtain ⟨expected, -, h⟩ := bind_ok h
  cases hr : Table.get ApprovalRequest.id s.requests input.requestId with
  | none => simp [hr] at h
  | some request =>
    rw [hr] at h
    dsimp only at h
    cases hp : s.db.pages request.pageId with
    | none => simp [hp] at h
    | some page =>
      rw [hp] at h
      dsimp only at h
      split at h
      · cases h
      next hview =>
        split at h
        · cases h
        obtain ⟨⟨next, db⟩, haction, h⟩ := bind_ok h
        cases h
        exact ⟨actor, expected, request, next, page, hactor, hr, hp, by simpa using hview, haction, rfl, rfl, rfl⟩

/-- What a successful submission found and left. -/
structure Submitted (input : SubmitInput) (id : Uuid) (now : Time) (s s' : System)
    (submitterId : Int) (page : PageRow) : Prop where
  present : s.db.pages input.pageId = some page
  idle : ∀ r ∈ s.requests, r.pageId = page.id → r.status.closed = true
  db : s'.db = s.db.addVersion (s.db.version page "approval-submitted")
  requests : s'.requests = s.requests ++ [⟨id, page.id, submitterId, input.assigneeId, .submitted,
    s.db.nextVersionId, page.updatedAt, now, now, none⟩]
  transitions : s'.transitions = s.transitions ++ [⟨id, none, .submitted, submitterId,
    s.db.nextVersionId, storedComment input.comment, now⟩]
  issued : s'.issued = id :: s.issued

theorem submitPageApproval_ok {requester : Requester} {input : SubmitInput} {id : Uuid} {now : Time} {s s' : System}
    (h : submitPageApproval requester input id now s = .ok s') : ∃ submitterId page,
    Submitted input id now s s' submitterId page := by
  unfold submitPageApproval at h
  obtain ⟨submitterId, -, h⟩ := bind_ok h
  obtain ⟨expected, -, h⟩ := bind_ok h
  split at h
  · cases h
  cases hp : s.db.pages input.pageId with
  | none => simp [hp] at h
  | some page =>
    rw [hp] at h
    dsimp only at h
    split at h
    · cases h
    split at h
    · cases h
    split at h
    · cases h
    split at h
    · cases h
    next hactive =>
      cases h
      refine ⟨submitterId, page, hp, ?_, rfl, rfl, rfl, rfl⟩
      intro r hr hpage
      simp only [any_eq_true, not_exists, not_and] at hactive
      simpa [hpage] using hactive r hr

/-- **System rule.** An operation that commits is one step of the database. -/
theorem Op.run_step {s s' : System} (hs : Sound s.db) {op : Op} (hop : op.enabled s)
    (h : op.run env s = .ok s') : ∃ now target, Step now target s.db s'.db := by
  cases op with
  | page op =>
    cases hrun : op.run env s.db with
    | error e => simp [Op.run, hrun, Except.map] at h
    | ok db =>
      simp only [Op.run, hrun, Except.map] at h
      cases h
      exact ⟨op.now, op.pageId, op.run_step hs hop hrun⟩
  | submit requester input id now =>
    obtain ⟨submitterId, page, hsub⟩ := submitPageApproval_ok h
    have hid := hs.ids _ _ hsub.present
    refine ⟨now, none, hsub.db ▸ .archived page _ (hid ▸ hsub.present) rfl rfl⟩
  | transition requester input now fresh =>
    obtain ⟨actor, expected, request, next, page, ht⟩ := transitionApproval_ok h
    have hid := hs.ids _ _ ht.present
    exact ⟨now, some page.id, transitionAction_step (hid ▸ ht.present) ht.action⟩

theorem Reachable.sound {s : System} (h : (workflow env).Reachable .empty s) : Sound s.db := by
  refine h.invariant (I := fun s => Sound s.db) sound_empty ?_
  intro op s hop hs
  change Sound (exec env op s).db
  unfold exec
  cases hrun : op.run env s with
  | error e => exact hs
  | ok s' =>
    obtain ⟨now, target, hstep⟩ := Op.run_step hs hop hrun
    exact hstep.sound hs

end TsEpistle.Pages
