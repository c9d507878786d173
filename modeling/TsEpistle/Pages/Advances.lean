import TsEpistle.Pages.Transactions

/-! When a page operation moves its page to a new revision with its own version and effects.
An operation that changes no column the trigger compares, and no tags, stays at the revision it
found. -/

namespace TsEpistle.Pages
open Library List
open Outbox (PageMutationOutboxRow PageProjectionEffectKind OutboxError Fresh validLocation)

/-- The effects of a page at a revision: one of each kind, all waiting. -/
def Queued (db : PageDatabase) (pageId revision : Nat) : Prop :=
  ∀ kind, ∃ row, (db.outbox.filter fun row => row.key = (pageId, revision, kind)) = [row] ∧ row.status = .pending

/-- The page stands at a later revision, with one new version that carries the earlier one, and
its effects wait. -/
def Advanced (db db' : PageDatabase) (pageId : Nat) : Prop :=
  ∃ stored next version, db.pages pageId = some stored ∧ db'.pages pageId = some next ∧
    stored.sourceRevision < next.sourceRevision ∧
    version ∈ db'.history ∧ version.pageId = pageId ∧
    version.sourceRevision = stored.sourceRevision ∧
    db'.history.map PageVersion.id = db.history.map PageVersion.id ++ [version.id] ∧
    Queued db' pageId next.sourceRevision

/-- The transaction commits and the page advances. -/
def Advances (result : Except OutboxError PageDatabase) (db : PageDatabase) (pageId : Nat) : Prop :=
  ∃ db', result = .ok db' ∧ Advanced db db' pageId

/-- The last checks of a write: the export of a public Markdown page, and the schema of the
location. -/
def accepts (env : Environment) (page : PageRow) (tags : Finset Nat) : Bool :=
  (page.columns.visibility ≠ .public || page.columns.contentType ≠ js "markdown"
    || env.exportable page tags) && validLocation page.location

/-- The update changes a column that the trigger compares, or the tags. -/
def Revision.changes (revision : Revision) (stored : PageRow) (tags : Finset Nat) : Prop :=
  revision.columns stored.columns ≠ stored.columns ∨ revision.tagsChanged tags = true

variable {env : Environment} {db db' : PageDatabase} {page : PageRow} {call : Call}

/-! ## The effects of a new revision -/

variable (env db) in
theorem queued_of_fresh (input : Outbox.EnqueueInput) (fresh : Fresh)
    (hfree : Free input db.outbox) :
    Queued { db with
      outbox := db.outbox ++ Outbox.pageProjectionEffectKinds.map (effectOf env input fresh) }
      input.pageId input.sourceRevision := by
  intro kind
  refine ⟨effectOf env input fresh kind, ?_, rfl⟩
  have hold : (db.outbox.filter fun row =>
      row.key = (input.pageId, input.sourceRevision, kind)) = [] := by
    rw [filter_eq_nil_iff]
    intro row hrow hkey
    simp only [PageMutationOutboxRow.key, decide_eq_true_eq, Prod.mk.injEq] at hkey
    exact hfree row hrow hkey.1 hkey.2.1
  rw [filter_append, hold, nil_append]
  cases kind <;> simp [Outbox.pageProjectionEffectKinds]

variable {stored : PageRow}

/-- A later revision of a page has no effect. -/
theorem free_of_later (hs : Sound db) {input : Outbox.EnqueueInput} (hp : db.pages input.pageId = some stored)
    (hlater : stored.sourceRevision < input.sourceRevision) : Free input db.outbox := by
  intro row hrow hpage heq
  have := (hs.effects row hrow).2 stored (by rw [hpage]; exact hp)
  omega

/-- The row that was read is the row that stands, where the revision is the same. -/
theorem read_columns (hs : Sound db) (hread : page ∈ db.committed)
    (hp : db.pages page.id = some stored) (hrev : stored.sourceRevision = page.sourceRevision) :
    page.columns = stored.columns ∧ validLocation page.location = true := by
  have hcols : page.columns = stored.columns := by
    rcases hs.newest page hread stored hp with h | h
    · omega
    · exact h.2
  refine ⟨hcols, ?_⟩
  have hlocation := hs.located _ _ hp
  unfold PageRow.location at hlocation ⊢
  rw [hcols]
  exact hlocation

theorem assertCanonicalPageExportable_of_accepts {tags : Finset Nat} (h : accepts env page tags = true)
    (htags : db.pageTags page.id = tags) : assertCanonicalPageExportable env page db = .ok () := by
  unfold assertCanonicalPageExportable
  simp only [accepts, Bool.and_eq_true, Bool.or_eq_true, decide_eq_true_eq] at h
  rw [if_neg]
  rw [htags]
  intro hx
  simp only [Bool.and_eq_true, decide_eq_true_eq, Bool.not_eq_true'] at hx
  rcases h.1 with (h | h) | h
  · exact h hx.1.1
  · exact h hx.1.2
  · rw [hx.2] at h
    cases h

variable (env) in
/-- The effects of a later revision of a page are queued beside those that wait already. -/
theorem enqueue_next (hs : Sound db) (next : PageRow) (hp : db.pages next.id = some stored)
    (hlater : stored.sourceRevision < next.sourceRevision) (hvalid : validLocation next.location = true)
    (action : Outbox.Action) {previous : Option Outbox.PageProjectionLocation}
    (hprevious : previous.all validLocation = true) (fresh : Fresh) (mid : PageDatabase)
    (hmid : mid.outbox = db.outbox) : ∃ queued,
    enqueue env (presentEffects next action previous) fresh mid = .ok queued ∧ queued.pages = mid.pages ∧
    queued.history = mid.history ∧ Queued queued next.id next.sourceRevision := by
  have hfree : Free (presentEffects next action previous) mid.outbox := by
    rw [hmid]
    exact free_of_later hs hp hlater
  have hid : Outbox.validPageId next.id = true := by
    have := (hs.issued stored (hs.stored _ _ hp)).2.1
    rwa [hs.ids _ _ hp] at this
  refine ⟨_, enqueue_fresh env _ fresh mid hid (by simp [presentEffects]) (by simp [presentEffects]) rfl
    ⟨by simpa [presentEffects] using hvalid, hprevious⟩ hfree, rfl, rfl, queued_of_fresh env mid _ fresh hfree⟩

/-! ## The common path -/

variable {revision : Revision}

/-- **Advance rule.** With its checks passed, the common path advances the page exactly where
it changes a compared column or the tags. -/
theorem save_advances_iff (hs : Sound db) {now : Time} {fresh : Fresh}
    (hp : db.pages page.id = some stored) (hrev : stored.sourceRevision = page.sourceRevision)
    (hprevious : revision.previousLocation.all validLocation = true)
    (haccepts : accepts env (revision.row stored (db.pageTags page.id) now)
      (revision.tags.getD (db.pageTags page.id)) = true) :
    Advances (saveCanonicalPageRevision env page revision now fresh db) db page.id ↔
      revision.changes stored (db.pageTags page.id) := by
  have hid := hs.ids _ _ hp
  have hrow := revision.row_sourceRevision stored (db.pageTags page.id) now
  constructor
  · rintro ⟨db', hsave, stored', next, version, hp', hnext, hlt, -⟩
    obtain ⟨found, effects, hfound, -, -, rfl, -, -⟩ := saveCanonicalPageRevision_ok hs hsave
    rw [hp] at hp' hfound
    cases hp'
    cases hfound
    have hnextRow : revision.row stored (db.pageTags page.id) now = next := by
      simpa [PageDatabase.revised, hid] using hnext
    by_contra hsame
    unfold Revision.changes at hsame
    rw [← hnextRow, hrow, if_neg hsame] at hlt
    exact absurd hlt (Nat.lt_irrefl _)
  · intro hchanges
    unfold Revision.changes at hchanges
    rw [if_pos hchanges] at hrow
    generalize hnext : revision.row stored (db.pageTags page.id) now = next at hrow haccepts
    have hnextId : next.id = page.id := by rw [← hnext, Revision.row_id, hid]
    -- the database when the effects are queued
    let mid := (((db.addVersion (db.version page revision.historyAction)).putTags page.id
      (revision.tags.getD (db.pageTags page.id))).putPage next)
    have hmidPage : mid.pages page.id = some next := by
      simp [mid, PageDatabase.putPage, hnextId]
    have hmidTags : mid.pageTags next.id = revision.tags.getD (db.pageTags page.id) := by
      simp [mid, PageDatabase.putPage, PageDatabase.putTags, hnextId]
    have hvalid : validLocation next.location = true := by
      simp only [accepts, Bool.and_eq_true] at haccepts
      exact haccepts.2
    obtain ⟨queued, hqueue, hpages, hhistory, hqueued⟩ := enqueue_next env hs
      next (by rw [hnextId]; exact hp) (by omega) hvalid revision.projectionAction
      hprevious fresh mid rfl
    refine ⟨queued, ?_, stored, next, db.version page revision.historyAction, hp,
      by rw [hpages, hmidPage], by omega, ?_, rfl, hrev.symm, ?_, hnextId ▸ hqueued⟩
    · unfold saveCanonicalPageRevision
      rw [hp]
      dsimp only
      rw [if_neg (by simp [hrev]), hnext]
      change enqueueCurrentPageProjections env page.id revision.projectionAction
        revision.previousLocation fresh mid = _
      unfold enqueueCurrentPageProjections
      rw [hmidPage]
      dsimp only
      rw [assertCanonicalPageExportable_of_accepts haccepts hmidTags]
      exact hqueue
    · rw [hhistory]
      simp [mid, PageDatabase.putPage, PageDatabase.putTags, PageDatabase.addVersion]
    · rw [hhistory]
      simp [mid, PageDatabase.putPage, PageDatabase.putTags, PageDatabase.addVersion]

/-! ## The operations -/

/-- The last checks accept the row that the update leaves. -/
def Accepted (env : Environment) (call : Call) (page : PageRow) (revision : Revision)
    (db : PageDatabase) : Prop :=
  ∀ stored, db.pages page.id = some stored →
    accepts env (revision.row stored (db.pageTags page.id) call.now)
      (revision.tags.getD (db.pageTags page.id)) = true

/-- The advance rule for a page that was read before and is locked at the same revision. -/
theorem read_advances_iff (hs : Sound db) (hread : page ∈ db.committed)
    (hp : db.pages page.id = some stored) (hrev : stored.sourceRevision = page.sourceRevision)
    (hprevious : revision.previousLocation = none ∨ revision.previousLocation = some page.location)
    (haccepted : Accepted env call page revision db) :
    Advances (saveCanonicalPageRevision env page revision call.now call.fresh db) db page.id ↔
      revision.changes page (db.pageTags page.id) := by
  obtain ⟨hcols, hvalid⟩ := read_columns hs hread hp hrev
  have hprevious : revision.previousLocation.all validLocation = true := by
    rcases hprevious with h | h <;> simp [h, hvalid]
  rw [save_advances_iff hs hp hrev hprevious (haccepted stored hp)]
  simp [Revision.changes, hcols]

theorem updatePage_advances_iff (hs : Sound db) (hread : page ∈ db.committed)
    {opts : UpdatePageOptions} (hchecks : updateChecks env call page opts db = .ok (some revision))
    (haccepted : Accepted env call page revision db) :
    Advances (updatePage env call page opts db) db page.id ↔ revision.changes page (db.pageTags page.id) := by
  obtain ⟨hlock, hprevious, -⟩ := updateChecks_ok hchecks
  obtain ⟨stored, hp, hrev, -⟩ := lockPageForMutation_ok hlock
  rw [← read_advances_iff hs hread hp hrev hprevious haccepted]
  simp [updatePage, hchecks, bind, Except.bind]

theorem changeVisibility_advances (hs : Sound db) (hread : page ∈ db.committed) {visibility : Outbox.PageVisibility}
    {expected : Option Nat} (hchecks : visibilityChecks env call page visibility expected db = .ok (some revision))
    (haccepted : Accepted env call page revision db) :
    Advances (changeVisibility env call page visibility expected db) db page.id := by
  have hrun : changeVisibility env call page visibility expected db
      = saveCanonicalPageRevision env page revision call.now call.fresh db := by
    simp [changeVisibility, hchecks, bind, Except.bind]
  rw [hrun]
  obtain ⟨hdiffers, hlock, rfl⟩ := visibilityChecks_ok hchecks
  obtain ⟨stored, hp, hrev, -⟩ := lockPageForMutation_ok hlock
  refine (read_advances_iff hs hread hp hrev (.inr rfl) haccepted).mpr (.inl ?_)
  intro heq
  exact hdiffers (congrArg (fun c : PageColumns => c.visibility) heq).symm

theorem convertPage_advances (hs : Sound db) (hread : page ∈ db.committed) {opts : ConvertPageOptions}
    (hchecks : convertChecks env call page opts db = .ok revision) (haccepted : Accepted env call page revision db) :
    Advances (convertPage env call page opts db) db page.id := by
  have hrun : convertPage env call page opts db
      = saveCanonicalPageRevision env page revision call.now call.fresh db := by
    simp [convertPage, hchecks, bind, Except.bind]
  rw [hrun]
  obtain ⟨hdiffers, hlock, _, _, rfl⟩ := convertChecks_ok hchecks
  obtain ⟨stored, hp, hrev, -⟩ := lockPageForMutation_ok hlock
  refine (read_advances_iff hs hread hp hrev (.inl rfl) haccepted).mpr (.inl ?_)
  intro heq
  exact hdiffers (congrArg (fun c : PageColumns => c.editorKey) heq).symm

/-- A page occupies its own location. -/
theorem occupied_self (hs : Sound db) (hp : db.pages page.id = some stored) :
    db.occupied stored.location none = true := by
  have hlt := (hs.issued stored (hs.stored _ _ hp)).1
  rw [hs.ids _ _ hp] at hlt
  unfold PageDatabase.occupied
  rw [any_eq_true]
  exact ⟨page.id, mem_range.mpr hlt, by simp [hp]⟩

theorem movePage_advances (hs : Sound db) (hread : page ∈ db.committed) {opts : MovePageOptions}
    (hchecks : moveChecks env call page opts db = .ok revision) (haccepted : Accepted env call page revision db) :
    Advances (movePage env call page opts db) db page.id := by
  have hrun : movePage env call page opts db
      = saveCanonicalPageRevision env page revision call.now call.fresh db := by
    simp [movePage, hchecks, bind, Except.bind]
  rw [hrun]
  obtain ⟨hlock, path, -, hfree, rfl⟩ := moveChecks_ok hchecks
  obtain ⟨stored, hp, hrev, -⟩ := lockPageForMutation_ok hlock
  obtain ⟨hcols, -⟩ := read_columns hs hread hp hrev
  refine (read_advances_iff hs hread hp hrev (.inr rfl) haccepted).mpr (.inl ?_)
  intro heq
  have hpath := congrArg (fun c : PageColumns => c.path) heq
  have hlocale := congrArg (fun c : PageColumns => c.localeCode) heq
  have hself := occupied_self hs hp
  refine Bool.false_ne_true (hfree.symm.trans ?_)
  rw [← hself]
  congr 1
  simp only [PageRow.location, movedColumns, simpleRevision] at hpath hlocale ⊢
  simp [hpath, hlocale, hcols]

theorem transferOwnership_advances (hs : Sound db) (hread : page ∈ db.committed) {ownerId : Int} {expected : Option Nat}
    (hchecks : ownershipChecks env call page ownerId expected db = .ok revision) (hp : db.pages page.id = some stored)
    (hrev : stored.sourceRevision = page.sourceRevision) (haccepted : Accepted env call page revision db) :
    Advances (transferOwnership env call page ownerId expected db) db page.id := by
  have hbase : revision.previousLocation = some page.location ∧
      revision.changes page (db.pageTags page.id) := by
    obtain ⟨hprivate, hfree, rfl⟩ := ownershipChecks_ok hchecks
    refine ⟨rfl, .inl ?_⟩
    intro heq
    obtain ⟨hcols, -⟩ := read_columns hs hread hp hrev
    have howner := congrArg (fun c : PageColumns => c.ownerId) heq
    have hself := occupied_self hs hp
    refine Bool.false_ne_true (hfree.symm.trans ?_)
    rw [← hself]
    congr 1
    simp only [ownedColumns, simpleRevision] at howner
    simp [PageRow.location, ← hcols, hprivate, howner]
  obtain ⟨db', hsave, stored', next, version, h₁, h₂, h₃, h₄, h₅, h₆, h₇, h₈⟩ :=
    (read_advances_iff hs hread hp hrev (.inr hbase.1) haccepted).mpr hbase.2
  have hkeeps := keeps_updateWhere
    (p := fun v : PageVersion => v.pageId = page.id && v.columns.visibility = .private)
    (f := fun v => { v with columns := { v.columns with ownerId := some ownerId } })
    ⟨fun _ => rfl, fun _ => rfl, fun _ => rfl, fun _ => rfl⟩
  refine ⟨{ db' with history := ownVersions page.id ownerId db'.history }, ?_, stored', next, _,
    h₁, h₂, h₃, mem_map.mpr ⟨version, h₄, rfl⟩, ?_, ?_, ?_, h₈⟩
  · simp [transferOwnership, hchecks, hsave, bind, Except.bind, pure, Except.pure]
  · rw [hkeeps.pageId]
    exact h₅
  · rw [hkeeps.sourceRevision]
    exact h₆
  · rw [hkeeps.id, ← h₇]
    unfold ownVersions
    refine Table.map_updateWhere PageVersion.id ?_ db'.history
    exact fun _ => rfl

/-- A writer of its own: the version of the stored page, the next row, and its effects. -/
theorem written_advances (hs : Sound db) (next : PageRow) (hp : db.pages page.id = some page) (hid : next.id = page.id)
    (hlater : page.sourceRevision < next.sourceRevision) (hlocation : next.location = page.location) (action : String)
    (fresh : Fresh) {mid : PageDatabase} (hpages : mid.pages page.id = some next)
    (hhistory : mid.history = db.history ++ [db.version page action]) (houtbox : mid.outbox = db.outbox) :
    Advances (enqueue env (presentEffects next .update none) fresh mid) db page.id := by
  obtain ⟨queued, hqueue, hqpages, hqhistory, hqueued⟩ := enqueue_next env hs
    next (by rw [hid]; exact hp) hlater (by rw [hlocation]; exact hs.located _ _ hp)
    .update (show (none : Option Outbox.PageProjectionLocation).all validLocation = true from rfl)
    fresh mid houtbox
  refine ⟨queued, hqueue, page, next, db.version page action, hp, by rw [hqpages, hpages], hlater,
    ?_, rfl, rfl, ?_, hid ▸ hqueued⟩
  · simp [hqhistory, hhistory]
  · simp [hqhistory, hhistory]

theorem applyTaxonomy_advances (hs : Sound db) {tags : Finset Nat} {extra : JsString → JsString}
    (hp : db.pages page.id = some page) (hallowed : call.allowed = .ok ()) :
    Advances (applyTaxonomy env call page.id tags extra db) db page.id := by
  let next : PageRow := { page with
    columns := { page.columns with authorId := call.user, extra := extra page.columns.extra }
    sourceRevision := page.sourceRevision + 1, changeReason := none, updatedAt := call.now }
  let mid := ((db.addVersion (db.version page "updated")).putTags page.id tags).putPage next
  have hrun : applyTaxonomy env call page.id tags extra db
      = enqueue env (presentEffects next .update none) call.fresh mid := by
    simp [applyTaxonomy, hp, hallowed, bind, Except.bind, next, mid]
  rw [hrun]
  refine written_advances hs next hp rfl (Nat.lt_succ_self _) rfl "updated" call.fresh
    ?_ rfl rfl
  simp [mid, next, PageDatabase.putPage]

variable (env) in
theorem publishPage_advances_iff (hs : Sound db) {actor : Int} (now : Time) (fresh : Fresh)
    (hp : db.pages page.id = some page) : Advances (publishPage env page actor now fresh db) db page.id ↔
    page.columns.isPublished = false ∨ page.columns.authorId ≠ actor := by
  let columns : PageColumns := { page.columns with isPublished := true, authorId := actor }
  have hsame : columns = page.columns ↔
      page.columns.isPublished = true ∧ page.columns.authorId = actor := by
    constructor
    · intro heq
      exact ⟨(congrArg (fun c : PageColumns => c.isPublished) heq).symm,
        (congrArg (fun c : PageColumns => c.authorId) heq).symm⟩
    · rintro ⟨hpublished, hauthor⟩
      simp only [columns, ← hpublished, ← hauthor]
  constructor
  · rintro ⟨db', hrun, stored, next, version, hp', hnext, hlt, -⟩
    obtain ⟨effects, rfl, -⟩ := publishPage_ok hrun
    rw [hp] at hp'
    cases hp'
    obtain rfl : page.patched columns none now = next := by
      simpa [PageDatabase.revised, PageRow.patched] using hnext
    by_contra hneither
    have heq : columns = page.columns := by
      refine hsame.mpr ?_
      simpa using hneither
    simp [PageRow.patched, heq] at hlt
  · intro hchanges
    have hdiffers : columns ≠ page.columns := by
      intro heq
      obtain ⟨hpublished, hauthor⟩ := hsame.mp heq
      rcases hchanges with h | h
      · rw [hpublished] at h
        cases h
      · exact h hauthor
    refine written_advances hs (page.patched columns none now) hp rfl ?_ rfl
      "approval-published" fresh ?_ rfl rfl
    · simp [PageRow.patched, hdiffers]
    · simp [PageDatabase.putPage, PageRow.patched, columns]

/-- Every revision that was ever used for the page, by a row of it or by an effect. -/
def Used (db : PageDatabase) (pageId revision : Nat) : Prop :=
  (∃ row ∈ db.committed, row.id = pageId ∧ row.sourceRevision = revision) ∨
    ∃ effect ∈ db.outbox, effect.pageId = pageId ∧ effect.sourceRevision = revision

theorem used_le (hs : Sound db) {revision : Nat} (hp : db.pages page.id = some stored)
    (hused : Used db page.id revision) : revision ≤ stored.sourceRevision := by
  rcases hused with ⟨row, hrow, hid, rfl⟩ | ⟨effect, heffect, hid, rfl⟩
  · rcases hs.newest row hrow stored (by rw [hid]; exact hp) with h | h <;> omega
  · exact (hs.effects effect heffect).2 stored (by rw [hid]; exact hp)

theorem createPage_advances (hs : Sound db) {opts : CreatePageOptions} {created : PageRow}
    (hchecks : createChecks env call opts db = .ok created) (haccepts : accepts env created opts.tags = true) : ∃ db',
    createPage env call opts db = .ok db' ∧ db'.pages created.id = some created ∧
    (∀ revision, ¬Used db created.id revision) ∧ db'.history = db.history ∧
    Queued db' created.id created.sourceRevision := by
  have hcreated : created.id = db.nextPageId ∧ Outbox.validPageId created.id = true := by
    obtain ⟨path, -, rfl, -, hserial⟩ := createChecks_ok hchecks
    refine ⟨rfl, ?_⟩
    have hle : db.nextPageId ≤ 2147483647 := hserial
    have hbounds : 1 ≤ db.nextPageId ∧ db.nextPageId ≤ 2 ^ 53 - 1 := ⟨hs.serial, by omega⟩
    unfold Outbox.validPageId
    rw [Bool.and_eq_true]
    exact ⟨decide_eq_true hbounds.1, decide_eq_true hbounds.2⟩
  obtain ⟨hid, hvalidId⟩ := hcreated
  have hvalid : validLocation created.location = true := by
    simp only [accepts, Bool.and_eq_true] at haccepts
    exact haccepts.2
  have hunused : ∀ revision, ¬Used db created.id revision := by
    rintro revision (⟨row, hrow, hrowId, -⟩ | ⟨effect, heffect, hpage, -⟩)
    · have := (hs.issued row hrow).1
      omega
    · have := (hs.effects effect heffect).1
      omega
  let mid := ({ db with nextPageId := db.nextPageId + 1 }.putPage created).putTags created.id
    opts.tags
  have hfree : Free (presentEffects created .create none) mid.outbox := by
    intro row hrow hpage
    exact absurd (.inr ⟨row, hrow, hpage, rfl⟩) (hunused row.sourceRevision)
  have hpage : mid.pages created.id = some created := by
    simp [mid, PageDatabase.putPage, PageDatabase.putTags]
  have htags : mid.pageTags created.id = opts.tags := by simp [mid, PageDatabase.putTags]
  have hqueue := enqueue_fresh env (presentEffects created .create none) call.fresh mid hvalidId (by simp [presentEffects])
    (by simp [presentEffects]) rfl ⟨by simpa [presentEffects] using hvalid, rfl⟩ hfree
  let queued : PageDatabase := { mid with
    outbox := mid.outbox ++ Outbox.pageProjectionEffectKinds.map
      (effectOf env (presentEffects created .create none) call.fresh) }
  refine ⟨queued, ?_, hpage, hunused, rfl, queued_of_fresh env mid _ call.fresh hfree⟩
  simp only [createPage, hchecks, bind, Except.bind]
  change enqueueCurrentPageProjections env created.id .create none call.fresh mid = _
  unfold enqueueCurrentPageProjections
  rw [hpage]
  dsimp only
  rw [assertCanonicalPageExportable_of_accepts haccepts htags]
  exact hqueue

theorem deletePage_advances (hs : Sound db) (hread : page ∈ db.committed) {expected : Option Nat}
    (hexpected : expectRevision expected page = .ok ()) (hlock : lockPageForMutation page db = .ok ())
    (hallowed : call.allowed = .ok ()) : ∃ db', deletePage env call page expected db = .ok db' ∧
    db'.pages page.id = none ∧ (∀ revision, Used db page.id revision → revision < page.sourceRevision + 1) ∧
    Queued db' page.id (page.sourceRevision + 1) := by
  obtain ⟨stored, hp, hrev, -⟩ := lockPageForMutation_ok hlock
  obtain ⟨-, hvalid⟩ := read_columns hs hread hp hrev
  have hissued := (hs.issued page hread).2.1
  let version := db.version page "deleted"
  let mid : PageDatabase := { db.addVersion version with
    recovery := db.recovery ++ [⟨page.id, version.id, page.sourceRevision + 1,
      ⟨page.columns.path, page.columns.localeCode, page.columns.visibility, page.columns.ownerId, db.pageTags page.id⟩⟩]
    committed := { page with sourceRevision := page.sourceRevision + 1 } :: db.committed }
  let input : Outbox.EnqueueInput :=
    { pageId := page.id, sourceRevision := page.sourceRevision + 1, desiredState := .absent
      action := .delete, source := none, location := none, previousLocation := some page.location
      effects := none }
  have hfree : Free input mid.outbox :=
    free_of_later hs (show db.pages input.pageId = some stored from hp) (by simp [input, hrev])
  have hqueue := enqueue_fresh env input call.fresh mid
    hissued (by simp [input]) (by simp [input]) rfl ⟨rfl, by simpa [input] using hvalid⟩ hfree
  have hrun : deletePage env call page expected db
      = enqueue env input call.fresh mid >>= fun queued => .ok (queued.deletePage page.id) := by
    unfold deletePage
    rw [hexpected, hlock, hallowed]
    rfl
  rw [hrun, hqueue]
  refine ⟨_, rfl, ?_, ?_, queued_of_fresh env mid _ call.fresh hfree⟩
  · simp [PageDatabase.deletePage]
  · intro revision hused
    have := used_le hs hp hused
    omega

theorem restoreDeletedPage_advances (hs : Sound db) {opts : RestoreOptions}
    (h : restoreDeletedPage env call opts db = .ok db') :
    ∃ page, db'.pages opts.pageId = some page ∧
      (∀ revision, Used db opts.pageId revision → revision < page.sourceRevision) ∧
      (∃ version, db'.history = db.history ++ [version] ∧ version.pageId = opts.pageId ∧
        version.sourceRevision = page.sourceRevision) ∧
      Queued db' opts.pageId page.sourceRevision := by
  obtain ⟨next, hrestored⟩ := restoreDeletedPage_ok h
  obtain ⟨mid, version, hqueue, houtbox, hhistory, hpageId, hrevision⟩ := hrestored.kept
  obtain ⟨-, -, -, -, hvalid, hid⟩ := enqueue_ok rfl hqueue
  have hfree : Free (presentEffects next .restore none) mid.outbox := by
    intro row hrow hpage
    rw [houtbox] at hrow
    exact (hrestored.fence row hrow (hpage.trans hrestored.id)).ne
  rw [enqueue_fresh env _ call.fresh mid hid (by simp [presentEffects]) (by simp [presentEffects])
    rfl ⟨hvalid, rfl⟩ hfree] at hqueue
  cases hqueue
  refine ⟨next, hrestored.present, ?_, ⟨version, hhistory, hpageId.trans hrestored.id, hrevision⟩,
    hrestored.id ▸ queued_of_fresh env mid _ call.fresh hfree⟩
  rintro revision (⟨row, hrow, hid, rfl⟩ | ⟨effect, heffect, hpage, rfl⟩)
  · obtain ⟨effect, heffect, hpage, hle⟩ := hs.buried row hrow (by rw [hid]; exact hrestored.absent)
    have := hrestored.fence effect heffect (hpage.trans hid)
    omega
  · exact hrestored.fence effect heffect hpage

/-! ## Publication -/

/-- The checks of `transitionApproval` for a publication of this request. -/
structure Publishable (requester : Requester) (input : TransitionInput) (s : System) (actor : Int)
    (request : ApprovalRequest) (page : PageRow) : Prop where
  action : input.action = .publish
  authenticated : requester.actorId = .ok actor
  found : Table.get ApprovalRequest.id s.requests input.requestId = some request
  present : s.db.pages request.pageId = some page
  readable : requester.canRead page (s.db.pageTags page.id) = true
  unlocked : requester.requiresUnlock page.id = false
  approved : request.status = .approved
  reviewer : isReviewer requester actor request page (s.db.pageTags page.id) = true
  current : staleRevision request page = false

/-- Once its checks pass, the transition is the publication of the page. -/
theorem transitionApproval_publish {requester : Requester} {input : TransitionInput} {s : System}
    {actor : Int} {request : ApprovalRequest} {now : Time} {fresh : Fresh}
    (h : Publishable requester input s actor request page) :
    transitionApproval env requester input now fresh s =
      (publishPage env page actor now fresh s.db).map fun db => { s with
        db
        requests := Table.replace ApprovalRequest.id
          (stamped { request with status := .published } now) s.requests
        transitions := s.transitions ++ [⟨request.id, some .approved, .published, actor,
          request.revisionId, storedComment input.comment, now⟩] } := by
  have hview : canViewRequest requester actor request page (s.db.pageTags page.id) = true := by
    have heligible : reviewerEligible requester page (s.db.pageTags page.id) = true := by
      have := h.reviewer
      simp only [isReviewer, Bool.and_eq_true] at this
      exact this.1
    simp [canViewRequest, h.readable, heligible]
  unfold transitionApproval
  simp only [h.action, h.authenticated, resubmittedRevision, h.found, h.present, hview, h.unlocked, bind, Except.bind]
  simp only [reduceCtorEq, decide_false, Bool.or_self, Bool.false_and, Bool.false_eq_true,
    if_false, Bool.not_true, transitionAction, h.action, h.approved, h.reviewer, h.current,
    ne_eq, not_true_eq_false, bind, Except.bind, pure, Except.pure]
  cases publishPage env page actor now fresh s.db <;> simp [Except.map, stamped]

/-! ## The main result -/

/-- **Every operation on a page advances it.** Once its checks pass, it commits with the page at
a later revision, one version that carries the earlier one, and the effects of the later one
waiting: an update exactly where it changes a compared column or the tags, and a publication
exactly where the page was not published or had another author. -/
structure OperationsAdvance (env : Environment) (s : System) : Prop where
  create : ∀ call opts created, createChecks env call opts s.db = .ok created →
    accepts env created opts.tags = true →
      ∃ db, createPage env call opts s.db = .ok db ∧ db.pages created.id = some created ∧
        (∀ revision, ¬Used s.db created.id revision) ∧ db.history = s.db.history ∧
        Queued db created.id created.sourceRevision
  update : ∀ call page opts revision, page ∈ s.db.committed →
    updateChecks env call page opts s.db = .ok (some revision) →
    Accepted env call page revision s.db →
      (Advances (updatePage env call page opts s.db) s.db page.id ↔ revision.changes page (s.db.pageTags page.id))
  changeVisibility : ∀ call page visibility expected revision, page ∈ s.db.committed →
    visibilityChecks env call page visibility expected s.db = .ok (some revision) →
    Accepted env call page revision s.db →
      Advances (changeVisibility env call page visibility expected s.db) s.db page.id
  transferOwnership : ∀ call page ownerId expected revision stored, page ∈ s.db.committed →
    ownershipChecks env call page ownerId expected s.db = .ok revision →
    s.db.pages page.id = some stored → stored.sourceRevision = page.sourceRevision →
    Accepted env call page revision s.db → Advances (transferOwnership env call page ownerId expected s.db) s.db page.id
  convert : ∀ call page opts revision, page ∈ s.db.committed →
    convertChecks env call page opts s.db = .ok revision → Accepted env call page revision s.db →
      Advances (convertPage env call page opts s.db) s.db page.id
  move : ∀ call page opts revision, page ∈ s.db.committed →
    moveChecks env call page opts s.db = .ok revision → Accepted env call page revision s.db →
      Advances (movePage env call page opts s.db) s.db page.id
  applyTaxonomy : ∀ call page tags extra, s.db.pages page.id = some page →
    call.allowed = .ok () → Advances (applyTaxonomy env call page.id tags extra s.db) s.db page.id
  publish : ∀ requester input now fresh actor request page,
    Publishable requester input s actor request page →
      ((∃ s', transitionApproval env requester input now fresh s = .ok s' ∧
          Advanced s.db s'.db page.id) ↔
        page.columns.isPublished = false ∨ page.columns.authorId ≠ actor)
  delete : ∀ call page expected, page ∈ s.db.committed → expectRevision expected page = .ok () →
    lockPageForMutation page s.db = .ok () → call.allowed = .ok () →
      ∃ db, deletePage env call page expected s.db = .ok db ∧ db.pages page.id = none ∧
        (∀ revision, Used s.db page.id revision → revision < page.sourceRevision + 1) ∧
        Queued db page.id (page.sourceRevision + 1)
  restore : ∀ call opts db, restoreDeletedPage env call opts s.db = .ok db →
    ∃ page, db.pages opts.pageId = some page ∧
      (∀ revision, Used s.db opts.pageId revision → revision < page.sourceRevision) ∧
      (∃ version, db.history = s.db.history ++ [version] ∧ version.pageId = opts.pageId ∧
        version.sourceRevision = page.sourceRevision) ∧ Queued db opts.pageId page.sourceRevision
  throws : ∀ op e, op.run env s = .error e → exec env op s = s

def exampleEnvironment : Environment where
  outbox := ⟨fun text => text, fun _ => some 0, fun _ => [], fun _ => none⟩
  generateHash path _ _ _ := path
  exportable _ _ := true
  editorContentType _ := some (js "markdown")
  recoveredExtra extra := extra

def exampleFresh (n : Nat) : Fresh where
  id kind := match kind with
    | .render => [n.toUInt16, 0]
    | .links => [n.toUInt16, 1]
    | .search => [n.toUInt16, 2]
    | .knowledge => [n.toUInt16, 3]
  now := n

/-- User 7 at this time. -/
def exampleCall (now : Nat) : Call := ⟨7, now, exampleFresh now, .ok ()⟩

def exampleCreation : CreatePageOptions where
  path := js "home"
  title := js "Home"
  description := []
  visibility := .public
  isPublished := true
  isSearchable := true
  publishStartDate := []
  publishEndDate := []
  content := js "text"
  editor := js "markdown"
  locale := js "en"
  extra := []
  tags := {3}
  changeReason := none

/-- An update that names the publication the page already has. -/
def exampleUpdate (isPublished : Bool) : UpdatePageOptions where
  content := none
  title := none
  description := none
  isPublished := some isPublished
  isSearchable := none
  publishStartDate := none
  publishEndDate := none
  editor := none
  contentType := none
  action := none
  locale := none
  path := none
  tags := none
  changeReason := none
  expectedUpdatedAt := none
  expectedSourceRevision := none
  okf := ⟨false, false, false, false, false, false, false, false⟩
  extra extra := extra

/-- The database with one published page of user 7. -/
def exampleSystem : System :=
  (workflow exampleEnvironment).after [.page (.create (exampleCall 1) exampleCreation)] .empty

theorem exampleSystem_reachable : (workflow exampleEnvironment).Reachable .empty exampleSystem := by
  refine ⟨[.page (.create (exampleCall 1) exampleCreation)], ⟨⟨?_, ?_⟩, trivial⟩, rfl⟩
  · intro page h
    cases h
  · intro rows h
    cases h

def examplePage : PageRow :=
  createdPage exampleEnvironment (exampleCall 1) exampleCreation (js "home") 1

end TsEpistle.Pages
