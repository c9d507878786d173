import TsEpistle.Pages.Workflow

/-! What a page has shown stays: it is shown still, or a version keeps it. -/

namespace TsEpistle.Pages
open Library Checked List Function
open Outbox (Fresh OutboxError)

variable {env : Environment} {call : Call} {db db' : PageDatabase} {page stored : PageRow}
  {pageId revision : Nat} {content : Reviewed} {s s' : System}
  {now : Time} {target : Option Nat}

/-- The page shows the content at the revision, or a version has kept it. -/
def PageDatabase.Holds (db : PageDatabase) (pageId revision : Nat) (content : Reviewed) : Prop :=
  (∃ page, db.pages pageId = some page ∧ page.sourceRevision = revision ∧ db.reviewed page = content) ∨
    ∃ v ∈ db.history, v.pageId = pageId ∧ v.sourceRevision = revision ∧ v.reviewed = content

theorem Step.versions (h : Step now target db db') : ∃ f, Keeps f ∧ ∀ v ∈ db.history, f v ∈ db'.history := by
  cases h with
  | revised _ _ _ _ f _ _ _ _ _ keeps => exact ⟨f, keeps, fun v hv => mem_map_of_mem (mem_append_left _ hv)⟩
  | deleted | restored | archived => exact ⟨id, keeps_id, fun v hv => mem_append_left _ hv⟩
  | idle | created | workers => exact ⟨id, keeps_id, fun v hv => hv⟩

namespace PageDatabase.Holds

/-- **Retention rule.** Versions stay, and what no longer stands is in one of them. -/
theorem carry (h : db.Holds pageId revision content) (hs : Sound db) {f : PageVersion → PageVersion} (keeps : Keeps f)
    (versions : ∀ v ∈ db.history, f v ∈ db'.history)
    (rows : ∀ page, db.pages pageId = some page →
      (db'.pages pageId = some page ∧ db'.pageTags pageId = db.pageTags pageId) ∨
        ∃ v ∈ db'.history, v.pageId = pageId ∧ v.sourceRevision = page.sourceRevision ∧ v.reviewed = db.reviewed page) :
    db'.Holds pageId revision content := by
  rcases h with ⟨page, hpage, rfl, rfl⟩ | ⟨v, hv, hid, hrevision, hreviewed⟩
  · rcases rows page hpage with ⟨hstands, htags⟩ | hkept
    · refine .inl ⟨page, hstands, rfl, ?_⟩
      rw [PageDatabase.reviewed, PageDatabase.reviewed, hs.ids _ _ hpage, htags]
    · exact .inr hkept
  · exact .inr ⟨f v, versions v hv, (keeps.pageId v).trans hid, (keeps.sourceRevision v).trans hrevision,
      (keeps.reviewed v).trans hreviewed⟩

/-- The version of a row with the columns of the present one. -/
theorem version_of_read (db : PageDatabase) (hid : page.id = stored.id) (hcolumns : page.columns = stored.columns)
    (action : String) :
    (db.version page action).pageId = stored.id ∧ (db.version page action).reviewed = db.reviewed stored := by
  refine ⟨hid, ?_⟩
  simp only [PageDatabase.reviewed, PageVersion.reviewed, PageDatabase.version, hid, hcolumns]

theorem revised (h : db.Holds pageId revision content) (hs : Sound db) (hp : db.pages stored.id = some stored)
    (hid : page.id = stored.id) (hcolumns : page.columns = stored.columns)
    (hrevision : page.sourceRevision = stored.sourceRevision) (next : PageRow) (hnext : next.id = stored.id)
    (tags : Finset Nat) (action : String) {f : PageVersion → PageVersion} (keeps : Keeps f)
    (effects : List Outbox.PageMutationOutboxRow) :
    (db.revised next tags (db.version page action) f effects).Holds pageId revision content := by
  refine h.carry hs keeps (fun v hv => mem_map_of_mem (mem_append_left _ hv)) fun row hrow => ?_
  by_cases hpage : pageId = stored.id
  · subst hpage
    obtain rfl := Option.some.inj (hp.symm.trans hrow)
    obtain ⟨hpageId, hreviewed⟩ := version_of_read db hid hcolumns action
    exact .inr ⟨f (db.version page action), mem_map_of_mem (mem_append_right _ (mem_singleton_self _)),
      (keeps.pageId _).trans hpageId, (keeps.sourceRevision _).trans hrevision, (keeps.reviewed _).trans hreviewed⟩
  · have hne : pageId ≠ next.id := hnext ▸ hpage
    exact .inl ⟨(update_of_ne hne ..).trans hrow, update_of_ne hne ..⟩

/-- The common path, after which versions may be rewritten. -/
theorem saved (h : db.Holds pageId revision content) (hs : Sound db) (hread : page ∈ db.committed) {rev : Revision}
    {fresh : Fresh} (hsave : saveCanonicalPageRevision env page rev now fresh db = .ok db')
    {f : PageVersion → PageVersion} (keeps : Keeps f) :
    ({ db' with history := db'.history.map f }).Holds pageId revision content := by
  obtain ⟨stored, effects, hp, hid, hrevision, rfl, -⟩ := saveCanonicalPageRevision_ok hs hsave
  have hcolumns := (read_columns hs hread hp hrevision).1
  have hrevised := h.revised hs (hid ▸ hp) hid.symm hcolumns hrevision.symm
    (rev.row stored (db.pageTags page.id) now) (Revision.row_id ..) (rev.tags.getD (db.pageTags page.id))
    rev.historyAction keeps effects
  simpa [PageDatabase.revised] using hrevised

theorem saved_plain (h : db.Holds pageId revision content) (hs : Sound db) (hread : page ∈ db.committed)
    {rev : Revision} {fresh : Fresh}
    (hsave : saveCanonicalPageRevision env page rev now fresh db = .ok db') : db'.Holds pageId revision content := by
  have hsaved := h.saved hs hread hsave keeps_id
  rwa [map_id] at hsaved

/-- Another page, or none, is written. -/
theorem elsewhere (h : db.Holds pageId revision content) (hs : Sound db) (hstep : Step now target db db')
    (rows : ∀ page, db.pages pageId = some page →
      db'.pages pageId = some page ∧ db'.pageTags pageId = db.pageTags pageId) :
    db'.Holds pageId revision content := by
  obtain ⟨f, keeps, hversions⟩ := hstep.versions
  exact h.carry hs keeps hversions fun page hpage => .inl (rows page hpage)

theorem deleted (h : db.Holds pageId revision content) (hs : Sound db) (hread : page ∈ db.committed)
    {expected : Option Nat} (hdelete : Pages.deletePage env call page expected db = .ok db') :
    db'.Holds pageId revision content := by
  obtain ⟨-, -, hdelete⟩ := bind_ok hdelete
  obtain ⟨_, hlock, hdelete⟩ := bind_ok hdelete
  obtain ⟨-, -, hdelete⟩ := bind_ok hdelete
  obtain ⟨stored, hp, hrevision, -⟩ := lockPageForMutation_ok hlock
  obtain ⟨queued, hqueue, hdelete⟩ := bind_ok hdelete
  obtain ⟨effects, rfl, -⟩ := enqueue_ok rfl hqueue
  obtain rfl := Except.ok.inj hdelete
  have hid := hs.ids _ _ hp
  have hcolumns := (read_columns hs hread hp hrevision).1
  refine h.carry hs keeps_id (fun v hv => mem_append_left _ hv) fun row hrow => ?_
  by_cases hpage : pageId = page.id
  · subst hpage
    obtain rfl := Option.some.inj (hp.symm.trans hrow)
    obtain ⟨hpageId, hreviewed⟩ := version_of_read db hid.symm hcolumns "deleted"
    exact .inr ⟨db.version page "deleted", mem_append_right _ (mem_singleton_self _), rfl, hrevision.symm, hreviewed⟩
  · exact .inl ⟨(update_of_ne hpage ..).trans hrow, update_of_ne hpage ..⟩

theorem run (h : db.Holds pageId revision content) (hs : Sound db) {op : PageOp} (hop : op.enabled db)
    (hrun : op.run env db = .ok db') : db'.Holds pageId revision content := by
  have hread : ∀ page, op.read = some page → page ∈ db.committed := hop.1
  have hstep := PageOp.run_step hs hop hrun
  cases op with
  | create call opts =>
    obtain ⟨created, hchecks, hcreate⟩ := bind_ok hrun
    have hid : created.id = db.nextPageId := by
      obtain ⟨path, -, hchecks⟩ := bind_ok hchecks
      obtain ⟨-, hchecks⟩ := guard_ok hchecks
      obtain ⟨-, -, hchecks⟩ := bind_ok hchecks
      obtain ⟨-, hchecks⟩ := guard_ok hchecks
      obtain ⟨-, hchecks⟩ := guard_ok hchecks
      exact Except.ok.inj hchecks ▸ rfl
    obtain ⟨next, effects, hnext, rfl, -⟩ := enqueueCurrentPageProjections_ok hcreate
    refine h.elsewhere hs hstep fun page hpage => ?_
    have hne : pageId ≠ created.id := by
      rintro rfl
      rw [hs.absent (Nat.le_of_eq hid.symm)] at hpage
      cases hpage
    exact ⟨(update_of_ne hne ..).trans hpage, update_of_ne hne ..⟩
  | update call page opts | changeVisibility call page visibility expected =>
    obtain ⟨checked, -, hrun⟩ := bind_ok hrun
    cases checked with
    | none => exact Except.ok.inj hrun ▸ h
    | some revision => exact h.saved_plain hs (hread page rfl) hrun
  | transferOwnership call page ownerId expected =>
    obtain ⟨rev, -, hrun⟩ := bind_ok hrun
    obtain ⟨mid, hmid, hrun⟩ := bind_ok hrun
    obtain rfl := Except.ok.inj hrun
    exact h.saved hs (hread page rfl) hmid
      (keeps_updateWhere ⟨fun _ => rfl, fun _ => rfl, fun _ => rfl, fun _ => rfl⟩)
  | convert call page opts | move call page opts =>
    obtain ⟨rev, -, hrun⟩ := bind_ok hrun
    exact h.saved_plain hs (hread page rfl) hrun
  | migrate call id targetLocale =>
    simp only [PageOp.run, migratePage] at hrun
    cases hp : db.pages id with
    | none => simp [hp] at hrun
    | some page =>
      rw [hp] at hrun
      obtain ⟨-, -, hrun⟩ := bind_ok hrun
      obtain ⟨mid, hmid, hrun⟩ := bind_ok hrun
      obtain rfl := Except.ok.inj hrun
      exact h.saved hs (hs.stored _ _ hp) hmid
        (keeps_updateWhere ⟨fun _ => rfl, fun _ => rfl, fun _ => rfl, fun _ => rfl⟩)
  | applyTaxonomy call id tags extra =>
    simp only [PageOp.run, applyTaxonomy] at hrun
    cases hp : db.pages id with
    | none => simp [hp] at hrun
    | some page =>
      obtain rfl := hs.ids _ _ hp
      rw [hp] at hrun
      obtain ⟨-, -, hrun⟩ := bind_ok hrun
      obtain ⟨effects, rfl, -⟩ := enqueue_ok rfl hrun
      have hrevised := h.revised hs hp rfl rfl rfl { page with
        columns := { page.columns with authorId := call.user, extra := extra page.columns.extra }
        sourceRevision := page.sourceRevision + 1, changeReason := none, updatedAt := call.now } rfl tags "updated"
        keeps_id effects
      simpa [PageDatabase.revised, PageDatabase.putPage, PageDatabase.putTags, PageDatabase.addVersion] using hrevised
  | reassignAccount id account replaceId =>
    simp only [PageOp.run, reassignAccount] at hrun
    cases hp : db.pages id with
    | none => simp [hp] at hrun
    | some page =>
      obtain rfl := hs.ids _ _ hp
      rw [hp] at hrun
      obtain rfl := Except.ok.inj hrun
      have hrevised := h.revised hs hp rfl rfl rfl (page.patched { page.columns with
        authorId := if page.columns.authorId = account then replaceId else page.columns.authorId
        creatorId := if page.columns.creatorId = account then replaceId else page.columns.creatorId }
        none page.updatedAt) rfl (db.pageTags page.id) "updated" keeps_id []
      simpa [PageDatabase.revised, PageDatabase.putPage, PageDatabase.addVersion, PageRow.patched] using hrevised
  | delete call page expected => exact h.deleted hs (hread page rfl) hrun
  | restore call opts =>
    obtain ⟨next, hrestored⟩ := restoreDeletedPage_ok hrun
    have hne : ∀ page, db.pages pageId = some page → pageId ≠ opts.pageId := by
      rintro page hpage rfl
      rw [hrestored.absent] at hpage
      cases hpage
    exact h.elsewhere hs hstep fun page hpage =>
      ⟨(hrestored.others _ (hne page hpage)).1.trans hpage, (hrestored.others _ (hne page hpage)).2⟩
  | outbox rows =>
    obtain rfl := Except.ok.inj hrun
    exact h

theorem exec (h : s.db.Holds pageId revision content) (hs : Sound s.db) {op : Op} (hop : op.enabled s) :
    (exec env op s).db.Holds pageId revision content := by
  unfold Pages.exec
  cases hrun : op.run env s with
  | error e => exact h
  | ok s' =>
    obtain ⟨now, target, hstep⟩ := Op.run_step hs hop hrun
    cases op with
    | page op =>
      obtain ⟨db, hdb, rfl⟩ := map_ok hrun
      exact h.run hs hop hdb
    | submit requester input id now =>
      obtain ⟨submitterId, page, hsubmitted⟩ := submitPageApproval_ok hrun
      dsimp only
      refine h.elsewhere hs hstep fun page hpage => ?_
      rw [hsubmitted.db]
      exact ⟨hpage, rfl⟩
    | transition requester input now fresh =>
      obtain ⟨actor, expected, request, next, page, htransitioned⟩ := transitionApproval_ok hrun
      have hp := htransitioned.present
      have hid := hs.ids _ _ hp
      dsimp only
      have hacts := transitionAction_acts htransitioned.action
      generalize input.action = action at hacts
      generalize s'.db = after at hacts hstep ⊢
      cases hacts with
      | resubmit => exact h.elsewhere hs hstep fun page hpage => ⟨hpage, rfl⟩
      | publish _ _ _ db' hpublish =>
        obtain ⟨effects, hdb, -⟩ := publishPage_ok hpublish
        rw [hdb]
        have hpresent : s.db.pages page.id = some page := by rw [hid]; exact hp
        exact h.revised hs hpresent rfl rfl rfl (page.patched _ none now) rfl _ _ keeps_id effects
      | approve | requestChanges | reject | cancel | reassign => exact h

end PageDatabase.Holds

theorem Step.committed (h : Step now target db db') (hpage : page ∈ db.committed) : page ∈ db'.committed := by
  cases h with
  | idle | archived | workers => exact hpage
  | revised | created | deleted | restored => exact mem_cons_of_mem _ hpage

/-- What every operation keeps from a reachable state on. -/
theorem Reachable.kept (h : (workflow env).Reachable .empty s) (hrun : (workflow env).Reachable s s')
    {J : System → Prop} (hJ : J s) (hstep : ∀ op s, Op.enabled s op → Sound s.db → J s → J (exec env op s)) : J s' := by
  refine hrun.invariant_under (I := (workflow env).Reachable .empty) h ?_ hJ ?_
  · intro op s hop hs
    exact hs.step hop
  · intro op s hop hs hheld
    exact hstep op s hop (Reachable.sound hs) hheld

theorem page_content_retained (h : (workflow env).Reachable .empty s) (hrun : (workflow env).Reachable s s')
    (hholds : s.db.Holds pageId revision content) : s'.db.Holds pageId revision content := by
  exact Reachable.kept h hrun (J := fun s => s.db.Holds pageId revision content) hholds
    fun op s hop hs hheld => hheld.exec hs hop

/-- The database after the page of the example is deleted. -/
def exampleDeleted : System :=
  (workflow exampleEnvironment).after [.page (.delete (exampleCall 2) examplePage none)] exampleSystem

theorem page_content_retained_example : exampleDeleted.db.pages 1 = none ∧
    exampleDeleted.db.Holds 1 1 ⟨js "text", js "Home", [], js "home", [], {3}⟩ := by
  refine ⟨by decide, page_content_retained exampleSystem_reachable
    ⟨[.page (.delete (exampleCall 2) examplePage none)], ⟨⟨?_, ?_⟩, trivial⟩, rfl⟩ (.inl ⟨examplePage, ?_⟩)⟩
  · intro page hpage
    obtain rfl : examplePage = page := Option.some.inj hpage
    exact mem_cons_self
  · intro rows hrows
    cases hrows
  · decide

theorem revision_names_columns (h : (workflow env).Reachable .empty s) (hrun : (workflow env).Reachable s s')
    {page' : PageRow} (hp : s.db.pages page.id = some page)
    (hp' : s'.db.pages page.id = some page') : page.sourceRevision < page'.sourceRevision ∨
      page.sourceRevision = page'.sourceRevision ∧ page.columns = page'.columns := by
  have hread : page ∈ s'.db.committed := by
    refine Reachable.kept h hrun (J := fun s => page ∈ s.db.committed) ((Reachable.sound h).stored _ _ hp) ?_
    intro op s hop hs hread
    unfold exec
    cases hrun : op.run env s with
    | error e => exact hread
    | ok s' =>
      obtain ⟨now, target, hstep⟩ := Op.run_step hs hop hrun
      exact hstep.committed hread
  exact (Reachable.sound (h.trans hrun)).newest page hread page' hp'

/-- The page of the example with another author and creator. -/
def exampleReassigned : PageRow :=
  examplePage.patched { examplePage.columns with authorId := 8, creatorId := 8 } none 1

theorem revision_names_columns_example : examplePage.sourceRevision < exampleReassigned.sourceRevision ∨
    examplePage.sourceRevision = exampleReassigned.sourceRevision ∧
      examplePage.columns = exampleReassigned.columns := by
  refine revision_names_columns exampleSystem_reachable
    ⟨[.page (.reassignAccount 1 7 8)], ⟨⟨?_, ?_⟩, trivial⟩, rfl⟩ rfl rfl
  · intro page hpage
    cases hpage
  · intro rows hrows
    cases hrows

end TsEpistle.Pages
