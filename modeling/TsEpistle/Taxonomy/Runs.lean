import TsEpistle.Taxonomy.Changes

/-! Taxonomy changes that are applied one after another. -/

namespace TsEpistle.Taxonomy
open Library Checked List Option

/-! ## Written rows -/

def writeRow (before : List TagRow) (row tag : TagRow) : TagRow :=
  match before.find? (·.id = tag.id) with
  | none => row
  | some previous =>
    if previous.redirectToId = tag.redirectToId && previous.isArchived = tag.isArchived
        && previous.title = tag.title then row
    else if row.id = tag.id then
      { row with redirectToId := tag.redirectToId, isArchived := tag.isArchived, title := tag.title }
    else row

theorem writeTag_eq (before rows : List TagRow) (tag : TagRow) :
    writeTag before rows tag = rows.map fun row => writeRow before row tag := by
  unfold writeTag writeRow
  cases before.find? (·.id = tag.id) with
  | none => simp
  | some previous =>
    dsimp only
    split <;> simp

theorem foldl_writeTag (before : List TagRow) (after rows : List TagRow) :
    after.foldl (writeTag before) rows = rows.map fun row => after.foldl (writeRow before) row := by
  induction after generalizing rows with
  | nil => simp
  | cons tag after ih =>
    rw [foldl_cons, ih, writeTag_eq, List.map_map]
    rfl

theorem writeRow_other {before : List TagRow} {row tag : TagRow} (h : tag.id ≠ row.id) :
    writeRow before row tag = row := by
  unfold writeRow
  split
  · rfl
  · rw [if_neg (Ne.symm h)]
    exact ite_self row

theorem foldl_writeRow_other {before after : List TagRow} {row : TagRow}
    (h : ∀ tag ∈ after, tag.id ≠ row.id) : after.foldl (writeRow before) row = row := by
  induction after with
  | nil => rfl
  | cons tag after ih =>
    rw [forall_mem_cons] at h
    rw [foldl_cons, writeRow_other h.1, ih h.2]

/-- A row that is new is not written again. -/
theorem foldl_writeRow_new {before : List TagRow} {row : TagRow} (h : ∀ tag ∈ before, tag.id ≠ row.id)
    (after : List TagRow) : after.foldl (writeRow before) row = row := by
  induction after with
  | nil => rfl
  | cons tag after ih =>
    have hrow : writeRow before row tag = row := by
      by_cases hid : tag.id = row.id
      · have hnone : before.find? (·.id = tag.id) = none := by
          rw [find?_eq_none]
          intro other hother
          simpa [hid] using h other hother
        unfold writeRow
        rw [hnone]
      · exact writeRow_other hid
    rw [foldl_cons, hrow, ih]

/-- A row becomes the one that was planned for its id. -/
theorem foldl_writeRow {before after : List TagRow} {row planned : TagRow}
    (hbefore : before.find? (·.id = row.id) = some row) (hafter : (after.map (·.id)).Nodup) (hplanned : planned ∈ after)
    (hid : planned.id = row.id) (hname : planned.tag = row.tag) : after.foldl (writeRow before) row = planned := by
  induction after with
  | nil => cases hplanned
  | cons tag after ih =>
    rw [map_cons, nodup_cons] at hafter
    rw [foldl_cons]
    rcases mem_cons.mp hplanned with rfl | hplanned
    · have hrow : writeRow before row planned = planned := by
        unfold writeRow
        rw [hid, hbefore]
        dsimp only
        cases row
        cases planned
        simp only at hid hname
        subst hid hname
        split
        next hsame =>
          simp only [Bool.and_eq_true, decide_eq_true_eq] at hsame
          simp [hsame]
        · simp
      rw [hrow]
      refine foldl_writeRow_other fun other hother hother' => ?_
      exact hafter.1 (List.mem_map.mpr ⟨other, hother, hother'⟩)
    · have hother : tag.id ≠ row.id := by
        intro hsame
        exact hafter.1 (List.mem_map.mpr ⟨planned, hplanned, hid.trans hsame.symm⟩)
      rw [writeRow_other hother]
      exact ih hafter.2 hplanned

theorem foldl_writePageTags {after pageTags : List TagAssignment} {pageIds : List Int}
    {assignment : TagAssignment} :
    assignment ∈ pageIds.foldl (writePageTags after) pageTags
      ↔ if assignment.pageId ∈ pageIds then assignment ∈ after else assignment ∈ pageTags := by
  induction pageIds generalizing pageTags with
  | nil => simp
  | cons pageId pageIds ih =>
    rw [foldl_cons, ih]
    by_cases hrest : assignment.pageId ∈ pageIds
    · simp [hrest]
    · by_cases hpage : assignment.pageId = pageId <;> simp [hrest, hpage, writePageTags]

/-! ## Stores -/

/-- Well-formed tables: ids count from 1 and assignments are of pages that are there. -/
structure Store.WellFormed (store : Store) : Prop where
  tags : Taxonomy.WellFormed store.tags store.pageTags
  ids : ∀ tag ∈ store.tags, 1 ≤ tag.id
  pages : ∀ assignment ∈ store.pageTags, ∃ page ∈ store.pages, page.id = assignment.pageId

variable {toLowerCase : JsString → JsString} {store : Store} {input : TaxonomyChange}

theorem Store.WellFormed.pending (h : store.WellFormed) : ∀ tag ∈ store.tags, tag.id ≠ pendingId := by
  intro tag htag hid
  have := h.ids tag htag
  rw [hid] at this
  exact absurd this (by decide)

/-- A page keeps an assignment or takes one over from the source. -/
theorem Outcome.assignments {snapshot after : TaxonomySnapshot} {source : TagRow}
    {change : TaxonomyChange} {destination : Option TagRow}
    (houtcome : Outcome snapshot source change after destination) {assignment : TagAssignment}
    (h : assignment ∈ after.assignments) : assignment ∈ snapshot.assignments ∨
      (⟨assignment.pageId, source.id⟩ ∈ snapshot.assignments ∧
        ∃ row, destination = some row ∧ row.id = assignment.tagId) := by
  cases houtcome with
  | retitled | aliasArchived | restored => exact .inl h
  | archived => exact .inl (mem_filter.mp h).1
  | renamed | merged =>
    rcases mem_moveAssignments.mp h with ⟨-, hmem⟩ | ⟨hid, hmem⟩
    · exact .inl hmem
    · exact .inr ⟨hmem, _, rfl, hid.symm⟩

theorem mem_pageAssignments {assignments : List TagAssignment} {pageId tagId : Int} :
    tagId ∈ pageAssignments assignments pageId ↔ ⟨pageId, tagId⟩ ∈ assignments := by
  unfold pageAssignments
  rw [mem_insertionSort, List.mem_map]
  constructor
  · rintro ⟨assignment, hassignment, rfl⟩
    obtain ⟨hmem, hpage⟩ := mem_filter.mp hassignment
    rw [← of_decide_eq_true hpage]
    exact hmem
  · intro hassignment
    exact ⟨_, mem_filter.mpr ⟨hassignment, by simp⟩, rfl⟩

/-- The tables hold what was planned, with the id of the new row. -/
structure Written (store : Store) (plan : TaxonomyPlan) (fresh : Int) (store' : Store) : Prop where
  tags : store'.tags.Perm (plan.after.substitute fresh).tags
  pageTags : ∀ assignment, assignment ∈ store'.pageTags ↔ assignment ∈ (plan.after.substitute fresh).assignments
  pages : store'.pages = store.pages
  groups : store'.groups = store.groups

theorem written_tags {snapshot after : TaxonomySnapshot} {fresh : Int} {f : TagRow → TagRow}
    {added : Option TagRow} (h : WellFormed snapshot.tags snapshot.assignments)
    (hafter : WellFormed (after.substitute fresh).tags (after.substitute fresh).assignments)
    (hfresh : ∀ tag ∈ snapshot.tags, tag.id ≠ fresh)
    (hpending : ∀ tag ∈ snapshot.tags, tag.id ≠ pendingId)
    (hf : ∀ tag, (f tag).id = tag.id ∧ (f tag).tag = tag.tag)
    (hrows : after.tags = snapshot.tags.map f ++ (added.filter (·.id = pendingId)).toList)
    (hadded : ∀ row, added = some row → row.id = pendingId → Canonical row) :
    ((after.substitute fresh).tags.foldl (writeTag snapshot.tags) (snapshot.tags
        ++ ((added.filter (·.id = pendingId)).map fun row =>
          (⟨fresh, row.tag, row.title, none, false⟩ : TagRow)).toList))
      = (after.substitute fresh).tags := by
  have hsubstitute : (after.substitute fresh).tags
      = (snapshot.tags.map fun tag =>
          { f tag with id := tag.id, redirectToId := (f tag).redirectToId.map (freshId fresh) })
        ++ ((added.filter (·.id = pendingId)).map fun row =>
          (⟨fresh, row.tag, row.title, none, false⟩ : TagRow)).toList := by
    have hkeep : ∀ tag ∈ snapshot.tags, freshId fresh (f tag).id = tag.id := by
      intro tag htag
      rw [(hf tag).1, freshId, if_neg (hpending tag htag)]
    rw [TaxonomySnapshot.substitute]
    dsimp only
    rw [hrows, map_append, List.map_map]
    congr 1
    · refine map_congr_left fun tag htag => ?_
      simp [hkeep tag htag]
    · cases added with
      | none => rfl
      | some row =>
        by_cases hid : row.id = pendingId
        · obtain ⟨hlast, hactive⟩ := hadded row rfl hid
          simp [filter_some, hid, freshId, hlast, hactive]
        · simp [filter_some, hid]
  rw [foldl_writeTag]
  conv_rhs => rw [hsubstitute]
  rw [map_append]
  congr 1
  · refine map_congr_left fun tag htag => ?_
    refine foldl_writeRow (h.find_eq htag) hafter.ids ?_ rfl (hf tag).2
    rw [hsubstitute]
    exact mem_append_left _ (List.mem_map.mpr ⟨tag, htag, rfl⟩)
  · refine (map_congr_left fun row hrow => ?_).trans (List.map_id _)
    refine foldl_writeRow_new (fun tag htag => ?_) _
    rw [mem_toList, map_eq_some_iff] at hrow
    obtain ⟨_, -, rfl⟩ := hrow
    exact hfresh tag htag

theorem insertedTag_eq {snapshot : TaxonomySnapshot} {plan : TaxonomyPlan} {fresh : Int}
    {change : TaxonomyChange} {inventory : List TaxonomyTag} {source : TaxonomyTag}
    {destination : Option TagRow} {f : TagRow → TagRow}
    (hafter : WellFormed plan.after.tags plan.after.assignments)
    (hrows : plan.after.tags = snapshot.tags.map f ++ (destination.filter (·.id = pendingId)).toList)
    {aliases : List TagRow} (hpreview : planPreview snapshot change inventory source aliases
      plan.after destination = .ok plan) :
    insertedTag plan fresh = ((destination.filter (·.id = pendingId)).map fun row =>
      (⟨fresh, row.tag, row.title, none, false⟩ : TagRow)).toList := by
  obtain ⟨beforeMap, -, hpreview⟩ := bind_ok hpreview
  obtain ⟨afterMap, -, hpreview⟩ := bind_ok hpreview
  obtain ⟨rules, -, hpreview⟩ := bind_ok hpreview
  obtain ⟨afterInventory, hinventory, hpreview⟩ := bind_ok hpreview
  obtain ⟨items, hitems, hitemRows⟩ := taxonomyInventory_ok hafter
  rw [hinventory] at hitems
  cases hitems
  have hdestination : plan.preview.destination = destination.bind fun destination =>
      afterInventory.find? (·.id = destination.id) :=
    (congrArg (fun plan : TaxonomyPlan => plan.preview.destination) (Except.ok.inj hpreview)).symm
  unfold insertedTag
  rw [hdestination]
  cases destination with
  | none => rfl
  | some row =>
    rw [bind_some]
    have hfound : ∀ item, afterInventory.find? (·.id = row.id) = some item →
        item.id = row.id ∧ item.toTagRow ∈ plan.after.tags := by
      intro item hitem
      refine ⟨by simpa using find?_some hitem, ?_⟩
      rw [← hitemRows]
      exact List.mem_map_of_mem (mem_of_find?_eq_some hitem)
    by_cases hid : row.id = pendingId
    · have hmem : row ∈ plan.after.tags := by
        rw [hrows]
        simp [filter_some, hid]
      cases hfind : afterInventory.find? (·.id = row.id) with
      | none =>
        rw [← hitemRows] at hmem
        obtain ⟨item, hitem, hitemRow⟩ := List.mem_map.mp hmem
        exact absurd (by simp [← hitemRow]) (find?_eq_none.mp hfind item hitem)
      | some item =>
        obtain ⟨hitemId, hitem⟩ := hfound item hfind
        have hsame := hafter.eq_of_id hitem hmem hitemId
        have htag : item.tag = row.tag := congrArg TagRow.tag hsame
        have htitle : item.title = row.title := congrArg TagRow.title hsame
        simp [filter_some, hid, hitemId, htag, htitle]
    · cases hfind : afterInventory.find? (·.id = row.id) with
      | none => simp [filter_some, hid]
      | some item => simp [filter_some, hid, (hfound item hfind).1]

theorem mem_substitute {after : TaxonomySnapshot} {fresh : Int} {assignment : TagAssignment} :
    assignment ∈ (after.substitute fresh).assignments ↔ ∃ tagId,
      ⟨assignment.pageId, tagId⟩ ∈ after.assignments ∧ freshId fresh tagId = assignment.tagId := by
  simp only [TaxonomySnapshot.substitute, List.mem_map]
  constructor
  · rintro ⟨before, hbefore, rfl⟩
    exact ⟨before.tagId, hbefore, rfl⟩
  · rintro ⟨tagId, hmem, hid⟩
    exact ⟨_, hmem, by rw [hid]⟩

/-- No row of a plan has the id of the new row. -/
theorem Planned.fresh {snapshot : TaxonomySnapshot} {plan : TaxonomyPlan} {change : TaxonomyChange}
    {inventory : List TaxonomyTag} {source : TaxonomyTag} {destination : Option TagRow} {fresh : Int}
    (hplanned : Planned toLowerCase snapshot input plan change inventory source destination)
    (hpending : ∀ tag ∈ snapshot.tags, tag.id ≠ pendingId) (hnew : 1 ≤ fresh)
    (hfresh : ∀ tag ∈ snapshot.tags, tag.id ≠ fresh) : ∀ tag ∈ plan.after.tags, tag.id ≠ fresh := by
  obtain ⟨f, hf, hrows, -⟩ := hplanned.outcome.rows hpending hplanned.mem
  intro tag htag
  rw [hrows] at htag
  rcases mem_append.mp htag with htag | htag
  · obtain ⟨before, hbefore, rfl⟩ := List.mem_map.mp htag
    rw [(hf before).1]
    exact hfresh before hbefore
  · rw [mem_toList, filter_eq_some_iff] at htag
    rw [of_decide_eq_true htag.2]
    intro hid
    rw [← hid] at hnew
    exact absurd hnew (by decide)

/-- The assignments of a page that did not change are those that were planned for it. -/
theorem mem_unchanged {before after : TaxonomySnapshot} {fresh : Int}
    (h : WellFormed before.tags before.assignments)
    (hpending : ∀ tag ∈ before.tags, tag.id ≠ pendingId) {assignment : TagAssignment}
    (hsame : pageAssignments before.assignments assignment.pageId
      = pageAssignments after.assignments assignment.pageId) :
    assignment ∈ before.assignments ↔ assignment ∈ (after.substitute fresh).assignments := by
  have hboth : ∀ tagId, (⟨assignment.pageId, tagId⟩ : TagAssignment) ∈ before.assignments
      ↔ (⟨assignment.pageId, tagId⟩ : TagAssignment) ∈ after.assignments := by
    intro tagId
    rw [← mem_pageAssignments, hsame, mem_pageAssignments]
  have hkeep : ∀ tagId, (⟨assignment.pageId, tagId⟩ : TagAssignment) ∈ before.assignments →
      freshId fresh tagId = tagId := by
    intro tagId hmem
    obtain ⟨tag, htag, hid, -⟩ := h.assigned _ hmem
    have := hpending tag htag
    rw [hid] at this
    exact if_neg this
  rw [mem_substitute]
  constructor
  · intro hmem
    exact ⟨assignment.tagId, (hboth _).mp hmem, hkeep _ hmem⟩
  · rintro ⟨tagId, hmem, hid⟩
    have hbefore := (hboth tagId).mpr hmem
    rw [hkeep tagId hbefore] at hid
    rw [hid] at hbefore
    exact hbefore

/-- **Application.** The tables hold what was planned. -/
theorem apply_written {acknowledgeAccess : Bool} {fresh : Int} {history : List HistoryCount} {store' : Store}
    (h : store.WellFormed) (hnew : 1 ≤ fresh) (hfresh : ∀ tag ∈ store.tags, tag.id ≠ fresh)
    (hrun : apply toLowerCase store input acknowledgeAccess fresh history = .ok store') : ∃ plan,
    planTaxonomy toLowerCase (readTaxonomySnapshot store) input = .ok plan ∧ Written store plan fresh store' := by
  obtain ⟨plan, hplan, hrun⟩ := bind_ok hrun
  split at hrun
  · cases hrun
  cases hrun
  refine ⟨plan, hplan, ?_⟩
  have hwf : WellFormed (readTaxonomySnapshot store).tags (readTaxonomySnapshot store).assignments := h.tags
  obtain ⟨change, inventory, source, destination, hplanned⟩ := planTaxonomy_ok hwf h.pending hplan
  obtain ⟨f, hf, hrows, hcanonical, -⟩ := hplanned.outcome.rows h.pending hplanned.mem
  have hafter := hplanned.wellFormed hwf h.pending
  have hsubstituted : WellFormed (plan.after.substitute fresh).tags
      (plan.after.substitute fresh).assignments :=
    substitute_wellFormed hafter (hplanned.fresh h.pending hnew hfresh)
  refine ⟨?_, fun assignment => ?_, rfl, rfl⟩
  · rw [insertedTag_eq hafter hrows hplanned.preview]
    exact Perm.of_eq
      (written_tags hwf hsubstituted hfresh h.pending hf hrows hcanonical)
  · dsimp only
    rw [foldl_writePageTags, (planPreview_after hplanned.preview).2]
    split
    · exact Iff.rfl
    next hunchanged =>
      by_cases hpage : ∃ page ∈ (readTaxonomySnapshot store).pages, page.id = assignment.pageId
      · obtain ⟨page, hpage, hid⟩ := hpage
        refine mem_unchanged hwf h.pending ?_
        by_contra hchanged
        refine hunchanged (List.mem_map.mpr ⟨page, mem_filter.mpr ⟨hpage, ?_⟩, hid⟩)
        rw [hid]
        exact decide_eq_true hchanged
      · -- a page that was not read has no assignments, and a change gives it none
        have hnone : ∀ tagId, (⟨assignment.pageId, tagId⟩ : TagAssignment) ∉ store.pageTags := by
          intro tagId hmem
          obtain ⟨page, hmemPage, hid⟩ := h.pages _ hmem
          refine hpage ⟨page, mem_filter.mpr ⟨hmemPage, ?_⟩, hid⟩
          exact List.any_eq_true.mpr ⟨_, hmem, decide_eq_true hid.symm⟩
        refine iff_of_false (hnone assignment.tagId) fun hmem => ?_
        obtain ⟨tagId, hmem, -⟩ := mem_substitute.mp hmem
        rcases hplanned.outcome.assignments hmem with hbefore | ⟨hbefore, -⟩
        · exact hnone _ hbefore
        · exact hnone _ hbefore

/-- **Preservation.** A change keeps the tables well-formed. -/
theorem Store.WellFormed.apply {acknowledgeAccess : Bool} {fresh : Int} {history : List HistoryCount} {store' : Store}
    (h : store.WellFormed) (hnew : 1 ≤ fresh) (hfresh : ∀ tag ∈ store.tags, tag.id ≠ fresh)
    (hrun : Taxonomy.apply toLowerCase store input acknowledgeAccess fresh history = .ok store') :
    store'.WellFormed := by
  obtain ⟨plan, hplan, hwritten⟩ := apply_written h hnew hfresh hrun
  have hwf : Taxonomy.WellFormed (readTaxonomySnapshot store).tags (readTaxonomySnapshot store).assignments := h.tags
  obtain ⟨change, inventory, source, destination, hplanned⟩ := planTaxonomy_ok hwf h.pending hplan
  obtain ⟨f, hf, hrows, -⟩ := hplanned.outcome.rows h.pending hplanned.mem
  have hafter := hplanned.wellFormed hwf h.pending
  refine ⟨?_, ?_, ?_⟩
  · exact (substitute_wellFormed hafter (hplanned.fresh h.pending hnew hfresh)).mono hwritten.tags
      fun assignment hassignment => (hwritten.pageTags assignment).mp hassignment
  · intro tag htag
    obtain ⟨row, hrow, rfl⟩ := List.mem_map.mp (hwritten.tags.mem_iff.mp htag)
    rw [hrows] at hrow
    dsimp only
    rcases mem_append.mp hrow with hrow | hrow
    · obtain ⟨before, hbefore, rfl⟩ := List.mem_map.mp hrow
      rw [(hf before).1, freshId, if_neg (h.pending before hbefore)]
      exact h.ids before hbefore
    · rw [mem_toList, filter_eq_some_iff] at hrow
      rw [of_decide_eq_true hrow.2]
      exact hnew
  · intro assignment hassignment
    rw [hwritten.pages]
    obtain ⟨tagId, hmem, -⟩ := mem_substitute.mp ((hwritten.pageTags assignment).mp hassignment)
    rcases hplanned.outcome.assignments hmem with hbefore | ⟨hbefore, -⟩
    · exact h.pages ⟨assignment.pageId, tagId⟩ hbefore
    · exact h.pages ⟨assignment.pageId, source.id⟩ hbefore

/-! ## Tags of pages -/

/-- An edit that gives another name. -/
def TaxonomyChange.Renames (tags : List TagRow) : TaxonomyChange → Prop
  | edit tagId tag _ => ∀ row ∈ tags, row.id = tagId → row.tag ≠ tag
  | _ => False

/-- Pages lose the source of a rename, a merge or an archiving only, and gain the destination only
if they had the source. -/
structure Retagged (tags : List TagRow) (before after : List TagAssignment) (change : TaxonomyChange)
    (renamedId : Int) : Prop where
  lost : ∀ assignment ∈ before, assignment ∉ after → assignment.tagId = change.tagId ∧
    (change.Renames tags ∨ (∃ id targetId, change = .merge id targetId) ∨ ∃ id, change = .archive id)
  gained : ∀ assignment ∈ after, assignment ∉ before → ⟨assignment.pageId, change.tagId⟩ ∈ before ∧
    ((change.Renames tags ∧ assignment.tagId = renamedId)
      ∨ (assignment.tagId ≠ pendingId ∧ ∃ id, change = .merge id assignment.tagId))

theorem Outcome.retagged {snapshot after : TaxonomySnapshot} {source : TagRow} {change : TaxonomyChange}
    {destination : Option TagRow} (h : WellFormed snapshot.tags snapshot.assignments) (hsource : source ∈ snapshot.tags)
    (hpending : ∀ tag ∈ snapshot.tags, tag.id ≠ pendingId) (hid : source.id = change.tagId)
    (houtcome : Outcome snapshot source change after destination) :
    Retagged snapshot.tags snapshot.assignments after.assignments change pendingId := by
  cases houtcome with
  | retitled | aliasArchived | restored =>
    exact ⟨fun _ hmem hnot => absurd hmem hnot, fun _ hmem hnot => absurd hmem hnot⟩
  | archived hcanonical =>
    refine ⟨fun assignment hmem hnot => ⟨?_, .inr (.inr ⟨_, rfl⟩)⟩,
      fun assignment hmem hnot => absurd (mem_filter.mp hmem).1 hnot⟩
    rw [← hid]
    by_contra hother
    exact hnot (mem_filter.mpr ⟨hmem, decide_eq_true hother⟩)
  | merged hcanonical hmemDestination hdestination =>
    constructor
    · intro assignment hmem hnot
      refine ⟨?_, .inr (.inl ⟨_, _, rfl⟩)⟩
      rw [← hid]
      by_contra hother
      exact hnot (mem_moveAssignments.mpr (.inl ⟨hother, hmem⟩))
    · intro assignment hmem hnot
      rcases mem_moveAssignments.mp hmem with ⟨-, hbefore⟩ | ⟨hto, hbefore⟩
      · exact absurd hbefore hnot
      · rw [← hid, hto]
        exact ⟨hbefore, .inr ⟨hpending _ hmemDestination, _, rfl⟩⟩
  | @renamed id tag title hcanonical hname hfree =>
    have hrenames : TaxonomyChange.Renames snapshot.tags (.edit id tag title) := by
      intro row hrow hrowId
      rw [h.eq_of_id hrow hsource (hrowId.trans hid.symm)]
      exact Ne.symm hname
    constructor
    · intro assignment hmem hnot
      refine ⟨?_, .inl hrenames⟩
      rw [← hid]
      by_contra hother
      exact hnot (mem_moveAssignments.mpr (.inl ⟨hother, hmem⟩))
    · intro assignment hmem hnot
      rcases mem_moveAssignments.mp hmem with ⟨-, hbefore⟩ | ⟨hto, hbefore⟩
      · exact absurd hbefore hnot
      · rw [← hid, hto]
        exact ⟨hbefore, .inl ⟨hrenames, rfl⟩⟩

theorem apply_retagged {acknowledgeAccess : Bool} {fresh : Int} {history : List HistoryCount} {store' : Store}
    (h : store.WellFormed) (hnew : 1 ≤ fresh) (hfresh : ∀ tag ∈ store.tags, tag.id ≠ fresh)
    (hrun : apply toLowerCase store input acknowledgeAccess fresh history = .ok store') : ∃ change,
    taxonomyChange toLowerCase input = .ok change ∧
    Retagged store.tags store.pageTags store'.pageTags change fresh := by
  obtain ⟨plan, hplan, hwritten⟩ := apply_written h hnew hfresh hrun
  have hwf : WellFormed (readTaxonomySnapshot store).tags (readTaxonomySnapshot store).assignments := h.tags
  obtain ⟨change, inventory, source, destination, hplanned⟩ := planTaxonomy_ok hwf h.pending hplan
  have hretagged := hplanned.outcome.retagged hwf hplanned.mem h.pending hplanned.id
  have hkeep : ∀ assignment ∈ store.pageTags, freshId fresh assignment.tagId = assignment.tagId := by
    intro assignment hmem
    obtain ⟨tag, htag, hid, -⟩ := h.tags.assigned assignment hmem
    exact if_neg (hid ▸ h.pending tag htag)
  refine ⟨change, hplanned.asked, ?_, ?_⟩
  · intro assignment hmem hnot
    refine hretagged.lost assignment hmem fun hafter => hnot ?_
    exact (hwritten.pageTags assignment).mpr (mem_substitute.mpr ⟨_, hafter, hkeep _ hmem⟩)
  · intro assignment hmem hnot
    obtain ⟨tagId, hafter, hid⟩ := mem_substitute.mp ((hwritten.pageTags assignment).mp hmem)
    have hnotBefore : (⟨assignment.pageId, tagId⟩ : TagAssignment) ∉ store.pageTags := by
      intro hbefore
      have hsame : assignment.tagId = tagId := hid.symm.trans (hkeep _ hbefore)
      rw [← hsame] at hbefore
      exact hnot hbefore
    obtain ⟨hbefore, hwhy⟩ := hretagged.gained _ hafter hnotBefore
    refine ⟨hbefore, ?_⟩
    rcases hwhy with ⟨hrenames, hpending⟩ | ⟨hother, hmerge⟩
    · obtain rfl : tagId = pendingId := hpending
      exact .inl ⟨hrenames, hid.symm⟩
    · have hsame : freshId fresh tagId = tagId := if_neg hother
      rw [← hid, hsame]
      exact .inr ⟨hother, hmerge⟩

/-! ## Runs -/

/-- A request, with what the tables answer to it. -/
structure ChangeRequest where
  change : TaxonomyChange
  acknowledgeAccess : Bool
  fresh : Int
  history : List HistoryCount

def ChangeRequest.apply (toLowerCase : JsString → JsString) (request : ChangeRequest) (store : Store) :
    Except TaxonomyError Store :=
  Taxonomy.apply toLowerCase store request.change request.acknowledgeAccess request.fresh
    request.history

/-- A table gives a new row an id that no row has. -/
def ChangeRequest.Fresh (request : ChangeRequest) (store : Store) : Prop :=
  1 ≤ request.fresh ∧ ∀ tag ∈ store.tags, tag.id ≠ request.fresh

/-- Changes one after another; one that is refused leaves the tables as they are. -/
def taxonomy (toLowerCase : JsString → JsString) : Machine Store ChangeRequest where
  enabled request store := request.Fresh store
  exec request store := (request.apply toLowerCase store).toOption.getD store

theorem Store.WellFormed.reachable {store' : Store} (h : store.WellFormed)
    (hreachable : (taxonomy toLowerCase).Reachable store store') : store'.WellFormed := by
  refine hreachable.invariant h ?_
  intro request store hfresh h
  dsimp only [taxonomy]
  cases hrun : request.apply toLowerCase store with
  | error e => exact h
  | ok store' => exact h.apply hfresh.1 hfresh.2 hrun

/-- **Taxonomy.** A plan for well-formed tags is well-formed with the id of the new row; and after
any run of changes the tables are well-formed, their aliases and inventory are found, and the next
change takes no tag from a page and gives it none but as a merge, a rename or an archiving of it. -/
theorem taxonomy_wellformed (toLowerCase : JsString → JsString) :
    (∀ snapshot input plan fresh, WellFormed snapshot.tags snapshot.assignments →
      (∀ tag ∈ snapshot.tags, 1 ≤ tag.id ∧ tag.id ≠ fresh) → 1 ≤ fresh →
      planTaxonomy toLowerCase snapshot input = .ok plan →
      WellFormed (plan.after.substitute fresh).tags (plan.after.substitute fresh).assignments) ∧
    ∀ store store' : Store, store.WellFormed → (taxonomy toLowerCase).Reachable store store' →
      store'.WellFormed ∧ (tagAliasMap store'.tags).isOk = true ∧
        (taxonomyInventory (readTaxonomySnapshot store')).isOk = true ∧
        ∀ (request : ChangeRequest) store'', request.Fresh store' →
          request.apply toLowerCase store' = .ok store'' →
          ∃ change, taxonomyChange toLowerCase request.change = .ok change ∧
            Retagged store'.tags store'.pageTags store''.pageTags change request.fresh := by
  constructor
  · intro snapshot input plan fresh h hids hnew hplan
    have hpending : ∀ tag ∈ snapshot.tags, tag.id ≠ pendingId := by
      intro tag htag hid
      have := (hids tag htag).1
      rw [hid] at this
      exact absurd this (by decide)
    obtain ⟨change, inventory, source, destination, hplanned⟩ := planTaxonomy_ok h hpending hplan
    exact substitute_wellFormed (hplanned.wellFormed h hpending)
      (hplanned.fresh hpending hnew fun tag htag => (hids tag htag).2)
  · intro store store' h hreachable
    have h' := h.reachable hreachable
    obtain ⟨aliases, haliases, -⟩ := h'.tags.tagAliasMap_ok
    obtain ⟨inventory, hinventory, -⟩ := taxonomyInventory_ok
      (show WellFormed (readTaxonomySnapshot store').tags (readTaxonomySnapshot store').assignments from h'.tags)
    refine ⟨h', by rw [haliases]; rfl, by rw [hinventory]; rfl, ?_⟩
    intro request store'' hfresh hrun
    exact apply_retagged h' hfresh.1 hfresh.2 hrun

/-! ## An example -/

/-- Tag 1 with the alias 3, and tag 2. -/
def exampleStore : Store where
  tags := [⟨1, js "api", js "", none, false⟩, ⟨2, js "web", js "", none, false⟩, ⟨3, js "old", js "", some 1, false⟩]
  pageTags := [⟨10, 1⟩, ⟨11, 2⟩]
  pages := [⟨10, js "en", .isPublic⟩, ⟨11, js "en", .isPublic⟩]
  groups := [⟨1, js "readers", [⟨none, .TAG, js "web", false, [], none⟩]⟩]
  history := []

theorem exampleStore_wellFormed : exampleStore.WellFormed := by
  refine ⟨⟨by decide, by decide, ?_, ?_⟩, by decide, by decide⟩
  · intro tag htag id hto
    fin_cases htag
    · cases hto
    · cases hto
    · cases hto
      exact ⟨_, mem_cons_self, rfl, rfl, fun _ => rfl⟩
  · decide

/-- Tag 1 is merged into tag 2. -/
def exampleRequest : ChangeRequest := ⟨.merge 1 2, true, 4, []⟩

def mergedStore : Store :=
  { exampleStore with
    tags := [⟨1, js "api", js "", some 2, false⟩, ⟨2, js "web", js "", none, false⟩,
      ⟨3, js "old", js "", some 2, false⟩]
    pageTags := [⟨11, 2⟩, ⟨10, 2⟩] }

theorem taxonomy_wellformed_example : exampleRequest.apply id exampleStore = .ok mergedStore ∧ mergedStore.WellFormed ∧
    (tagAliasMap mergedStore.tags).isOk = true := by
  have hrun : exampleRequest.apply id exampleStore = .ok mergedStore := by decide
  have hstep : (taxonomy id).Reachable exampleStore mergedStore := by
    refine ⟨[exampleRequest], ⟨⟨by decide, by decide⟩, trivial⟩, ?_⟩
    change (exampleRequest.apply id exampleStore).toOption.getD exampleStore = mergedStore
    rw [hrun]
    rfl
  obtain ⟨hwf, haliases, -⟩ := (taxonomy_wellformed id).2 exampleStore mergedStore exampleStore_wellFormed hstep
  exact ⟨hrun, hwf, haliases⟩

end TsEpistle.Taxonomy
