import TsEpistle.Taxonomy.Outcomes

/-! Well-formedness of what a change makes. -/

namespace TsEpistle.Taxonomy
open Library Checked List

theorem mem_moveAssignments {sourceId destinationId : Int} {assignments : List TagAssignment}
    {assignment : TagAssignment} : assignment ∈ moveAssignments sourceId destinationId assignments ↔
    (assignment.tagId ≠ sourceId ∧ assignment ∈ assignments) ∨
    (assignment.tagId = destinationId ∧ ⟨assignment.pageId, sourceId⟩ ∈ assignments) := by
  unfold moveAssignments
  rw [mem_eraseDups, mem_map]
  constructor
  · rintro ⟨before, hbefore, rfl⟩
    split
    next hsource => exact .inr ⟨rfl, hsource ▸ hbefore⟩
    next hsource => exact .inl ⟨hsource, hbefore⟩
  · rintro (⟨hsource, hmem⟩ | ⟨hdestination, hmem⟩)
    · exact ⟨assignment, hmem, if_neg hsource⟩
    · exact ⟨_, hmem, by simp [← hdestination]⟩

namespace WellFormed

variable {tags : List TagRow} {assignments : List TagAssignment}

/-- Rows keep their ids, names and redirects. -/
theorem reflag (h : WellFormed tags assignments) {f : TagRow → TagRow}
    (hid : ∀ tag, (f tag).id = tag.id) (hname : ∀ tag, (f tag).tag = tag.tag)
    (hredirect : ∀ tag, (f tag).redirectToId = tag.redirectToId)
    (hactive : ∀ tag ∈ tags, (f tag).isArchived = false → ∀ destination ∈ tags,
      tag.redirectToId = some destination.id → destination.redirectToId = none →
      (f destination).isArchived = false)
    {assignments' : List TagAssignment} (hassigned : ∀ assignment ∈ assignments', ∃ tag ∈ tags,
      tag.id = assignment.tagId ∧ tag.redirectToId = none ∧ (f tag).isArchived = false) :
    WellFormed (tags.map f) assignments' := by
  constructor
  · rw [map_map]
    exact (map_congr_left fun tag _ => hid tag) ▸ h.ids
  · rw [map_map]
    exact (map_congr_left fun tag _ => hname tag) ▸ h.names
  · intro tag' htag' id hto
    obtain ⟨tag, htag, rfl⟩ := mem_map.mp htag'
    rw [hredirect] at hto
    obtain ⟨destination, hmem, rfl, hlast, -⟩ := h.redirects tag htag id hto
    exact ⟨f destination, mem_map_of_mem hmem, hid _, (hredirect _).trans hlast,
      fun hflag => hactive tag htag hflag destination hmem hto hlast⟩
  · intro assignment hassignment
    obtain ⟨tag, htag, htagId, hlast, hflag⟩ := hassigned assignment hassignment
    exact ⟨f tag, mem_map_of_mem htag, (hid _).trans htagId, (hredirect _).trans hlast, hflag⟩

/-- A canonical tag with a new id and a new name. -/
theorem add (h : WellFormed tags assignments) {row : TagRow} (hrow : Canonical row)
    (hid : ∀ tag ∈ tags, tag.id ≠ row.id) (hname : ∀ tag ∈ tags, tag.tag ≠ row.tag) :
    WellFormed (tags ++ [row]) assignments := by
  constructor
  · rw [map_append]
    refine Nodup.append h.ids (by simp) fun id hmem hmem' => ?_
    obtain ⟨tag, htag, rfl⟩ := mem_map.mp hmem
    exact hid tag htag (by simpa using hmem')
  · rw [map_append]
    refine Nodup.append h.names (by simp) fun name hmem hmem' => ?_
    obtain ⟨tag, htag, rfl⟩ := mem_map.mp hmem
    exact hname tag htag (by simpa using hmem')
  · intro tag htag id hto
    rcases mem_append.mp htag with htag | htag
    · obtain ⟨destination, hmem, hrest⟩ := h.redirects tag htag id hto
      exact ⟨destination, mem_append_left _ hmem, hrest⟩
    · obtain rfl := mem_singleton.mp htag
      rw [hrow.last] at hto
      cases hto
  · intro assignment hassignment
    obtain ⟨tag, htag, hrest⟩ := h.assigned assignment hassignment
    exact ⟨tag, mem_append_left _ htag, hrest⟩

/-- A source and its aliases lead to a destination, and so do the assignments. -/
theorem move (h : WellFormed tags assignments) {source destination : TagRow} (hmem : destination ∈ tags)
    (hdestination : Canonical destination) (hne : destination.id ≠ source.id) :
    WellFormed (changeWhere (Belongs source) (redirect destination.id) tags)
    (moveAssignments source.id destination.id assignments) := by
  have hkeep : ∀ {tag : TagRow}, tag.redirectToId = none → tag.id ≠ source.id →
      (if Belongs source tag then redirect destination.id tag else tag) = tag := by
    intro tag hlast hid
    refine if_neg ?_
    rintro (hid' | hredirect)
    · exact hid hid'
    · rw [hlast] at hredirect
      cases hredirect
  have hkept := hkeep hdestination.last hne
  unfold changeWhere
  constructor
  · rw [map_map]
    refine (map_congr_left fun tag _ => ?_) ▸ h.ids
    simp only [Function.comp_apply]
    split <;> rfl
  · rw [map_map]
    refine (map_congr_left fun tag _ => ?_) ▸ h.names
    simp only [Function.comp_apply]
    split <;> rfl
  · intro tag' htag' id hto
    obtain ⟨tag, htag, rfl⟩ := mem_map.mp htag'
    by_cases hbelongs : Belongs source tag
    · rw [if_pos hbelongs] at hto ⊢
      cases hto
      exact ⟨_, mem_map.mpr ⟨destination, hmem, hkept⟩, rfl, hdestination.last, fun _ => hdestination.active⟩
    · rw [if_neg hbelongs] at hto ⊢
      obtain ⟨next, hnext, rfl, hlast, hactive⟩ := h.redirects tag htag id hto
      have hne' : next.id ≠ source.id := fun heq => hbelongs (.inr (heq ▸ hto))
      exact ⟨next, mem_map.mpr ⟨next, hnext, hkeep hlast hne'⟩, rfl, hlast, hactive⟩
  · intro assignment hassignment
    rcases mem_moveAssignments.mp hassignment with ⟨hid, hbefore⟩ | ⟨hid, -⟩
    · obtain ⟨tag, htag, htagId, hlast, hactive⟩ := h.assigned assignment hbefore
      exact ⟨tag, mem_map.mpr ⟨tag, htag, hkeep hlast (htagId ▸ hid)⟩, htagId, hlast, hactive⟩
    · exact ⟨destination, mem_map.mpr ⟨destination, hmem, hkept⟩, hid.symm, hdestination.last, hdestination.active⟩

/-- Ids are given anew. -/
theorem renumber (h : WellFormed tags assignments) {f : Int → Int}
    (hf : ∀ tag ∈ tags, ∀ tag' ∈ tags, f tag.id = f tag'.id → tag.id = tag'.id) :
    WellFormed (tags.map fun tag => { tag with id := f tag.id, redirectToId := tag.redirectToId.map f })
    (assignments.map fun assignment => { assignment with tagId := f assignment.tagId }) := by
  constructor
  · rw [map_map]
    refine (nodup_map_iff_inj_on h.ids.of_map).mpr fun tag htag tag' htag' hid => ?_
    exact h.eq_of_id htag htag' (hf tag htag tag' htag' hid)
  · rw [map_map]
    exact h.names
  · intro tag' htag' id hto
    obtain ⟨tag, htag, rfl⟩ := mem_map.mp htag'
    obtain ⟨next, hnext, rfl⟩ := Option.map_eq_some_iff.mp hto
    obtain ⟨destination, hmem, rfl, hlast, hactive⟩ := h.redirects tag htag next hnext
    exact ⟨_, mem_map.mpr ⟨destination, hmem, rfl⟩, rfl, by simp [hlast], hactive⟩
  · intro assignment' hassignment'
    obtain ⟨assignment, hassignment, rfl⟩ := mem_map.mp hassignment'
    obtain ⟨tag, htag, htagId, hlast, hactive⟩ := h.assigned assignment hassignment
    exact ⟨_, mem_map.mpr ⟨tag, htag, rfl⟩, congrArg f htagId, by simp [hlast], hactive⟩

theorem active_of (h : WellFormed tags assignments) {tag destination : TagRow} (htag : tag ∈ tags)
    (hmem : destination ∈ tags) (hto : tag.redirectToId = some destination.id)
    (hactive : tag.isArchived = false) : destination.isArchived = false := by
  obtain ⟨next, hnext, hid, -, hkeeps⟩ := h.redirects tag htag _ hto
  rw [← h.eq_of_id hnext hmem hid]
  exact hkeeps hactive

/-- The order of the rows and assignments that are not there do not matter. -/
theorem mono (h : WellFormed tags assignments) {tags' : List TagRow} {assignments' : List TagAssignment}
    (htags : tags'.Perm tags) (hassignments : ∀ assignment ∈ assignments', assignment ∈ assignments) :
    WellFormed tags' assignments' := by
  refine ⟨(htags.map _).nodup_iff.mpr h.ids, (htags.map _).nodup_iff.mpr h.names, ?_, ?_⟩
  · intro tag htag id hto
    obtain ⟨destination, hmem, hrest⟩ := h.redirects tag (htags.mem_iff.mp htag) id hto
    exact ⟨destination, htags.mem_iff.mpr hmem, hrest⟩
  · intro assignment hassignment
    obtain ⟨tag, htag, hrest⟩ := h.assigned assignment (hassignments assignment hassignment)
    exact ⟨tag, htags.mem_iff.mpr htag, hrest⟩

end WellFormed

variable {snapshot after : TaxonomySnapshot} {source : TagRow} {change : TaxonomyChange}
  {destination : Option TagRow}

/-- What a change is accepted for: its destination is another tag than its source. -/
def Apart (source : TagRow) : TaxonomyChange → Prop
  | .merge _ targetId => targetId ≠ source.id
  | _ => True

theorem Outcome.wellFormed (h : WellFormed snapshot.tags snapshot.assignments) (hsource : source ∈ snapshot.tags)
    (hpending : ∀ tag ∈ snapshot.tags, tag.id ≠ pendingId) (hapart : Apart source change)
    (houtcome : Outcome snapshot source change after destination) : WellFormed after.tags after.assignments := by
  cases houtcome with
  | retitled hcanonical =>
    refine h.reflag (fun tag => by split <;> rfl) (fun tag => by split <;> rfl)
      (fun tag => by split <;> rfl) ?_ ?_
    · intro tag htag hflag destination hmem hto hlast
      have hactive : tag.isArchived = false := by
        split at hflag <;> exact hflag
      have hkept := h.active_of htag hmem hto hactive
      split <;> exact hkept
    · intro assignment hassignment
      obtain ⟨tag, htag, hid, hlast, hactive⟩ := h.assigned assignment hassignment
      exact ⟨tag, htag, hid, hlast, by split <;> exact hactive⟩
  | @renamed id tag title hcanonical hname hfree =>
    have hadded : WellFormed (snapshot.tags ++ [{ source with id := pendingId, tag, title }])
        snapshot.assignments :=
      h.add ⟨hcanonical.last, hcanonical.active⟩ hpending hfree
    exact hadded.move (mem_append_right _ (mem_singleton_self _))
      ⟨hcanonical.last, hcanonical.active⟩ (hpending source hsource).symm
  | merged hcanonical hmem hdestination => exact h.move hmem hdestination hapart
  | archived hcanonical =>
    refine h.reflag (fun tag => by split <;> rfl) (fun tag => by split <;> rfl)
      (fun tag => by split <;> rfl) ?_ ?_
    · intro tag htag hflag destination hmem hto hlast
      split at hflag
      · cases hflag
      next hbelongs =>
        rw [if_neg]
        · exact h.active_of htag hmem hto hflag
        · rintro (hid | hredirect)
          · exact hbelongs (.inr (hid ▸ hto))
          · rw [hlast] at hredirect
            cases hredirect
    · intro assignment hassignment
      obtain ⟨hassignment, hother⟩ := mem_filter.mp hassignment
      obtain ⟨tag, htag, hid, hlast, hactive⟩ := h.assigned assignment hassignment
      refine ⟨tag, htag, hid, hlast, ?_⟩
      rw [if_neg]
      · exact hactive
      · rintro (hid' | hredirect)
        · exact of_decide_eq_true hother (hid.symm.trans hid')
        · rw [hlast] at hredirect
          cases hredirect
  | aliasArchived hredirect =>
    have hother : ∀ {tag : TagRow}, tag ∈ snapshot.tags → tag.redirectToId = none →
        tag.id ≠ source.id := by
      intro tag htag hlast hid
      exact hredirect (h.eq_of_id htag hsource hid ▸ hlast)
    refine h.reflag (fun tag => by split <;> rfl) (fun tag => by split <;> rfl)
      (fun tag => by split <;> rfl) ?_ ?_
    · intro tag htag hflag destination hmem hto hlast
      rw [if_neg (hother hmem hlast)]
      split at hflag
      · cases hflag
      · exact h.active_of htag hmem hto hflag
    · intro assignment hassignment
      obtain ⟨tag, htag, hid, hlast, hactive⟩ := h.assigned assignment hassignment
      refine ⟨tag, htag, hid, hlast, ?_⟩
      rw [if_neg (hother htag hlast)]
      exact hactive
  | restored harchived hdestination =>
    refine h.reflag (fun tag => by split <;> rfl) (fun tag => by split <;> rfl)
      (fun tag => by split <;> rfl) ?_ ?_
    · intro tag htag hflag destination hmem hto hlast
      have hactive : destination.isArchived = false := by
        split at hflag
        next hid => exact hdestination destination hmem (h.eq_of_id htag hsource hid ▸ hto)
        next => exact h.active_of htag hmem hto hflag
      split
      · rfl
      · exact hactive
    · intro assignment hassignment
      obtain ⟨tag, htag, hid, hlast, hactive⟩ := h.assigned assignment hassignment
      refine ⟨tag, htag, hid, hlast, ?_⟩
      split
      · rfl
      · exact hactive

/-! ## Plans -/

/-- What a plan that was accepted has passed. -/
structure Planned (toLowerCase : JsString → JsString) (snapshot : TaxonomySnapshot)
    (input : TaxonomyChange) (plan : TaxonomyPlan) (change : TaxonomyChange)
    (inventory : List TaxonomyTag) (source : TaxonomyTag) (destination : Option TagRow) : Prop where
  asked : taxonomyChange toLowerCase input = .ok change
  mem : source.toTagRow ∈ snapshot.tags
  id : source.id = change.tagId
  outcome : Outcome snapshot source.toTagRow change plan.after destination
  preview : planPreview snapshot change inventory source
    (snapshot.tags.filter (·.redirectToId = some source.id)) plan.after destination = .ok plan

theorem planPreview_after {inventory : List TaxonomyTag} {source : TaxonomyTag} {aliases : List TagRow}
    {plan : TaxonomyPlan} (h : planPreview snapshot change inventory source aliases after destination = .ok plan) :
    plan.after = after ∧ plan.changedPageIds = (changedPages snapshot after).map (·.id) := by
  obtain ⟨beforeMap, -, h⟩ := bind_ok h
  obtain ⟨afterMap, -, h⟩ := bind_ok h
  obtain ⟨rules, -, h⟩ := bind_ok h
  obtain ⟨afterInventory, -, h⟩ := bind_ok h
  cases h
  exact ⟨rfl, rfl⟩

variable {toLowerCase : JsString → JsString}

theorem planTaxonomy_ok {input : TaxonomyChange} {plan : TaxonomyPlan}
    (h : WellFormed snapshot.tags snapshot.assignments) (hpending : ∀ tag ∈ snapshot.tags, tag.id ≠ pendingId)
    (hrun : planTaxonomy toLowerCase snapshot input = .ok plan) : ∃ change inventory source destination,
    Planned toLowerCase snapshot input plan change inventory source destination := by
  obtain ⟨change, hasked, hrun⟩ := bind_ok hrun
  obtain ⟨inventory, hinventory, hrun⟩ := bind_ok hrun
  split at hrun
  · cases hrun
  next source hfind =>
    obtain ⟨items, hitems, hrows⟩ := taxonomyInventory_ok h
    rw [hinventory] at hitems
    cases hitems
    have hmem : source.toTagRow ∈ snapshot.tags := by
      rw [← hrows]
      exact mem_map_of_mem (mem_of_find?_eq_some hfind)
    obtain ⟨aliases, haliases, hrun⟩ := bind_ok hrun
    rw [h.aliasesOf_ok hmem fun _ htag => htag] at haliases
    cases haliases
    obtain ⟨⟨after, destination⟩, hchange, hpreview⟩ := bind_ok hrun
    have houtcome := changeTags_outcome h hmem hpending rfl hchange
    obtain ⟨hafter, -⟩ := planPreview_after hpreview
    subst hafter
    exact ⟨change, inventory, source, destination, hasked, hmem,
      by simpa using find?_some hfind, houtcome, hpreview⟩

/-- The destination of a change that is asked for is another tag than its source. -/
theorem taxonomyChange_apart {input : TaxonomyChange} (h : taxonomyChange toLowerCase input = .ok change)
    (hid : source.id = change.tagId) : Apart source change := by
  unfold taxonomyChange at h
  split at h
  · cases h
  split at h
  · obtain ⟨⟨tag, title⟩, -, h⟩ := bind_ok h
    cases h
    trivial
  · split at h
    · cases h
    next hvalid =>
      cases h
      simp only [Bool.or_eq_true, decide_eq_true_eq, not_or] at hvalid
      rw [Apart, hid]
      exact hvalid.2
  · cases h
    trivial
  · cases h
    trivial

/-- What is planned for well-formed tags is well-formed. -/
theorem Planned.wellFormed {input : TaxonomyChange} {plan : TaxonomyPlan} {inventory : List TaxonomyTag}
    {source : TaxonomyTag} (h : WellFormed snapshot.tags snapshot.assignments)
    (hpending : ∀ tag ∈ snapshot.tags, tag.id ≠ pendingId)
    (hplan : Planned toLowerCase snapshot input plan change inventory source destination) :
    WellFormed plan.after.tags plan.after.assignments :=
  hplan.outcome.wellFormed h hplan.mem hpending (taxonomyChange_apart hplan.asked hplan.id)

/-- Of the rows of a plan only those of the source and its aliases are changed, and only that of a
destination without a row has the id that stands for one. -/
theorem Outcome.rows (hpending : ∀ tag ∈ snapshot.tags, tag.id ≠ pendingId) (hsource : source ∈ snapshot.tags)
    (houtcome : Outcome snapshot source change after destination) : ∃ f : TagRow → TagRow,
    (∀ tag, (f tag).id = tag.id ∧ (f tag).tag = tag.tag) ∧
    after.tags = snapshot.tags.map f ++ (destination.filter (·.id = pendingId)).toList ∧
    (∀ row, destination = some row → row.id = pendingId → Canonical row) ∧ ∀ tag, ¬ Belongs source tag →
    f tag = tag := by
  cases houtcome with
  | retitled | aliasArchived | restored =>
    refine ⟨_, fun tag => ?_, (append_nil _).symm, fun row hrow => (by cases hrow),
      fun tag hother => if_neg fun hid => hother (.inl hid)⟩
    split <;> exact ⟨rfl, rfl⟩
  | archived =>
    refine ⟨_, fun tag => ?_, (append_nil _).symm, fun row hrow => (by cases hrow), fun tag hother => if_neg hother⟩
    split <;> exact ⟨rfl, rfl⟩
  | @merged id destination hcanonical hmem hdestination =>
    refine ⟨fun tag => if Belongs source tag then redirect destination.id tag else tag,
      fun tag => ?_, ?_, ?_, fun tag hother => if_neg hother⟩
    · dsimp only
      split <;> exact ⟨rfl, rfl⟩
    · rw [Option.filter_some, if_neg (by simpa using hpending _ hmem)]
      exact (append_nil _).symm
    · rintro row hrow hid
      cases hrow
      exact hdestination
  | @renamed id tag title hcanonical hname hfree =>
    refine ⟨fun tag => if Belongs source tag then redirect pendingId tag else tag,
      fun tag => ?_, ?_, ?_, fun tag hother => if_neg hother⟩
    · dsimp only
      split <;> exact ⟨rfl, rfl⟩
    · have hother : ¬ Belongs source { source with id := pendingId, tag, title } := by
        rintro (hid | hredirect)
        · exact hpending source hsource hid.symm
        · rw [hcanonical.last] at hredirect
          cases hredirect
      simp [changeWhere, hother, Option.filter_some]
    · rintro row hrow hid
      cases hrow
      exact ⟨hcanonical.last, hcanonical.active⟩

theorem freshId_injective {fresh id id' : Int} (hid : id ≠ fresh) (hid' : id' ≠ fresh)
    (h : freshId fresh id = freshId fresh id') : id = id' := by
  unfold freshId at h
  split_ifs at h <;> omega

/-- Well-formed tags stay well-formed with the id of the new row. -/
theorem substitute_wellFormed {fresh : Int} (h : WellFormed snapshot.tags snapshot.assignments)
    (hfresh : ∀ tag ∈ snapshot.tags, tag.id ≠ fresh) :
    WellFormed (snapshot.substitute fresh).tags (snapshot.substitute fresh).assignments :=
  h.renumber fun tag htag tag' htag' =>
    freshId_injective (hfresh tag htag) (hfresh tag' htag')

end TsEpistle.Taxonomy
