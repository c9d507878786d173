import TsEpistle.Taxonomy.WellFormed

/-! What a change makes of well-formed tags. -/

namespace TsEpistle.Taxonomy
open Library List Option

/-! ## Rows -/

/-- A source or one of its aliases. -/
def Belongs (source tag : TagRow) : Prop := tag.id = source.id ∨ tag.redirectToId = some source.id

instance (source tag : TagRow) : Decidable (Belongs source tag) :=
  inferInstanceAs (Decidable (tag.id = source.id ∨ tag.redirectToId = some source.id))

variable {tags : List TagRow}

theorem updateTag_eq {change : TagRow → TagRow} {id : Int} (h : (tags.map (·.id)).Nodup) :
    updateTag change id tags = tags.map fun tag => if tag.id = id then change tag else tag := by
  induction tags with
  | nil => rfl
  | cons tag tags ih =>
    rw [map_cons, nodup_cons] at h
    unfold updateTag
    rw [map_cons]
    by_cases hid : tag.id = id
    · rw [if_pos hid, if_pos hid]
      congr 1
      refine ((map_congr_left fun other hother => if_neg ?_).trans (List.map_id _)).symm
      intro hother'
      exact h.1 (List.mem_map.mpr ⟨other, hother, hother'.trans hid.symm⟩)
    · rw [if_neg hid, if_neg hid, ih h.2]

theorem updateTags_eq {change : TagRow → TagRow} (hid : ∀ tag, (change tag).id = tag.id)
    (htwice : ∀ tag, change (change tag) = change tag) {ids : List Int}
    (h : (tags.map (·.id)).Nodup) :
    updateTags change ids tags = tags.map fun tag => if tag.id ∈ ids then change tag else tag := by
  induction ids generalizing tags with
  | nil => simp [updateTags]
  | cons id ids ih =>
    have hids : (updateTag change id tags).map (·.id) = tags.map (·.id) := by
      rw [updateTag_eq h, List.map_map]
      refine map_congr_left fun tag _ => ?_
      simp only [Function.comp_apply]
      split
      · exact hid tag
      · rfl
    unfold updateTags
    rw [foldl_cons]
    refine (ih (hids ▸ h)).trans ?_
    rw [updateTag_eq h, List.map_map]
    refine map_congr_left fun tag _ => ?_
    by_cases htag : tag.id = id
    · by_cases hmem : tag.id ∈ ids <;> simp [htag, hid, htwice, htag ▸ hmem]
    · simp [htag]

/-- The rows of a source and its aliases are changed. -/
theorem updateTags_belongs {source : TagRow} (change : TagRow → TagRow)
    (hid : ∀ tag, (change tag).id = tag.id) (htwice : ∀ tag, change (change tag) = change tag)
    {all : List TagRow} (hall : (all.map (·.id)).Nodup) (hsub : ∀ tag ∈ tags, tag ∈ all)
    (hextra : ∀ tag ∈ all, tag.redirectToId = some source.id → tag ∈ tags) :
    updateTags change
        (source.id :: (tags.filter (·.redirectToId = some source.id)).map (·.id)) all
      = all.map fun tag => if Belongs source tag then change tag else tag := by
  rw [updateTags_eq hid htwice hall]
  refine map_congr_left fun tag htag => ?_
  refine if_congr ?_ rfl rfl
  rw [mem_cons, Belongs]
  refine or_congr_right ⟨fun hmem => ?_, fun hredirect => ?_⟩
  · obtain ⟨other, hother, hsame⟩ := List.mem_map.mp hmem
    obtain ⟨hother, hredirect⟩ := mem_filter.mp hother
    obtain rfl := inj_on_of_nodup_map hall (hsub other hother) htag hsame
    simpa using hredirect
  · exact List.mem_map.mpr ⟨tag, mem_filter.mpr ⟨hextra tag htag hredirect, by simpa using hredirect⟩, rfl⟩

/-- A change of the rows for which a condition holds. -/
def changeWhere (condition : TagRow → Prop) [DecidablePred condition] (change : TagRow → TagRow)
    (tags : List TagRow) : List TagRow :=
  tags.map fun tag => if condition tag then change tag else tag

/-- A tag that is neither an alias nor archived. -/
structure Canonical (tag : TagRow) : Prop where
  last : tag.redirectToId = none
  active : tag.isArchived = false

/-- The outcomes of a change. -/
inductive Outcome (snapshot : TaxonomySnapshot) (source : TagRow) :
    TaxonomyChange → TaxonomySnapshot → Option TagRow → Prop
  | retitled {id : Int} {title : JsString} (hcanonical : Canonical source) :
      Outcome snapshot source (.edit id source.tag title)
        { snapshot with tags := changeWhere (·.id = source.id) (retitle title) snapshot.tags } none
  | renamed {id : Int} {tag title : JsString} (hcanonical : Canonical source)
      (hname : tag ≠ source.tag) (hfree : ∀ other ∈ snapshot.tags, other.tag ≠ tag) :
      Outcome snapshot source (.edit id tag title)
        { snapshot with
          tags := changeWhere (Belongs source) (redirect pendingId)
            (snapshot.tags ++ [{ source with id := pendingId, tag, title }])
          assignments := moveAssignments source.id pendingId snapshot.assignments }
        (some { source with id := pendingId, tag, title })
  | merged {id : Int} {destination : TagRow} (hcanonical : Canonical source)
      (hmem : destination ∈ snapshot.tags) (hdestination : Canonical destination) :
      Outcome snapshot source (.merge id destination.id)
        { snapshot with
          tags := changeWhere (Belongs source) (redirect destination.id) snapshot.tags
          assignments := moveAssignments source.id destination.id snapshot.assignments }
        (some destination)
  | archived {id : Int} (hcanonical : Canonical source) :
      Outcome snapshot source (.archive id)
        { snapshot with
          tags := changeWhere (Belongs source) (flag true) snapshot.tags
          assignments := snapshot.assignments.filter (·.tagId ≠ source.id) } none
  | aliasArchived {id : Int} (hredirect : source.redirectToId ≠ none) :
      Outcome snapshot source (.archive id)
        { snapshot with tags := changeWhere (·.id = source.id) (flag true) snapshot.tags } none
  | restored {id : Int} (harchived : source.isArchived = true)
      (hdestination : ∀ destination ∈ snapshot.tags, source.redirectToId = some destination.id →
        destination.isArchived = false) :
      Outcome snapshot source (.restore id)
        { snapshot with tags := changeWhere (·.id = source.id) (flag false) snapshot.tags } none

theorem find?_id {id : Int} {tag : TagRow} (h : tags.find? (·.id = id) = some tag) : tag ∈ tags ∧ tag.id = id :=
  ⟨mem_of_find?_eq_some h, by simpa using find?_some h⟩

/-- Neither archived nor an alias. -/
theorem canonical_of_active {tag : TagRow} (h : ¬ (tag.isArchived || tag.redirectToId.isSome) = true) :
    Canonical tag := by
  simp only [Bool.or_eq_true, not_or, Bool.not_eq_true, isSome_eq_false_iff, isNone_iff_eq_none] at h
  exact ⟨h.2, h.1⟩

/-- The id of a new tag is a new one. -/
theorem nodup_append_pending (hids : (tags.map (·.id)).Nodup) (hpending : ∀ tag ∈ tags, tag.id ≠ pendingId)
    {tag : TagRow} (hid : tag.id = pendingId) : ((tags ++ [tag]).map (·.id)).Nodup := by
  rw [map_append]
  refine Nodup.append hids (by simp) fun id hmem hmem' => ?_
  obtain ⟨other, hother, rfl⟩ := List.mem_map.mp hmem
  exact hpending other hother (by simpa [hid] using hmem')

/-- **Outcomes.** A change that is accepted has one of the outcomes. -/
theorem changeTags_outcome {snapshot after : TaxonomySnapshot} {source : TagRow} {aliases : List TagRow}
    {change : TaxonomyChange} {destination : Option TagRow} (h : WellFormed snapshot.tags snapshot.assignments)
    (hsource : source ∈ snapshot.tags) (hpending : ∀ tag ∈ snapshot.tags, tag.id ≠ pendingId)
    (haliases : aliases = snapshot.tags.filter (·.redirectToId = some source.id))
    (hrun : changeTags snapshot source aliases change = .ok (after, destination)) :
    Outcome snapshot source change after destination := by
  subst haliases
  cases change with
  | edit id tag title =>
    dsimp only [changeTags] at hrun
    split at hrun
    · cases hrun
    next hstate =>
      have hcanonical := canonical_of_active hstate
      split at hrun
      next hname =>
        subst hname
        split at hrun
        · cases hrun
        · cases hrun
          rw [updateTag_eq h.ids]
          exact .retitled hcanonical
      next hname =>
        split at hrun
        · cases hrun
        next hfree =>
          cases hrun
          have hfree : ∀ other ∈ snapshot.tags, other.tag ≠ tag := by simpa using hfree
          have hids := nodup_append_pending h.ids hpending
            (show ({ source with id := pendingId, tag, title } : TagRow).id = pendingId from rfl)
          unfold redirectTo
          rw [updateTags_belongs (redirect pendingId) (fun _ => rfl) (fun _ => rfl) hids
            (fun other hother => mem_append_left _ hother) ?_]
          · exact .renamed hcanonical hname hfree
          · intro other hother hredirect
            rcases mem_append.mp hother with hother | hother
            · exact hother
            · obtain rfl := mem_singleton.mp hother
              rw [hcanonical.last] at hredirect
              cases hredirect
  | merge id targetId =>
    dsimp only [changeTags] at hrun
    split at hrun
    · cases hrun
    next hstate =>
      have hcanonical := canonical_of_active hstate
      split at hrun
      · cases hrun
      next destination hfind =>
        obtain ⟨hmem, rfl⟩ := find?_id hfind
        split at hrun
        · cases hrun
        next hdestination =>
          cases hrun
          unfold redirectTo
          rw [updateTags_belongs (redirect destination.id) (fun _ => rfl) (fun _ => rfl) h.ids
            (fun _ hother => hother)
            (fun _ hother _ => hother)]
          exact .merged hcanonical hmem (canonical_of_active hdestination)
  | archive id =>
    dsimp only [changeTags] at hrun
    split at hrun
    · cases hrun
    next hstate =>
      split at hrun
      next hlast =>
        cases hrun
        rw [updateTags_belongs (flag true) (fun _ => rfl) (fun _ => rfl) h.ids (fun _ hother => hother)
          (fun _ hother _ => hother)]
        exact .archived ⟨hlast, by simpa using hstate⟩
      next hredirect =>
        cases hrun
        rw [updateTag_eq h.ids]
        exact .aliasArchived hredirect
  | restore id =>
    dsimp only [changeTags] at hrun
    split at hrun
    · cases hrun
    next hstate =>
      have harchived : source.isArchived = true := by simpa using hstate
      rw [h.canonicalId_ok hsource] at hrun
      cases hredirect : source.redirectToId with
      | none =>
        rw [hredirect] at hrun
        cases hrun
        rw [updateTag_eq h.ids]
        exact .restored harchived fun destination _ hdestination => by
          rw [hredirect] at hdestination
          cases hdestination
      | some next =>
        obtain ⟨target, htarget, rfl, -, -⟩ := h.redirects source hsource next hredirect
        rw [hredirect] at hrun
        simp only [isSome_some, if_true, bind, Except.bind, getD_some, h.find_eq htarget, any_some] at hrun
        by_cases hactive : target.isArchived = true
        · rw [if_pos hactive] at hrun
          cases hrun
        · rw [if_neg hactive] at hrun
          cases hrun
          rw [updateTag_eq h.ids]
          refine .restored harchived fun destination hmem hdestination => ?_
          rw [hredirect] at hdestination
          rw [h.eq_of_id hmem htarget (Option.some.inj hdestination).symm]
          simpa using hactive

end TsEpistle.Taxonomy
