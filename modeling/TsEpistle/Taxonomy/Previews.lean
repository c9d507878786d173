import TsEpistle.Taxonomy.Runs

/-! What the preview of a taxonomy change tells of the rules that it affects. -/

namespace TsEpistle.Taxonomy
open Library Checked List

variable {snapshot after : TaxonomySnapshot} {source : TagRow} {change : TaxonomyChange}
  {destination : Option TagRow}

/-! ## Listed rules -/

theorem mapM_mem {α β ε : Type} {f : α → Except ε β} {l : List α} {r : List β}
    (h : l.mapM f = .ok r) {a : α} (ha : a ∈ l) : ∃ b ∈ r, f a = .ok b := by
  induction l generalizing r with
  | nil => cases ha
  | cons first l ih =>
    rw [mapM_cons] at h
    obtain ⟨b, hb, h⟩ := bind_ok h
    obtain ⟨rest, hrest, h⟩ := bind_ok h
    cases h
    rcases mem_cons.mp ha with rfl | ha
    · exact ⟨b, mem_cons_self, hb⟩
    · obtain ⟨b', hb', hf⟩ := ih hrest ha
      exact ⟨b', mem_cons_of_mem _ hb', hf⟩

variable {rule : Access.AccessRule}

theorem taxonomyRules_lists {names : List JsString} {rules : List TaxonomyRuleImpact}
    (h : taxonomyRules snapshot after names = .ok rules) {group : TagGroup}
    (hgroup : group ∈ snapshot.groups) (hrule : rule ∈ group.pageRules) (htag : rule.match = .TAG)
    (hname : rule.path ∈ names) :
    ∃ impact ∈ rules, ruleImpact snapshot after group rule = .ok impact := by
  obtain ⟨impacts, himpacts, h⟩ := bind_ok h
  cases h
  obtain ⟨listed, hlisted, hgroupRules⟩ := mapM_mem himpacts hgroup
  have hfiltered : rule ∈ group.pageRules.filter fun rule =>
      rule.match = .TAG && names.contains rule.path := by
    simp [hrule, htag, hname]
  obtain ⟨impact, himpact, hrun⟩ := mapM_mem hgroupRules hfiltered
  exact ⟨impact, mem_flatten.mpr ⟨listed, hlisted, himpact⟩, hrun⟩

theorem length_eq_ncard {l : List Int} (h : l.Nodup) {p : Int → Prop} (hp : ∀ page, page ∈ l ↔ p page) :
    l.length = Set.ncard {page | p page} := by
  have hset : {page | p page} = (l.toFinset : Set Int) := by
    ext page
    simp [hp]
  rw [hset, Set.ncard_coe_finset, toFinset_card_of_nodup h]

/-- What the preview tells of a rule. -/
structure Tells (before after : TaxonomySnapshot) (group : TagGroup) (rule : Access.AccessRule)
    (impact : TaxonomyRuleImpact) : Prop where
  ofGroup : impact.groupId = group.id ∧ impact.groupName = group.name
  ofRule : impact.path = rule.path ∧ impact.deny = rule.deny ∧ impact.roles = rule.roles ∧
    impact.locales = rule.locales.getD []
  matchedBefore : impact.before = Set.ncard {page | Matches before rule page}
  matchedAfter : impact.after = Set.ncard {page | Matches after rule page}
  added : impact.added = Set.ncard {page | Matches after rule page ∧ ¬ Matches before rule page}
  removed : impact.removed = Set.ncard {page | Matches before rule page ∧ ¬ Matches after rule page}

/-- The counts are exact, and one of them counts something where the pages of the rule differ. -/
theorem ruleImpact_ok (h : WellFormed snapshot.tags snapshot.assignments)
    (hafter : WellFormed after.tags after.assignments) {group : TagGroup} {impact : TaxonomyRuleImpact}
    (hrun : ruleImpact snapshot after group rule = .ok impact) : Tells snapshot after group rule impact ∧
    ((∃ page, ¬ (Matches snapshot rule page ↔ Matches after rule page)) → 0 < impact.added ∨ 0 < impact.removed) := by
  obtain ⟨previous, hprevious, hpreviousNodup, hpreviousMem⟩ := ruleMatches_ok h rule
  obtain ⟨next, hnext, hnextNodup, hnextMem⟩ := ruleMatches_ok hafter rule
  unfold ruleImpact at hrun
  rw [hprevious, hnext] at hrun
  cases hrun
  have hadded : ∀ page, page ∈ next.filter (fun id => !previous.contains id)
      ↔ Matches after rule page ∧ ¬ Matches snapshot rule page := by
    intro page
    simp [hnextMem, hpreviousMem]
  have hremoved : ∀ page, page ∈ previous.filter (fun id => !next.contains id)
      ↔ Matches snapshot rule page ∧ ¬ Matches after rule page := by
    intro page
    simp [hnextMem, hpreviousMem]
  refine ⟨⟨⟨rfl, rfl⟩, ⟨rfl, rfl, rfl, rfl⟩, length_eq_ncard hpreviousNodup hpreviousMem,
    length_eq_ncard hnextNodup hnextMem, length_eq_ncard (hnextNodup.filter _) hadded,
    length_eq_ncard (hpreviousNodup.filter _) hremoved⟩, ?_⟩
  rintro ⟨page, hdiffers⟩
  by_cases hbefore : Matches snapshot rule page
  · exact .inr (length_pos_of_mem ((hremoved page).mpr ⟨hbefore, fun hnow => hdiffers (by tauto)⟩))
  · exact .inl (length_pos_of_mem ((hadded page).mpr ⟨by tauto, hbefore⟩))

/-! ## Affected rules -/

/-- A name whose tag and canonical tag are kept stands for the same tag. -/
theorem resolves_kept {tags added : List TagRow} {assignments assignments' : List TagAssignment}
    {f : TagRow → TagRow} {name : JsString} (h : WellFormed tags assignments)
    (h' : WellFormed (tags.map f ++ added) assignments') (hname : ∀ tag, (f tag).tag = tag.tag)
    (hadded : ∀ row ∈ added, row.tag ≠ name)
    (hkeep : ∀ tag ∈ tags, tag.tag = name → f tag = tag ∧
      ∀ canonical, LeadsTo tags tag canonical → f canonical = canonical) (canonical : TagRow) :
    Resolves (tags.map f ++ added) name canonical ↔ Resolves tags name canonical := by
  have hmem : ∀ {tag : TagRow}, tag ∈ tags → f tag = tag → tag ∈ tags.map f ++ added :=
    fun htag hsame => mem_append_left _ (mem_map.mpr ⟨_, htag, hsame⟩)
  constructor
  · rintro ⟨tag', htag', rfl, hactive, hleads⟩
    rcases mem_append.mp htag' with htag' | htag'
    · obtain ⟨tag, htag, rfl⟩ := mem_map.mp htag'
      obtain ⟨hsame, hcanonical⟩ := hkeep tag htag (hname tag).symm
      rw [hsame] at hactive hleads ⊢
      obtain ⟨kept, hkept⟩ := h.leads htag
      have hboth : canonical = kept :=
        h'.eq_of_id hleads.mem (hmem hkept.mem (hcanonical kept hkept))
          (hleads.id.trans hkept.id.symm)
      rw [hboth]
      exact ⟨tag, htag, rfl, hactive, hkept⟩
    · exact absurd rfl (hadded tag' htag')
  · rintro ⟨tag, htag, rfl, hactive, hleads⟩
    obtain ⟨hsame, hcanonical⟩ := hkeep tag htag rfl
    exact ⟨tag, hmem htag hsame, rfl, hactive, hmem hleads.mem (hcanonical canonical hleads),
      hleads.last, hleads.id, hleads.active⟩

/-- The canonical tag of a tag that is neither the source nor an alias of it is no other. -/
theorem LeadsTo.not_belongs {tags : List TagRow} {tag canonical : TagRow} (h : LeadsTo tags tag canonical)
    (htag : ¬ Belongs source tag) : ¬ Belongs source canonical := by
  rintro (hsame | hredirect)
  · refine htag ?_
    have hlead := h.id
    cases hredirect : tag.redirectToId with
    | none =>
      rw [hredirect] at hlead
      exact .inl (hlead.symm.trans hsame)
    | some next =>
      rw [hredirect] at hlead
      exact .inr (hredirect.trans (congrArg some (hlead.symm.trans hsame)))
  · rw [h.last] at hredirect
    cases hredirect

/-- The tags of a name that the preview leaves out do not belong to the source, and lead to no
destination. -/
theorem not_mem_impactNames {beforeMap afterMap : AliasMap} {name : JsString}
    (h : name ∉ impactNames snapshot source
      (snapshot.tags.filter (·.redirectToId = some source.id)) destination beforeMap afterMap) :
    (∀ {tag}, tag ∈ snapshot.tags → tag.tag = name → ¬ Belongs source tag ∧
      ∀ row, destination = some row → afterMap.get tag.tag ≠ some (some row.tag)) ∧
    ∀ row, destination = some row → row.tag ≠ name := by
  unfold impactNames at h
  rw [mem_append, not_or] at h
  refine ⟨fun {tag} htag htagName => ?_, fun row hrow hrowName => h.2 (by simp [hrow, hrowName])⟩
  have hnot : ¬ ((tag.id = source.id ∨ tag.redirectToId = some source.id)
      ∨ ∃ row, destination = some row ∧ afterMap.get tag.tag = some (some row.tag)) := by
    intro hlisted
    refine h.1 (mem_map.mpr ⟨tag, mem_filter.mpr ⟨htag, ?_⟩, htagName⟩)
    simp only [Bool.or_eq_true, decide_eq_true_eq, any_eq_true, Option.any_eq_true]
    rcases hlisted with (hsame | hredirect) | ⟨row, hrow, hget⟩
    · exact .inl (.inl (.inl hsame))
    · refine .inl (.inl (.inr ⟨tag, mem_filter.mpr ⟨htag, ?_⟩, rfl⟩))
      simpa using hredirect
    · exact .inr ⟨row, hrow, hget⟩
  exact ⟨fun hbelongs => hnot (.inl hbelongs), fun row hrow hget => hnot (.inr ⟨row, hrow, hget⟩)⟩

/-- **Completeness of the names.** The pages of a rule whose name is not among those of the preview
stay the same. -/
theorem Outcome.unaffected (h : WellFormed snapshot.tags snapshot.assignments)
    (hsource : source ∈ snapshot.tags) (hpending : ∀ tag ∈ snapshot.tags, tag.id ≠ pendingId)
    (hid : source.id = change.tagId) (houtcome : Outcome snapshot source change after destination)
    (hafter : WellFormed after.tags after.assignments) {beforeMap afterMap : AliasMap}
    (hafterMap : tagAliasMap after.tags = .ok afterMap)
    (hname : rule.path ∉ impactNames snapshot source
      (snapshot.tags.filter (·.redirectToId = some source.id)) destination beforeMap afterMap)
    (page : Int) : Matches snapshot rule page ↔ Matches after rule page := by
  obtain ⟨f, hf, hrows, -, hkeep⟩ := houtcome.rows hpending hsource
  have hretagged := houtcome.retagged h hsource hpending hid
  obtain ⟨hunlisted, hadded⟩ := not_mem_impactNames hname
  have hcanonical : ∀ {tag canonical : TagRow}, tag ∈ snapshot.tags → tag.tag = rule.path →
      LeadsTo snapshot.tags tag canonical → ¬ Belongs source canonical :=
    fun htag htagName hleads => hleads.not_belongs (hunlisted htag htagName).1
  have hresolves : ∀ canonical, Resolves after.tags rule.path canonical
      ↔ Resolves snapshot.tags rule.path canonical := by
    intro canonical
    rw [hrows]
    rw [hrows] at hafter
    refine resolves_kept h hafter (fun tag => (hf tag).2) ?_ ?_ canonical
    · intro row hrow hrowName
      rw [Option.mem_toList, Option.filter_eq_some_iff] at hrow
      exact hadded row hrow.1 hrowName
    · intro tag htag htagName
      exact ⟨hkeep tag (hunlisted htag htagName).1, fun canonical hleads =>
        hkeep canonical (hcanonical htag htagName hleads)⟩
  have hassigned : ∀ canonical, Resolves snapshot.tags rule.path canonical →
      ((⟨page, canonical.id⟩ : TagAssignment) ∈ snapshot.assignments
        ↔ (⟨page, canonical.id⟩ : TagAssignment) ∈ after.assignments) := by
    rintro canonical hresolved
    obtain ⟨tag, htag, htagName, hactive, hleads⟩ := id hresolved
    constructor
    · intro hmem
      by_contra hlost
      exact hcanonical htag htagName hleads (.inl ((hretagged.lost _ hmem hlost).1.trans hid.symm))
    · intro hmem
      by_contra hnew
      rcases (hretagged.gained _ hmem hnew).2 with ⟨-, hto⟩ | ⟨-, id, hmerge⟩
      · exact hpending canonical hleads.mem hto
      · obtain ⟨aliases, haliases, hget⟩ := hafter.tagAliasMap_ok
        rw [hafterMap] at haliases
        cases haliases
        have hdestination : ∃ row, destination = some row ∧ row.tag = canonical.tag := by
          cases houtcome with
          | merged hcanonicalSource hmemRow hrow =>
            refine ⟨_, rfl, congrArg TagRow.tag (h.eq_of_id hmemRow hleads.mem ?_)⟩
            exact (TaxonomyChange.merge.inj hmerge).2
          | retitled | renamed | archived | aliasArchived | restored => cases hmerge
        obtain ⟨row, hrow, hrowTag⟩ := hdestination
        refine (hunlisted htag htagName).2 row hrow ?_
        rw [htagName, hget]
        exact ⟨canonical, (hresolves canonical).mpr hresolved, hrowTag.symm⟩
  have hpages : after.pages = snapshot.pages := by
    cases houtcome <;> rfl
  unfold Matches
  rw [hpages]
  refine and_congr_right fun _ => exists_congr fun canonical => ?_
  rw [hresolves canonical]
  exact and_congr_right fun hresolved => and_congr_right fun _ => hassigned canonical hresolved

/-! ## Renames and merges -/

/-- The names of a source and its aliases stand for the destination, the others for the same tag. -/
theorem resolves_moved {tags : List TagRow} {assignments : List TagAssignment} {destination canonical : TagRow}
    {name : JsString} (h : WellFormed tags assignments) (hsource : source ∈ tags) (hlast : source.redirectToId = none)
    (hmem : destination ∈ tags) (hdestination : Canonical destination) (hne : destination.id ≠ source.id)
    (hresolves : Resolves tags name canonical) : ∃ canonical',
    Resolves (changeWhere (Belongs source) (redirect destination.id) tags) name canonical' ∧
    (canonical' = canonical ∧ canonical.id ≠ source.id ∨ canonical' = destination ∧ canonical.id = source.id) := by
  have hkeep : ∀ {tag : TagRow}, tag ∈ tags → tag.redirectToId = none → tag.id ≠ source.id →
      tag ∈ changeWhere (Belongs source) (redirect destination.id) tags := by
    intro tag htag htagLast hid
    refine mem_map.mpr ⟨tag, htag, if_neg ?_⟩
    rintro (hid' | hredirect)
    · exact hid hid'
    · rw [htagLast] at hredirect
      cases hredirect
  obtain ⟨tag, htag, rfl, hactive, hleads⟩ := hresolves
  by_cases hbelongs : Belongs source tag
  · refine ⟨destination, ⟨redirect destination.id tag, mem_map.mpr ⟨tag, htag, if_pos hbelongs⟩,
      rfl, hactive, hkeep hmem hdestination.last hne, hdestination.last, rfl,
      fun _ => hdestination.active⟩, .inr ⟨rfl, ?_⟩⟩
    rw [hleads.id]
    rcases hbelongs with hsame | hredirect
    · rw [h.eq_of_id htag hsource hsame, hlast]
      rfl
    · rw [hredirect]
      rfl
  · have hother : canonical.id ≠ source.id := by
      intro hsame
      refine hbelongs ?_
      have hlead := hleads.id
      cases hredirect : tag.redirectToId with
      | none =>
        rw [hredirect] at hlead
        exact .inl (hlead.symm.trans hsame)
      | some next =>
        rw [hredirect] at hlead
        exact .inr (hredirect.trans (congrArg some (hlead.symm.trans hsame)))
    exact ⟨canonical, ⟨tag, mem_map.mpr ⟨tag, htag, if_neg hbelongs⟩, rfl, hactive,
      hkeep hleads.mem hleads.last hother, hleads.last, hleads.id, hleads.active⟩,
      .inl ⟨rfl, hother⟩⟩

theorem matches_moved {tags : List TagRow} {destination : TagRow} {page : Int}
    (h : WellFormed tags snapshot.assignments) (hsource : source ∈ tags)
    (hlast : source.redirectToId = none) (hmem : destination ∈ tags)
    (hdestination : Canonical destination) (hne : destination.id ≠ source.id)
    (hnamed : destination.tag ≠ []) (hmatches : Matches { snapshot with tags } rule page) :
    Matches { snapshot with
      tags := changeWhere (Belongs source) (redirect destination.id) tags
      assignments := moveAssignments source.id destination.id snapshot.assignments } rule page := by
  obtain ⟨hpage, canonical, hresolves, hname, hassigned⟩ := hmatches
  obtain ⟨canonical', hresolves', hwhich⟩ := resolves_moved h hsource hlast hmem hdestination hne hresolves
  refine ⟨hpage, canonical', hresolves', ?_⟩
  rcases hwhich with ⟨rfl, hother⟩ | ⟨rfl, hsame⟩
  · exact ⟨hname, mem_moveAssignments.mpr (.inl ⟨hother, hassigned⟩)⟩
  · rw [hsame] at hassigned
    exact ⟨hnamed, mem_moveAssignments.mpr (.inr ⟨rfl, hassigned⟩)⟩

theorem resolves_retitled {tags : List TagRow} {title name : JsString} {id : Int}
    {canonical : TagRow} (h : Resolves tags name canonical) :
    ∃ canonical', Resolves (changeWhere (·.id = id) (retitle title) tags) name canonical' ∧
      canonical'.id = canonical.id ∧ canonical'.tag = canonical.tag := by
  obtain ⟨tag, htag, rfl, hactive, hleads⟩ := h
  have hsame : ∀ tag : TagRow,
      ((if tag.id = id then retitle title tag else tag).id = tag.id
        ∧ (if tag.id = id then retitle title tag else tag).tag = tag.tag)
      ∧ (if tag.id = id then retitle title tag else tag).redirectToId = tag.redirectToId
        ∧ (if tag.id = id then retitle title tag else tag).isArchived = tag.isArchived := by
    intro tag
    split <;> exact ⟨⟨rfl, rfl⟩, rfl, rfl⟩
  obtain ⟨⟨hid, hname⟩, hredirect, hflag⟩ := hsame tag
  obtain ⟨⟨hid', hname'⟩, hredirect', hflag'⟩ := hsame canonical
  refine ⟨_, ⟨_, mem_map.mpr ⟨tag, htag, rfl⟩, hname, hflag.trans hactive,
    mem_map.mpr ⟨canonical, hleads.mem, rfl⟩, hredirect'.trans hleads.last, ?_, ?_⟩, hid', hname'⟩
  · rw [hid', hid, hredirect, hleads.id]
  · rw [hflag, hflag']
    exact hleads.active

/-- A change that gives names to the tags of a destination. -/
def TaxonomyChange.Named : TaxonomyChange → Prop
  | edit _ tag _ => tag ≠ []
  | _ => True

theorem taxonomyChange_named {toLowerCase : JsString → JsString} {input : TaxonomyChange}
    (h : taxonomyChange toLowerCase input = .ok change) : change.Named := by
  unfold taxonomyChange at h
  split at h
  · cases h
  split at h
  · obtain ⟨⟨tag, title⟩, hdefinition, h⟩ := bind_ok h
    cases h
    obtain ⟨name, hname, hdefinition⟩ := bind_ok hdefinition
    split at hdefinition
    · cases hdefinition
    cases hdefinition
    unfold tagName at hname
    dsimp only at hname
    split at hname
    · cases hname
    next hvalid =>
      cases hname
      simp only [Bool.or_eq_true, decide_eq_true_eq, not_or] at hvalid
      exact hvalid.1.1
  · split at h
    · cases h
    · cases h
      trivial
  · cases h
    trivial
  · cases h
    trivial

/-- An edit or a merge. -/
def TaxonomyChange.KeepsPages : TaxonomyChange → Prop
  | edit .. | merge .. => True
  | archive _ | restore _ => False

theorem taxonomyChange_keepsPages {toLowerCase : JsString → JsString} {input : TaxonomyChange}
    (h : taxonomyChange toLowerCase input = .ok change) (hkeeps : input.KeepsPages) : change.KeepsPages := by
  unfold taxonomyChange at h
  split at h
  · cases h
  split at h
  · obtain ⟨⟨tag, title⟩, -, h⟩ := bind_ok h
    cases h
    trivial
  · split at h
    · cases h
    · cases h
      trivial
  · cases hkeeps
  · cases hkeeps

/-- **Renames and merges.** No rule loses a page. -/
theorem Outcome.keeps (h : WellFormed snapshot.tags snapshot.assignments) (hsource : source ∈ snapshot.tags)
    (hpending : ∀ tag ∈ snapshot.tags, tag.id ≠ pendingId) (hapart : Apart source change) (hnamed : change.Named)
    (htags : ∀ tag ∈ snapshot.tags, tag.tag ≠ []) (hkeeps : change.KeepsPages)
    (houtcome : Outcome snapshot source change after destination) {page : Int} (hmatches : Matches snapshot rule page) :
    Matches after rule page := by
  cases houtcome with
  | archived | aliasArchived | restored => exact hkeeps.elim
  | retitled hcanonical =>
    obtain ⟨hpage, canonical, hresolves, hname, hassigned⟩ := hmatches
    obtain ⟨canonical', hresolves', hid, htag⟩ := resolves_retitled hresolves
    exact ⟨hpage, canonical', hresolves', htag ▸ hname, hid ▸ hassigned⟩
  | merged hcanonical hmem hdestination =>
    exact matches_moved h hsource hcanonical.last hmem hdestination hapart (htags _ hmem) hmatches
  | @renamed id tag title hcanonical hname hfree =>
    have hadded : WellFormed (snapshot.tags ++ [{ source with id := pendingId, tag, title }])
        snapshot.assignments :=
      h.add ⟨hcanonical.last, hcanonical.active⟩ hpending hfree
    have hmore : Matches { snapshot with
        tags := snapshot.tags ++ [{ source with id := pendingId, tag, title }] } rule page := by
      obtain ⟨hpage, canonical, ⟨named, hmemNamed, hnamedTag, hactive, hleads⟩, hrest⟩ := hmatches
      exact ⟨hpage, canonical, ⟨named, mem_append_left _ hmemNamed, hnamedTag, hactive,
        mem_append_left _ hleads.mem, hleads.last, hleads.id, hleads.active⟩, hrest⟩
    exact matches_moved hadded (mem_append_left _ hsource) hcanonical.last
      (mem_append_right _ (mem_singleton_self _))
      ⟨hcanonical.last, hcanonical.active⟩ (hpending source hsource).symm hnamed hmore

/-- A change leaves no tag without a name. -/
theorem Outcome.named (hnamed : change.Named) (htags : ∀ tag ∈ snapshot.tags, tag.tag ≠ [])
    (houtcome : Outcome snapshot source change after destination) : ∀ tag ∈ after.tags, tag.tag ≠ [] := by
  have hchange : ∀ (condition : TagRow → Prop) [DecidablePred condition] (f : TagRow → TagRow) (tags : List TagRow),
      (∀ tag, (f tag).tag = tag.tag) → (∀ tag ∈ tags, tag.tag ≠ []) →
        ∀ tag ∈ changeWhere condition f tags, tag.tag ≠ [] := by
    intro condition _ f tags hf hall tag htag
    obtain ⟨other, hother, rfl⟩ := mem_map.mp htag
    split
    · exact hf other ▸ hall other hother
    · exact hall other hother
  cases houtcome with
  | renamed =>
    refine hchange _ _ _ (fun _ => rfl) fun tag htag => ?_
    rcases mem_append.mp htag with htag | htag
    · exact htags tag htag
    · rw [mem_singleton.mp htag]
      exact hnamed
  | retitled | merged | archived | aliasArchived | restored => exact hchange _ _ _ (fun _ => rfl) htags

theorem planPreview_rules {plan : TaxonomyPlan} {inventory : List TaxonomyTag}
    {source : TaxonomyTag} {aliases : List TagRow}
    (h : planPreview snapshot change inventory source aliases after destination = .ok plan) :
    ∃ beforeMap afterMap, tagAliasMap after.tags = .ok afterMap ∧
      taxonomyRules snapshot after
        (impactNames snapshot source.toTagRow aliases destination beforeMap afterMap)
        = .ok plan.preview.rules ∧
      plan.preview.accessChanges = plan.preview.rules.any fun rule => 0 < rule.added || 0 < rule.removed := by
  obtain ⟨beforeMap, -, h⟩ := bind_ok h
  obtain ⟨afterMap, hafterMap, h⟩ := bind_ok h
  obtain ⟨rules, hrules, h⟩ := bind_ok h
  obtain ⟨afterInventory, -, h⟩ := bind_ok h
  cases h
  exact ⟨beforeMap, afterMap, hafterMap, hrules, rfl⟩

/-- **Previews.** A rule whose pages an accepted change alters is listed with its exact counts, and
the preview says that access changes; and where every tag has a name it still has one, and an edit
or a merge takes no page from a rule. -/
theorem preview_complete {toLowerCase : JsString → JsString} {input : TaxonomyChange}
    {plan : TaxonomyPlan} (h : WellFormed snapshot.tags snapshot.assignments)
    (hids : ∀ tag ∈ snapshot.tags, 1 ≤ tag.id)
    (hrun : planTaxonomy toLowerCase snapshot input = .ok plan) :
    (∀ group ∈ snapshot.groups, ∀ rule ∈ group.pageRules, rule.match = .TAG →
      (∃ page, ¬ (Matches snapshot rule page ↔ Matches plan.after rule page)) →
      plan.preview.accessChanges = true ∧ ∃ impact ∈ plan.preview.rules, Tells snapshot plan.after group rule impact) ∧
    ((∀ tag ∈ snapshot.tags, tag.tag ≠ []) → (∀ tag ∈ plan.after.tags, tag.tag ≠ []) ∧
      (input.KeepsPages → ∀ rule page, Matches snapshot rule page → Matches plan.after rule page)) := by
  have hpending : ∀ tag ∈ snapshot.tags, tag.id ≠ pendingId := by
    intro tag htag hid
    have := hids tag htag
    rw [hid] at this
    exact absurd this (by decide)
  obtain ⟨change, inventory, source, destination, hplanned⟩ := planTaxonomy_ok h hpending hrun
  have hafter := hplanned.wellFormed h hpending
  have hapart := taxonomyChange_apart hplanned.asked hplanned.id
  constructor
  · intro group hgroup rule hrule htag hdiffers
    obtain ⟨beforeMap, afterMap, hafterMap, hrules, haccess⟩ := planPreview_rules hplanned.preview
    have hlisted : rule.path ∈ impactNames snapshot source.toTagRow
        (snapshot.tags.filter (·.redirectToId = some source.id)) destination beforeMap afterMap := by
      by_contra hunlisted
      obtain ⟨page, hpage⟩ := hdiffers
      exact hpage (hplanned.outcome.unaffected h hplanned.mem hpending hplanned.id hafter hafterMap hunlisted page)
    obtain ⟨impact, himpact, himpactRun⟩ := taxonomyRules_lists hrules hgroup hrule htag hlisted
    obtain ⟨htells, hcounts⟩ := ruleImpact_ok h hafter himpactRun
    refine ⟨?_, impact, himpact, htells⟩
    rw [haccess]
    refine any_eq_true.mpr ⟨impact, himpact, ?_⟩
    simpa using hcounts hdiffers
  · intro htags
    refine ⟨hplanned.outcome.named (taxonomyChange_named hplanned.asked) htags, fun hkeeps rule page hmatches => ?_⟩
    exact hplanned.outcome.keeps h hplanned.mem hpending hapart
      (taxonomyChange_named hplanned.asked) htags
      (taxonomyChange_keepsPages hplanned.asked hkeeps) hmatches

/-- A merge of tag 1 into tag 2: the rule of tag 2 keeps page 11 and gets page 10. -/
theorem preview_complete_example :
    let rule : Access.AccessRule := ⟨none, .TAG, js "web", false, [], none⟩
    ∃ plan, planTaxonomy id (readTaxonomySnapshot exampleStore) (.merge 1 2) = .ok plan ∧
      Matches plan.after rule 11 ∧ plan.preview.accessChanges = true ∧ ∃ impact ∈ plan.preview.rules,
        Tells (readTaxonomySnapshot exampleStore) plan.after ⟨1, js "readers", [rule]⟩ rule impact := by
  intro rule
  have hok : (planTaxonomy id (readTaxonomySnapshot exampleStore) (.merge 1 2)).toOption.map
      (fun plan => ruleMatches plan.after rule) = some (.ok [10, 11]) := by
    decide
  cases hrun : planTaxonomy id (readTaxonomySnapshot exampleStore) (.merge 1 2) with
  | error e =>
    rw [hrun] at hok
    cases hok
  | ok plan =>
    rw [hrun] at hok
    have hstore := exampleStore_wellFormed
    have htags : WellFormed (readTaxonomySnapshot exampleStore).tags
        (readTaxonomySnapshot exampleStore).assignments := hstore.tags
    obtain ⟨hlisted, hkept⟩ := preview_complete htags hstore.ids hrun
    obtain ⟨change, _, source, _, hplanned⟩ := planTaxonomy_ok htags hstore.pending hrun
    obtain ⟨before, hbefore, -, hmem⟩ := ruleMatches_ok htags rule
    obtain ⟨pages, hpages, -, hmem'⟩ := ruleMatches_ok (hplanned.wellFormed htags hstore.pending) rule
    obtain rfl : [11] = before := Except.ok.inj (Eq.trans (by decide) hbefore)
    obtain rfl : [10, 11] = pages := Except.ok.inj ((Option.some.inj hok).symm.trans hpages)
    have hdiffers : ¬ (Matches (readTaxonomySnapshot exampleStore) rule 10 ↔ Matches plan.after rule 10) := by
      rw [← hmem, ← hmem']
      decide
    exact ⟨plan, rfl, (hkept (by decide)).2 trivial _ _ ((hmem 11).mp (by decide)),
      hlisted _ (by decide) rule (by decide) rfl ⟨10, hdiffers⟩⟩

end TsEpistle.Taxonomy
