import TsEpistle.Taxonomy.Plans
import TsEpistle.Library.Checked

/-! Well-formed tags: what the lookups answer for them. -/

namespace TsEpistle.Taxonomy
open Library List

/-- Unique ids and names, redirects of one step to a tag that does not redirect and is active where
the alias is, and assignments to active tags that do not redirect. -/
structure WellFormed (tags : List TagRow) (assignments : List TagAssignment) : Prop where
  ids : (tags.map (·.id)).Nodup
  names : (tags.map (·.tag)).Nodup
  redirects : ∀ tag ∈ tags, ∀ id, tag.redirectToId = some id → ∃ destination ∈ tags,
    destination.id = id ∧ destination.redirectToId = none ∧ (tag.isArchived = false → destination.isArchived = false)
  assigned : ∀ assignment ∈ assignments, ∃ tag ∈ tags, tag.id = assignment.tagId ∧
    tag.redirectToId = none ∧ tag.isArchived = false

/-- A tag and the one that it leads to. -/
structure LeadsTo (tags : List TagRow) (tag canonical : TagRow) : Prop where
  mem : canonical ∈ tags
  last : canonical.redirectToId = none
  id : canonical.id = tag.redirectToId.getD tag.id
  active : tag.isArchived = false → canonical.isArchived = false

/-- The tag that a name stands for. -/
def Resolves (tags : List TagRow) (name : JsString) (canonical : TagRow) : Prop :=
  ∃ tag ∈ tags, tag.tag = name ∧ tag.isArchived = false ∧ LeadsTo tags tag canonical

theorem find?_unique {α : Type} {l : List α} {p : α → Bool} {a : α} (ha : a ∈ l) (hp : p a = true)
    (hunique : ∀ b ∈ l, p b = true → b = a) : l.find? p = some a := by
  cases hfind : l.find? p with
  | none => exact absurd hp (find?_eq_none.mp hfind a ha)
  | some b =>
    rw [hunique b (mem_of_find?_eq_some hfind) (find?_some hfind)]

theorem mapM_ok {α β ε : Type} {f : α → Except ε β} {g : α → β} {l : List α}
    (h : ∀ a ∈ l, f a = .ok (g a)) : l.mapM f = .ok (l.map g) := by
  induction l with
  | nil => rfl
  | cons a l ih =>
    rw [forall_mem_cons] at h
    rw [mapM_cons, h.1, ih h.2]
    rfl

namespace WellFormed

variable {tags : List TagRow} {assignments : List TagAssignment} (h : WellFormed tags assignments)
include h

theorem eq_of_id {tag tag' : TagRow} (htag : tag ∈ tags) (htag' : tag' ∈ tags) (hid : tag.id = tag'.id) : tag = tag' :=
  inj_on_of_nodup_map h.ids htag htag' hid

theorem eq_of_name {tag tag' : TagRow} (htag : tag ∈ tags) (htag' : tag' ∈ tags)
    (hname : tag.tag = tag'.tag) : tag = tag' :=
  inj_on_of_nodup_map h.names htag htag' hname

theorem byId_eq {tag : TagRow} (htag : tag ∈ tags) : byId tags tag.id = some tag := by
  refine find?_unique (mem_reverse.mpr htag) (by simp) fun other hother hid => ?_
  exact h.eq_of_id (mem_reverse.mp hother) htag (by simpa using hid)

theorem find_eq {tag : TagRow} (htag : tag ∈ tags) : tags.find? (·.id = tag.id) = some tag :=
  find?_unique htag (by simp) fun _ hother hid => h.eq_of_id hother htag (by simpa using hid)

theorem leads {tag : TagRow} (htag : tag ∈ tags) : ∃ canonical, LeadsTo tags tag canonical := by
  cases hredirect : tag.redirectToId with
  | none => exact ⟨tag, htag, hredirect, by simp [hredirect], id⟩
  | some id =>
    obtain ⟨canonical, hmem, hid, hlast, hactive⟩ := h.redirects tag htag id hredirect
    exact ⟨canonical, hmem, hlast, by simp [hredirect, hid], hactive⟩

theorem leads_unique {tag canonical canonical' : TagRow} (hleads : LeadsTo tags tag canonical)
    (hleads' : LeadsTo tags tag canonical') : canonical = canonical' :=
  h.eq_of_id hleads.mem hleads'.mem (hleads.id.trans hleads'.id.symm)

theorem resolves_unique {name : JsString} {canonical canonical' : TagRow} (hresolves : Resolves tags name canonical)
    (hresolves' : Resolves tags name canonical') : canonical = canonical' := by
  obtain ⟨tag, htag, hname, -, hleads⟩ := hresolves
  obtain ⟨tag', htag', hname', -, hleads'⟩ := hresolves'
  obtain rfl := h.eq_of_name htag htag' (hname.trans hname'.symm)
  exact h.leads_unique hleads hleads'

theorem canonicalId_ok {tag : TagRow} (htag : tag ∈ tags) :
    canonicalId tags tag.id = .ok (tag.redirectToId.getD tag.id) := by
  obtain ⟨canonical, hleads⟩ := h.leads htag
  unfold canonicalId
  rw [h.byId_eq htag]
  unfold canonicalFrom
  cases hredirect : tag.redirectToId with
  | none => rfl
  | some id =>
    have hid : canonical.id = id := by simpa [hredirect] using hleads.id
    have hlength := length_pos_of_mem htag
    obtain ⟨steps, hsteps⟩ : ∃ steps, tags.length = steps + 1 := ⟨tags.length - 1, by omega⟩
    rw [hsteps, ← hid]
    dsimp only
    rw [h.byId_eq hleads.mem]
    unfold canonicalFrom
    simp [hleads.last]

theorem activeDestination_ok {tag canonical : TagRow} (htag : tag ∈ tags) (hactive : tag.isArchived = false)
    (hleads : LeadsTo tags tag canonical) : activeDestination tags tags.length [] tag = .ok canonical := by
  unfold activeDestination
  cases hredirect : tag.redirectToId with
  | none =>
    have hid : canonical.id = tag.id := by simpa [hredirect] using hleads.id
    rw [h.eq_of_id hleads.mem htag hid]
  | some id =>
    have hid : canonical.id = id := by simpa [hredirect] using hleads.id
    have hlength := length_pos_of_mem htag
    obtain ⟨steps, hsteps⟩ : ∃ steps, tags.length = steps + 1 := ⟨tags.length - 1, by omega⟩
    rw [hsteps, ← hid]
    dsimp only
    rw [h.byId_eq hleads.mem]
    unfold activeDestination
    simp [hleads.last, hleads.active hactive]

/-- **Aliases.** The map gives the name of the tag that a name stands for, and `null` to archived
names. -/
theorem tagAliasMap_ok : ∃ aliases, tagAliasMap tags = .ok aliases ∧ ∀ name name',
    aliases.get name = some (some name') ↔ ∃ canonical, Resolves tags name canonical ∧ canonical.tag = name' := by
  have hvalue : ∀ tag ∈ tags, (if tag.isArchived then .ok (tag.tag, none)
      else (activeDestination tags tags.length [] tag).map fun current =>
        (tag.tag, some current.tag))
      = (.ok (tag.tag, if tag.isArchived then none
          else (byId tags (tag.redirectToId.getD tag.id)).map (·.tag)) :
        Except TaxonomyError (JsString × Option JsString)) := by
    intro tag htag
    obtain ⟨canonical, hleads⟩ := h.leads htag
    by_cases harchived : tag.isArchived = true
    · rw [if_pos harchived, if_pos harchived]
    · rw [if_neg harchived, if_neg harchived,
        h.activeDestination_ok htag (by simpa using harchived) hleads, ← hleads.id,
        h.byId_eq hleads.mem]
      rfl
  refine ⟨_, mapM_ok hvalue, fun name name' => ?_⟩
  rw [AliasMap.get, Option.map_eq_some_iff]
  constructor
  · rintro ⟨⟨found, value⟩, hfound, rfl⟩
    have hname : found = name := by simpa using find?_some hfound
    obtain ⟨tag, htag, heq⟩ := mem_map.mp (mem_reverse.mp (mem_of_find?_eq_some hfound))
    obtain ⟨rfl, hvalue⟩ := Prod.mk.inj heq
    obtain ⟨canonical, hleads⟩ := h.leads htag
    by_cases harchived : tag.isArchived = true
    · rw [if_pos harchived] at hvalue
      cases hvalue
    · rw [if_neg harchived, ← hleads.id, h.byId_eq hleads.mem] at hvalue
      exact ⟨canonical, ⟨tag, htag, hname, by simpa using harchived, hleads⟩, by simpa using hvalue⟩
  · rintro ⟨canonical, ⟨tag, htag, rfl, hactive, hleads⟩, rfl⟩
    refine ⟨(tag.tag, some canonical.tag), find?_unique ?_ (by simp) ?_, rfl⟩
    · refine mem_reverse.mpr (mem_map.mpr ⟨tag, htag, ?_⟩)
      simp [hactive, ← hleads.id, h.byId_eq hleads.mem]
    · intro entry hentry hname
      obtain ⟨other, hother, rfl⟩ := mem_map.mp (mem_reverse.mp hentry)
      obtain rfl := h.eq_of_name hother htag (by simpa using hname)
      simp [hactive, ← hleads.id, h.byId_eq hleads.mem]

theorem redirect_ne_self {tag : TagRow} (htag : tag ∈ tags) : tag.redirectToId ≠ some tag.id := by
  intro hredirect
  obtain ⟨destination, hmem, hid, hlast, -⟩ := h.redirects tag htag tag.id hredirect
  rw [h.eq_of_id hmem htag hid, hredirect] at hlast
  cases hlast

theorem aliasesOf_ok {source : TagRow} (hsource : source ∈ tags) {rest : List TagRow}
    (hrest : ∀ tag ∈ rest, tag ∈ tags) :
    aliasesOf tags source.id rest = .ok (rest.filter (·.redirectToId = some source.id)) := by
  induction rest with
  | nil => rfl
  | cons tag rest ih =>
    rw [forall_mem_cons] at hrest
    unfold aliasesOf
    rw [ih hrest.2, h.canonicalId_ok hrest.1]
    split
    next hid =>
      obtain rfl := h.eq_of_id hrest.1 hsource hid
      simp [h.redirect_ne_self hsource]
    next hid =>
      cases hredirect : tag.redirectToId with
      | none => simp [hredirect, hid, bind, Except.bind, pure, Except.pure]
      | some next => by_cases hnext : next = source.id <;>
          simp [hredirect, hnext, bind, Except.bind, pure, Except.pure]

end WellFormed

/-! ## Inventory and rules -/

variable {snapshot : TaxonomySnapshot} (h : WellFormed snapshot.tags snapshot.assignments)
include h

theorem taxonomyInventory_ok : ∃ inventory, taxonomyInventory snapshot = .ok inventory ∧
    inventory.map (·.toTagRow) = snapshot.tags := by
  obtain ⟨aliases, haliases, -⟩ := h.tagAliasMap_ok
  have htag : ∀ tag ∈ snapshot.tags,
      (inventoryTag snapshot aliases tag).map (·.toTagRow) = .ok tag := by
    intro tag htag
    unfold inventoryTag
    rw [h.canonicalId_ok htag]
    rfl
  have hall : ∀ tags : List TagRow, (∀ tag ∈ tags, tag ∈ snapshot.tags) →
      ∃ inventory, tags.mapM (inventoryTag snapshot aliases) = .ok inventory ∧ inventory.map (·.toTagRow) = tags := by
    intro tags htags
    induction tags with
    | nil => exact ⟨[], rfl, rfl⟩
    | cons tag tags ih =>
      rw [forall_mem_cons] at htags
      obtain ⟨inventory, hinventory, hrows⟩ := ih htags.2
      have hitem := htag tag htags.1
      rw [mapM_cons, hinventory]
      cases hrun : inventoryTag snapshot aliases tag with
      | error e =>
        rw [hrun] at hitem
        cases hitem
      | ok item =>
        rw [hrun] at hitem
        cases hitem
        exact ⟨item :: inventory, rfl, congrArg _ hrows⟩
  obtain ⟨inventory, hinventory, hrows⟩ := hall snapshot.tags fun _ htag => htag
  refine ⟨inventory, ?_, hrows⟩
  unfold taxonomyInventory
  rw [haliases]
  exact hinventory

/-- A page of a rule: one that the rule is about and that carries the tag that its name stands
for. -/
def Matches (snapshot : TaxonomySnapshot) (rule : Access.AccessRule) (page : Int) : Prop :=
  page ∈ rulePages snapshot.pages rule ∧ ∃ canonical, Resolves snapshot.tags rule.path canonical ∧
    canonical.tag ≠ [] ∧ ⟨page, canonical.id⟩ ∈ snapshot.assignments

theorem ruleMatches_ok (rule : Access.AccessRule) : ∃ pages, ruleMatches snapshot rule = .ok pages ∧ pages.Nodup ∧
    ∀ page, page ∈ pages ↔ Matches snapshot rule page := by
  obtain ⟨aliases, haliases, hget⟩ := h.tagAliasMap_ok
  unfold ruleMatches
  rw [haliases]
  simp only [bind, Except.bind]
  have hname : ∀ name, ((aliases.get rule.path).getD none).filter (· ≠ []) = some name
      ↔ name ≠ [] ∧ aliases.get rule.path = some (some name) := by
    intro name
    rw [Option.filter_eq_some_iff]
    cases aliases.get rule.path with
    | none => simp
    | some value => simp [and_comm]
  split
  next hnone =>
    refine ⟨[], rfl, nodup_nil, fun page => ?_⟩
    simp only [not_mem_nil, false_iff]
    rintro ⟨-, canonical, hresolves, hne, -⟩
    have := (hname canonical.tag).mpr ⟨hne, (hget _ _).mpr ⟨canonical, hresolves, rfl⟩⟩
    rw [hnone] at this
    cases this
  next name hsome =>
    obtain ⟨hne, hpath⟩ := (hname name).mp hsome
    obtain ⟨canonical, hresolves, rfl⟩ := (hget _ _).mp hpath
    refine ⟨_, rfl, nodup_dedup _, fun page => ?_⟩
    have hids : ∀ assignment ∈ snapshot.assignments,
        (∃ tag ∈ snapshot.tags, (aliases.get tag.tag = some (some canonical.tag)
          ∧ tag.isArchived = false) ∧ tag.id = assignment.tagId)
        ↔ assignment.tagId = canonical.id := by
      intro assignment hassignment
      obtain ⟨carried, hcarried, hid, hlast, hactive⟩ := h.assigned assignment hassignment
      have hself : Resolves snapshot.tags carried.tag carried :=
        ⟨carried, hcarried, rfl, hactive, hcarried, hlast, by simp [hlast], fun _ => hactive⟩
      constructor
      · rintro ⟨tag, htag, ⟨hvalue, -⟩, htagId⟩
        obtain rfl := h.eq_of_id htag hcarried (htagId.trans hid.symm)
        obtain ⟨other, hother, hsame⟩ := (hget _ _).mp hvalue
        obtain rfl := h.resolves_unique hother hself
        obtain ⟨named, -, -, -, hleads⟩ := hresolves
        rw [← hid, h.eq_of_name hcarried hleads.mem hsame]
      · intro heq
        obtain ⟨named, -, -, -, hleads⟩ := hresolves
        obtain rfl := h.eq_of_id hcarried hleads.mem (hid.trans heq)
        exact ⟨carried, hcarried, ⟨(hget _ _).mpr ⟨carried, hself, rfl⟩, hactive⟩, hid⟩
    simp only [mem_dedup, mem_map, mem_filter, Bool.and_eq_true, contains_iff_mem, decide_eq_true_eq, Bool.not_eq_true']
    constructor
    · rintro ⟨assignment, ⟨hassignment, htag, hpage⟩, rfl⟩
      have htagId := (hids assignment hassignment).mp (by
        obtain ⟨tag, ⟨htag, hvalue, hactive⟩, hid⟩ := htag
        exact ⟨tag, htag, ⟨hvalue, hactive⟩, hid⟩)
      refine ⟨hpage, canonical, hresolves, hne, ?_⟩
      rw [← htagId]
      exact hassignment
    · rintro ⟨hpage, other, hother, -, hassignment⟩
      obtain rfl := h.resolves_unique hother hresolves
      obtain ⟨tag, htag, ⟨hvalue, hactive⟩, hid⟩ := (hids _ hassignment).mpr rfl
      exact ⟨_, ⟨hassignment, ⟨tag, ⟨htag, hvalue, hactive⟩, hid⟩, hpage⟩, rfl⟩

end TsEpistle.Taxonomy
