import TsEpistle.Pages.Approvals
import TsEpistle.Pages.Effects

/-! What one operation on pages does to the database. -/

namespace TsEpistle.Pages
open Library List Function
open Outbox (PageMutationOutboxRow OutboxError Fresh validLocation)

/-- What a reviewer approves of a page. -/
structure Reviewed where
  (content title description path extra : JsString)
  tags : Finset Nat
  deriving DecidableEq

def VersionColumns.reviewed (columns : VersionColumns) (tags : Finset Nat) : Reviewed :=
  ⟨columns.content, columns.title, columns.description, columns.path, columns.extra, tags⟩

def PageVersion.reviewed (version : PageVersion) : Reviewed :=
  version.columns.reviewed version.tags

def PageDatabase.reviewed (db : PageDatabase) (page : PageRow) : Reviewed :=
  page.columns.reviewed (db.pageTags page.id)

/-- A rewrite of the versions that leaves what they show of the page. -/
structure Keeps (f : PageVersion → PageVersion) : Prop where
  id : ∀ v, (f v).id = v.id
  pageId : ∀ v, (f v).pageId = v.pageId
  sourceRevision : ∀ v, (f v).sourceRevision = v.sourceRevision
  reviewed : ∀ v, (f v).reviewed = v.reviewed

theorem keeps_id : Keeps id := ⟨fun _ => rfl, fun _ => rfl, fun _ => rfl, fun _ => rfl⟩

/-- The row that a transaction leaves for a page that stood there. -/
structure Succeeds (stored next : PageRow) : Prop where
  id : next.id = stored.id
  revision : stored.sourceRevision < next.sourceRevision ∨
    next.sourceRevision = stored.sourceRevision ∧ next.columns = stored.columns

/-- The database after `next` is written over the page with its version. -/
def PageDatabase.revised (db : PageDatabase) (next : PageRow) (tags : Finset Nat)
    (version : PageVersion) (f : PageVersion → PageVersion)
    (effects : List PageMutationOutboxRow) : PageDatabase :=
  { db with
    pages := Function.update db.pages next.id (some next)
    pageTags := Function.update db.pageTags next.id tags
    history := (db.history ++ [version]).map f
    nextVersionId := db.nextVersionId + 1
    outbox := db.outbox ++ effects
    committed := next :: db.committed }

/-- What an operation at `now` on the page `target` may do to the pages. -/
inductive Step (now : Time) (target : Option Nat) (db : PageDatabase) : PageDatabase → Prop
  | idle : Step now target db db
  | revised (stored next : PageRow) (tags : Finset Nat) (version : PageVersion)
      (f : PageVersion → PageVersion) (effects : List PageMutationOutboxRow)
      (present : db.pages stored.id = some stored) (succeeds : Succeeds stored next)
      (versionId : version.id = db.nextVersionId) (versionPage : version.pageId = stored.id)
      (keeps : Keeps f)
      (valid : validLocation next.location = true ∨ next.location = stored.location)
      (stamped : next.updatedAt = now ∧ target = some stored.id ∨
        next.updatedAt = stored.updatedAt ∧ tags = db.pageTags stored.id ∧
          next.columns.reviewed tags = stored.columns.reviewed tags)
      (at_ : ∀ row ∈ effects, row.pageId = next.id ∧ row.sourceRevision = next.sourceRevision) :
      Step now target db (db.revised next tags version f effects)
  | created (next : PageRow) (tags : Finset Nat) (effects : List PageMutationOutboxRow)
      (id : next.id = db.nextPageId) (stamped : next.updatedAt = now)
      (at_ : ∀ row ∈ effects, row.pageId = next.id ∧ row.sourceRevision = next.sourceRevision)
      (validId : Outbox.validPageId next.id = true) (valid : validLocation next.location = true)
      (positive : 1 ≤ next.sourceRevision) :
      Step now target db { db with
        pages := Function.update db.pages next.id (some next)
        pageTags := Function.update db.pageTags next.id tags
        nextPageId := db.nextPageId + 1
        outbox := db.outbox ++ effects
        committed := next :: db.committed }
  | deleted (stored gone : PageRow) (version : PageVersion) (recovery : RecoveryRow)
      (effects : List PageMutationOutboxRow) (present : db.pages stored.id = some stored)
      (id : gone.id = stored.id) (revision : gone.sourceRevision = stored.sourceRevision + 1)
      (versionId : version.id = db.nextVersionId) (versionPage : version.pageId = stored.id)
      (at_ : ∀ row ∈ effects, row.pageId = stored.id ∧ row.sourceRevision = gone.sourceRevision)
      (queued : ∃ row ∈ db.outbox ++ effects, row.pageId = stored.id ∧ row.sourceRevision = gone.sourceRevision) :
      Step now target db { db with
        pages := Function.update db.pages stored.id none
        pageTags := Function.update db.pageTags stored.id ∅
        history := db.history ++ [version]
        nextVersionId := db.nextVersionId + 1
        recovery := db.recovery ++ [recovery]
        outbox := db.outbox ++ effects
        committed := gone :: db.committed }
  | restored (next : PageRow) (tags : Finset Nat) (version : PageVersion)
      (effects : List PageMutationOutboxRow) (absent : db.pages next.id = none)
      (known : ∃ v ∈ db.history, v.pageId = next.id)
      (fence : ∀ row ∈ db.outbox, row.pageId = next.id → row.sourceRevision < next.sourceRevision)
      (positive : 1 ≤ next.sourceRevision)
      (versionId : version.id = db.nextVersionId) (versionPage : version.pageId = next.id)
      (stamped : next.updatedAt = now) (valid : validLocation next.location = true)
      (at_ : ∀ row ∈ effects, row.pageId = next.id ∧ row.sourceRevision = next.sourceRevision) :
      Step now target db { db with
        pages := Function.update db.pages next.id (some next)
        pageTags := Function.update db.pageTags next.id tags
        history := db.history ++ [version]
        nextVersionId := db.nextVersionId + 1
        outbox := db.outbox ++ effects
        committed := next :: db.committed }
  | archived (stored : PageRow) (version : PageVersion)
      (present : db.pages stored.id = some stored)
      (versionId : version.id = db.nextVersionId) (versionPage : version.pageId = stored.id) :
      Step now target db (db.addVersion version)
  | workers (rows : List PageMutationOutboxRow) (may : workersMayLeave db rows) :
      Step now target db { db with outbox := rows }

/-! ## The rows of a reachable database -/

/-- The columns of a row are told by its revision, no effect is ahead of its page, and what
was used for a page that is gone lies behind one of its effects. -/
structure Sound (db : PageDatabase) : Prop where
  ids : ∀ p page, db.pages p = some page → page.id = p
  stored : ∀ p page, db.pages p = some page → page ∈ db.committed
  located : ∀ p page, db.pages p = some page → validLocation page.location = true
  issued : ∀ row ∈ db.committed, row.id < db.nextPageId ∧ Outbox.validPageId row.id = true ∧ 1 ≤ row.sourceRevision
  versions : ∀ v ∈ db.history, v.id < db.nextVersionId ∧ ∃ row ∈ db.committed, row.id = v.pageId
  versionIds : (db.history.map PageVersion.id).Nodup
  newest : ∀ row ∈ db.committed, ∀ page, db.pages row.id = some page →
    row.sourceRevision < page.sourceRevision ∨ row.sourceRevision = page.sourceRevision ∧ row.columns = page.columns
  effects : ∀ row ∈ db.outbox, row.pageId < db.nextPageId ∧
    ∀ page, db.pages row.pageId = some page → row.sourceRevision ≤ page.sourceRevision
  buried : ∀ row ∈ db.committed, db.pages row.id = none →
    ∃ effect ∈ db.outbox, effect.pageId = row.id ∧ row.sourceRevision ≤ effect.sourceRevision
  serial : 1 ≤ db.nextPageId

theorem sound_empty : Sound .empty where
  ids := by simp [PageDatabase.empty]
  stored := by simp [PageDatabase.empty]
  located := by simp [PageDatabase.empty]
  issued := by simp [PageDatabase.empty]
  versions := by simp [PageDatabase.empty]
  versionIds := by simp [PageDatabase.empty]
  newest := by simp [PageDatabase.empty]
  effects := by simp [PageDatabase.empty]
  buried := by simp [PageDatabase.empty]
  serial := by simp [PageDatabase.empty]

namespace Sound
variable {db : PageDatabase}

theorem absent (h : Sound db) {p : Nat} (hp : db.nextPageId ≤ p) : db.pages p = none := by
  cases hpage : db.pages p with
  | none => rfl
  | some page =>
    have hid := h.ids p page hpage
    have := (h.issued page (h.stored p page hpage)).1
    omega

/-- The version ids stay apart when a version with the next id is added and all are rewritten. -/
theorem versionIds_append (h : Sound db) {version : PageVersion} {f : PageVersion → PageVersion}
    (hid : version.id = db.nextVersionId) (keeps : Keeps f) :
    (((db.history ++ [version]).map f).map PageVersion.id).Nodup := by
  have hmap : ((db.history ++ [version]).map f).map PageVersion.id
      = db.history.map PageVersion.id ++ [version.id] := by
    simp [comp_def, keeps.id]
  rw [hmap, nodup_append]
  refine ⟨h.versionIds, by simp, ?_⟩
  intro id hmem id' hmem'
  obtain ⟨v, hv, rfl⟩ := mem_map.mp hmem
  obtain rfl : id' = version.id := by simpa using hmem'
  have := (h.versions v hv).1
  omega

/-- The pages that the versions belong to stay known. -/
theorem versions_append (h : Sound db) {version : PageVersion} {f : PageVersion → PageVersion}
    (committed : List PageRow) (hid : version.id = db.nextVersionId) (keeps : Keeps f)
    (hsub : ∀ row ∈ db.committed, row ∈ committed) (hpage : ∃ row ∈ committed, row.id = version.pageId) :
    ∀ v ∈ (db.history ++ [version]).map f, v.id < db.nextVersionId + 1 ∧ ∃ row ∈ committed, row.id = v.pageId := by
  intro v hv
  obtain ⟨old, hold, rfl⟩ := mem_map.mp hv
  rw [keeps.id, keeps.pageId]
  rcases mem_append.mp hold with hold | hold
  · obtain ⟨hlt, row, hrow, hid⟩ := h.versions old hold
    exact ⟨by omega, row, hsub row hrow, hid⟩
  · obtain rfl := mem_singleton.mp hold
    exact ⟨by omega, hpage⟩

/-- A page that stands where `next` is written is `next` or stood there before. -/
theorem update_some {pages : Nat → Option PageRow} {p q : Nat} {next page : PageRow}
    (h : Function.update pages p (some next) q = some page) : q = p ∧ page = next ∨ q ≠ p ∧ pages q = some page := by
  by_cases hq : q = p
  · subst hq
    simp only [update_self, Option.some.injEq] at h
    exact .inl ⟨rfl, h.symm⟩
  · rw [update_of_ne hq] at h
    exact .inr ⟨hq, h⟩

theorem update_none {pages : Nat → Option PageRow} {p q : Nat} {next : PageRow}
    (h : Function.update pages p (some next) q = none) : q ≠ p ∧ pages q = none := by
  by_cases hq : q = p
  · subst hq
    simp at h
  · rw [update_of_ne hq] at h
    exact ⟨hq, h⟩

theorem remove_some {pages : Nat → Option PageRow} {p q : Nat} {page : PageRow}
    (h : Function.update pages p none q = some page) : q ≠ p ∧ pages q = some page := by
  by_cases hq : q = p
  · subst hq
    simp at h
  · rw [update_of_ne hq] at h
    exact ⟨hq, h⟩

/-! A page that is written at its id. -/

section
variable {next : PageRow} {effects : List PageMutationOutboxRow}

theorem issued_cons (h : Sound db) {bound : Nat} (hbound : db.nextPageId ≤ bound) (hnext : next.id < bound)
    (hvalid : Outbox.validPageId next.id = true) (hpositive : 1 ≤ next.sourceRevision) :
    ∀ row ∈ next :: db.committed, row.id < bound ∧ Outbox.validPageId row.id = true ∧ 1 ≤ row.sourceRevision := by
  intro row hrow
  rcases mem_cons.mp hrow with rfl | hrow
  · exact ⟨hnext, hvalid, hpositive⟩
  · obtain ⟨hlt, hv, hpos⟩ := h.issued row hrow
    exact ⟨lt_of_lt_of_le hlt hbound, hv, hpos⟩

theorem put_ids (h : Sound db) : ∀ p page, Function.update db.pages next.id (some next) p = some page
    → page.id = p := by
  intro p page hp
  rcases update_some hp with ⟨rfl, rfl⟩ | ⟨-, hp⟩
  · rfl
  · exact h.ids p page hp

theorem put_stored (h : Sound db) :
    ∀ p page, Function.update db.pages next.id (some next) p = some page → page ∈ next :: db.committed := by
  intro p page hp
  rcases update_some hp with ⟨-, rfl⟩ | ⟨-, hp⟩
  · exact mem_cons_self
  · exact mem_cons_of_mem _ (h.stored p page hp)

theorem put_located (h : Sound db) (hnext : validLocation next.location = true) :
    ∀ p page, Function.update db.pages next.id (some next) p = some page → validLocation page.location = true := by
  intro p page hp
  rcases update_some hp with ⟨-, rfl⟩ | ⟨-, hp⟩
  · exact hnext
  · exact h.located p page hp

/-- The rows of the id before have to be older than `next`, or alike. -/
theorem put_newest (h : Sound db) (hrows : ∀ row ∈ db.committed, row.id = next.id →
      row.sourceRevision < next.sourceRevision ∨
        row.sourceRevision = next.sourceRevision ∧ row.columns = next.columns) :
    ∀ row ∈ next :: db.committed, ∀ page, Function.update db.pages next.id (some next) row.id = some page →
      row.sourceRevision < page.sourceRevision ∨
        row.sourceRevision = page.sourceRevision ∧ row.columns = page.columns := by
  intro row hrow page hp
  rcases update_some hp with ⟨hq, rfl⟩ | ⟨hq, hp⟩
  · rcases mem_cons.mp hrow with rfl | hrow
    · exact .inr ⟨rfl, rfl⟩
    · exact hrows row hrow hq
  · rcases mem_cons.mp hrow with rfl | hrow
    · exact absurd rfl hq
    · exact h.newest row hrow page hp

/-- The effects of the id before have not to be ahead of `next`. -/
theorem put_effects (h : Sound db) {bound : Nat} (hbound : db.nextPageId ≤ bound) (hnext : next.id < bound)
    (hrows : ∀ row ∈ db.outbox, row.pageId = next.id → row.sourceRevision ≤ next.sourceRevision)
    (at_ : ∀ row ∈ effects, row.pageId = next.id ∧ row.sourceRevision = next.sourceRevision) :
    ∀ row ∈ db.outbox ++ effects, row.pageId < bound ∧ ∀ page,
    Function.update db.pages next.id (some next) row.pageId = some page → row.sourceRevision ≤ page.sourceRevision := by
  intro row hmem
  rcases mem_append.mp hmem with hrow | hrow
  · refine ⟨lt_of_lt_of_le (h.effects row hrow).1 hbound, fun page hp => ?_⟩
    rcases update_some hp with ⟨hq, rfl⟩ | ⟨-, hp⟩
    · exact hrows row hrow hq
    · exact (h.effects row hrow).2 page hp
  · obtain ⟨hpage, hrev⟩ := at_ row hrow
    refine ⟨hpage ▸ hnext, fun page hp => ?_⟩
    rcases update_some hp with ⟨-, rfl⟩ | ⟨hq, -⟩
    · exact hrev.le
    · exact absurd hpage hq

theorem put_buried (h : Sound db) : ∀ row ∈ next :: db.committed,
    Function.update db.pages next.id (some next) row.id = none →
      ∃ effect ∈ db.outbox ++ effects, effect.pageId = row.id ∧ row.sourceRevision ≤ effect.sourceRevision := by
  intro row hrow hp
  obtain ⟨hq, hp⟩ := update_none hp
  rcases mem_cons.mp hrow with rfl | hrow
  · exact absurd rfl hq
  · obtain ⟨effect, he, hpage, hrev⟩ := h.buried row hrow hp
    exact ⟨effect, mem_append_left _ he, hpage, hrev⟩

end

/-! A page that is deleted. -/

section
variable {stored gone : PageRow} {effects : List PageMutationOutboxRow}

theorem removed_newest (h : Sound db) (hid : gone.id = stored.id) : ∀ row ∈ gone :: db.committed, ∀ page,
    Function.update db.pages stored.id none row.id = some page → row.sourceRevision < page.sourceRevision ∨
    row.sourceRevision = page.sourceRevision ∧ row.columns = page.columns := by
  intro row hrow page hp
  obtain ⟨hq, hp⟩ := remove_some hp
  rcases mem_cons.mp hrow with rfl | hrow
  · exact absurd hid hq
  · exact h.newest row hrow page hp

theorem removed_effects (h : Sound db) (hlt : stored.id < db.nextPageId)
    (hpage : ∀ row ∈ effects, row.pageId = stored.id) : ∀ row ∈ db.outbox ++ effects,
    row.pageId < db.nextPageId ∧ ∀ page, Function.update db.pages stored.id none row.pageId = some page →
      row.sourceRevision ≤ page.sourceRevision := by
  intro row hmem
  rcases mem_append.mp hmem with hrow | hrow
  · exact ⟨(h.effects row hrow).1, fun page hp => (h.effects row hrow).2 page (remove_some hp).2⟩
  · exact ⟨hpage row hrow ▸ hlt, fun page hp => absurd (hpage row hrow) (remove_some hp).1⟩

/-- The effect that is queued for the deletion is behind every row of the page. -/
theorem removed_buried (h : Sound db) (present : db.pages stored.id = some stored) (hid : gone.id = stored.id)
    (revision : gone.sourceRevision = stored.sourceRevision + 1)
    (queued : ∃ row ∈ db.outbox ++ effects, row.pageId = stored.id ∧ row.sourceRevision = gone.sourceRevision) :
    ∀ row ∈ gone :: db.committed, Function.update db.pages stored.id none row.id = none →
    ∃ effect ∈ db.outbox ++ effects, effect.pageId = row.id ∧ row.sourceRevision ≤ effect.sourceRevision := by
  intro row hrow hp
  by_cases hq : row.id = stored.id
  · obtain ⟨effect, he, hpage, hrev⟩ := queued
    refine ⟨effect, he, by rw [hpage, hq], ?_⟩
    rcases mem_cons.mp hrow with rfl | hrow
    · omega
    · rcases h.newest row hrow stored (by rw [hq]; exact present) with h | h <;> omega
  · have hp : db.pages row.id = none := by
      simpa [update_of_ne hq] using hp
    rcases mem_cons.mp hrow with rfl | hrow
    · exact absurd hid hq
    · obtain ⟨effect, he, hpage, hrev⟩ := h.buried row hrow hp
      exact ⟨effect, mem_append_left _ he, hpage, hrev⟩

end

/-- What the workers leave is about the same pages. -/
theorem workers (h : Sound db) {rows : List PageMutationOutboxRow} (may : workersMayLeave db rows) :
    Sound { db with outbox := rows } := by
  obtain ⟨hkept, hnew⟩ := may
  refine ⟨h.ids, h.stored, h.located, h.issued, h.versions, h.versionIds, h.newest, ?_, ?_, h.serial⟩
  · intro row hrow
    rcases hnew row hrow with ⟨old, hold, hkey, -⟩ | ⟨page, hp, hrev⟩
    · simp only [PageMutationOutboxRow.key, Prod.mk.injEq] at hkey
      rw [hkey.1, hkey.2.1]
      exact h.effects old hold
    · have hmem := h.stored _ _ hp
      have hid := h.ids _ _ hp
      refine ⟨hid ▸ (h.issued page hmem).1, ?_⟩
      intro page' hp'
      rw [hp] at hp'
      cases hp'
      exact hrev.le
  · intro row hrow hp
    obtain ⟨effect, he, hpage, hrev⟩ := h.buried row hrow hp
    obtain ⟨effect', he', hkey, -⟩ := hkept effect he
    simp only [PageMutationOutboxRow.key, Prod.mk.injEq] at hkey
    exact ⟨effect', he', hkey.1.trans hpage, by omega⟩

end Sound

/-- **Step rule.** Every operation keeps the rows sound. -/
theorem Step.sound {now : Time} {target : Option Nat} {db db' : PageDatabase} (h : Step now target db db')
    (hs : Sound db) : Sound db' := by
  cases h with
  | idle => exact hs
  | revised stored next tags version f effects present succeeds versionId versionPage keeps valid
      stamped at_ =>
      have hid : next.id = stored.id := succeeds.id
      have hold := hs.issued stored (hs.stored _ _ present)
      have hle : stored.sourceRevision ≤ next.sourceRevision := by
        rcases succeeds.revision with h | h <;> omega
      have hlocated : validLocation next.location = true := by
        rcases valid with valid | valid
        · exact valid
        · rw [valid]
          exact hs.located _ _ present
      refine ⟨hs.put_ids, hs.put_stored, hs.put_located hlocated,
        hs.issued_cons (Nat.le_refl _) (hid ▸ hold.1) (hid ▸ hold.2.1) (hold.2.2.trans hle), ?_,
        hs.versionIds_append versionId keeps, hs.put_newest ?_,
        hs.put_effects (Nat.le_refl _) (hid ▸ hold.1) ?_ at_, hs.put_buried, hs.serial⟩
      · exact hs.versions_append _ versionId keeps (fun row => mem_cons_of_mem _)
          ⟨next, mem_cons_self, by rw [hid, versionPage]⟩
      · intro row hrow hq
        rcases hs.newest row hrow stored (by rw [hq, hid]; exact present) with hlt | ⟨heq, hcols⟩
        · exact .inl (by omega)
        · rcases succeeds.revision with hlt | ⟨heq', hcols'⟩
          · exact .inl (by omega)
          · exact .inr ⟨by omega, by rw [hcols, hcols']⟩
      · intro row hrow hq
        have := (hs.effects row hrow).2 stored (by rw [hq, hid]; exact present)
        omega
  | created next tags effects id stamped at_ validId valid positive =>
    have hfresh : ∀ row ∈ db.committed, row.id ≠ next.id := by
      intro row hrow
      have := (hs.issued row hrow).1
      omega
    have hlt : next.id < db.nextPageId + 1 := id ▸ Nat.lt_succ_self _
    refine ⟨hs.put_ids, hs.put_stored, hs.put_located valid,
      hs.issued_cons (Nat.le_succ _) hlt validId positive, ?_, hs.versionIds,
      hs.put_newest fun row hrow hq => absurd hq (hfresh row hrow),
      hs.put_effects (Nat.le_succ _) hlt ?_ at_, hs.put_buried, Nat.le_succ_of_le hs.serial⟩
    · intro v hv
      obtain ⟨hlt, row, hrow, hid⟩ := hs.versions v hv
      exact ⟨hlt, row, mem_cons_of_mem _ hrow, hid⟩
    · intro row hrow hq
      have := (hs.effects row hrow).1
      omega
  | deleted stored gone version recovery effects present id revision versionId versionPage at_
      queued =>
      have hold := hs.issued stored (hs.stored _ _ present)
      constructor
      · intro p page hp
        exact hs.ids p page (Sound.remove_some hp).2
      · intro p page hp
        exact mem_cons_of_mem _ (hs.stored p page (Sound.remove_some hp).2)
      · intro p page hp
        exact hs.located p page (Sound.remove_some hp).2
      · exact hs.issued_cons (Nat.le_refl _) (id ▸ hold.1) (id ▸ hold.2.1) (by omega)
      · have := hs.versions_append (gone :: db.committed) versionId keeps_id
          (fun row => mem_cons_of_mem _) ⟨gone, mem_cons_self, by rw [id, versionPage]⟩
        simpa using this
      · simpa using hs.versionIds_append versionId keeps_id
      · exact hs.removed_newest id
      · exact hs.removed_effects hold.1 fun row hrow => (at_ row hrow).1
      · exact hs.removed_buried present id revision queued
      · exact hs.serial
  | restored next tags version effects absent known fence positive versionId versionPage stamped
      valid at_ =>
      obtain ⟨v, hv, hvpage⟩ := known
      obtain ⟨-, earlier, hearlier, hearlierId⟩ := hs.versions v hv
      have hidentity : earlier.id = next.id := hearlierId.trans hvpage
      have hissued := hs.issued earlier hearlier
      rw [hidentity] at hissued
      refine ⟨hs.put_ids, hs.put_stored, hs.put_located valid,
        hs.issued_cons (Nat.le_refl _) hissued.1 hissued.2.1 positive, ?_, ?_, hs.put_newest ?_,
        hs.put_effects (Nat.le_refl _) hissued.1 (fun row hrow hq => (fence row hrow hq).le) at_, hs.put_buried,
        hs.serial⟩
      · have := hs.versions_append (next :: db.committed) versionId keeps_id
          (fun row => mem_cons_of_mem _) ⟨next, mem_cons_self, versionPage.symm⟩
        simpa using this
      · simpa using hs.versionIds_append versionId keeps_id
      · intro row hrow hq
        obtain ⟨effect, he, hpage, hrev⟩ := hs.buried row hrow (by rw [hq]; exact absent)
        have := fence effect he (hpage.trans hq)
        exact .inl (by omega)
  | archived stored version present versionId versionPage =>
    have hversions := hs.versions_append db.committed versionId keeps_id
      (fun _ => id) ⟨stored, hs.stored _ _ present, versionPage.symm⟩
    have hids := hs.versionIds_append versionId keeps_id
    rw [map_id] at hversions hids
    exact ⟨hs.ids, hs.stored, hs.located, hs.issued, hversions, hids, hs.newest, hs.effects, hs.buried, hs.serial⟩
  | workers rows may => exact hs.workers may

end TsEpistle.Pages
