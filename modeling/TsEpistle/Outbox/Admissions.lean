import TsEpistle.Library.Checked
import TsEpistle.Outbox.Interleaving

/-! What the transactions under a page's lock do to the outbox: they add waiting rows
at one revision of one page and re-arm rows there. A transaction that withdraws the
render of a page leaves no finished and no running links effect at its revision. -/

namespace TsEpistle.Outbox
open Library Checked List

/-! ## Well-formed tables -/

structure WellFormed (rows : List PageMutationOutboxRow) : Prop where
  keys : (rows.map PageMutationOutboxRow.key).Nodup
  ids : (rows.map PageMutationOutboxRow.id).Nodup
  unleased : ∀ row ∈ rows, row.status ≠ .running → row.leaseToken = none
  parsed : ∀ row ∈ rows, row.payload.effectKind = row.effectKind ∧
    row.payload.desiredState = row.desiredState ∧ row.payload.pageId = row.pageId ∧
    row.payload.sourceRevision = row.sourceRevision

theorem effectRow_iff {rows : List PageMutationOutboxRow} (hkeys : (rows.map PageMutationOutboxRow.key).Nodup)
    {pageId revision : Nat} {kind : PageProjectionEffectKind} {row : PageMutationOutboxRow} :
    effectRow rows pageId revision kind = some row ↔ row ∈ rows ∧ row.key = (pageId, revision, kind) :=
  Table.get_eq_some_iff PageMutationOutboxRow.key hkeys

theorem effectRow_mem {rows : List PageMutationOutboxRow} {pageId revision : Nat} {kind : PageProjectionEffectKind}
    {row : PageMutationOutboxRow} (h : effectRow rows pageId revision kind = some row) : row ∈ rows ∧
    row.key = (pageId, revision, kind) :=
  Table.get_mem PageMutationOutboxRow.key h

theorem effectRow_none {rows : List PageMutationOutboxRow} {pageId revision : Nat} {kind : PageProjectionEffectKind}
    (h : effectRow rows pageId revision kind = none) : ∀ row ∈ rows, row.key ≠ (pageId, revision, kind) := by
  intro row hrow hkey
  have := find?_eq_none.mp h row hrow
  simp [hkey] at this

theorem parseRowPayload_ok {row : PageMutationOutboxRow} {payload : PageProjectionPayload}
    (h : parseRowPayload row = .ok payload) : payload = row.payload := by
  rw [parseRowPayload] at h
  split at h
  · cases h
    rfl
  · cases h

/-! ## Single admissions -/

/-- Unchanged, or with the columns of a re-arm. -/
def Rearms (row row' : PageMutationOutboxRow) : Prop :=
  row' = row ∨ ∃ now, row' = rearmed now row

theorem Rearms.refl (row : PageMutationOutboxRow) : Rearms row row := .inl rfl

theorem Rearms.trans {row row' row'' : PageMutationOutboxRow} (h : Rearms row row')
    (h' : Rearms row' row'') : Rearms row row'' := by
  rcases h with rfl | ⟨now, rfl⟩
  · exact h'
  · rcases h' with rfl | ⟨now', rfl⟩
    · exact .inr ⟨now, rfl⟩
    · exact .inr ⟨now', rfl⟩

variable {row row' : PageMutationOutboxRow}

theorem Rearms.key (h : Rearms row row') : row'.key = row.key := by
  rcases h with rfl | ⟨now, rfl⟩ <;> rfl

theorem Rearms.id (h : Rearms row row') : row'.id = row.id := by
  rcases h with rfl | ⟨now, rfl⟩ <;> rfl

theorem Rearms.payload (h : Rearms row row') : row'.payload = row.payload := by
  rcases h with rfl | ⟨now, rfl⟩ <;> rfl

theorem Rearms.desiredState (h : Rearms row row') : row'.desiredState = row.desiredState := by
  rcases h with rfl | ⟨now, rfl⟩ <;> rfl

/-- Only an unchanged row holds a lease or is finished. -/
theorem Rearms.eq (h : Rearms row row') (hstatus : row'.status ≠ .retry) : row' = row := by
  rcases h with rfl | ⟨now, rfl⟩
  · rfl
  · exact absurd rfl hstatus

theorem Rearms.token (h : Rearms row row') (htoken : row'.leaseToken ≠ none) : row' = row := by
  rcases h with rfl | ⟨now, rfl⟩
  · rfl
  · exact absurd rfl htoken

/-- Rows that a re-arm may take: finished ones without a lease, and running ones. -/
def Armable (row : PageMutationOutboxRow) : Prop :=
  (row.status = .succeeded ∨ row.status = .failed) ∧ row.leaseToken = none ∨ row.status = .running

/-- The admission of one effect at a revision of a page. -/
inductive AdmitStep (fresh : Fresh) (pageId revision : Nat)
    (desired : PageProjectionDesiredState) (kind : PageProjectionEffectKind) :
    List PageMutationOutboxRow → List PageMutationOutboxRow → Prop
  | same (rows) : AdmitStep fresh pageId revision desired kind rows rows
  | insert {rows} (payload : PageProjectionPayload)
      (hnone : effectRow rows pageId revision kind = none)
      (hpage : payload.pageId = pageId) (hrevision : payload.sourceRevision = revision)
      (hkind : payload.effectKind = kind) (hdesired : payload.desiredState = desired) :
      AdmitStep fresh pageId revision desired kind rows
        (rows ++ [pendingRow payload (fresh.id kind) fresh.now])
  | rearm {rows} (row : PageMutationOutboxRow) (now : Time)
      (hrow : effectRow rows pageId revision kind = some row) (harm : Armable row) :
      AdmitStep fresh pageId revision desired kind rows
        (Table.updateWhere (fun r => r.id = row.id && r.status = row.status) (rearmed now) rows)

/-- No row has an id that is still to be handed out. -/
def Reserved (fresh : Fresh) (pageId revision : Nat) (rows : List PageMutationOutboxRow) : Prop :=
  ∀ row ∈ rows, ∀ kind, row.id = fresh.id kind → row.key = (pageId, revision, kind)

def Fresh.Distinct (fresh : Fresh) : Prop := ∀ k k', fresh.id k = fresh.id k' → k = k'

section
variable {fresh : Fresh} {pageId revision : Nat} {desired : PageProjectionDesiredState}
  {kind : PageProjectionEffectKind} {rows rows' : List PageMutationOutboxRow}

/-- Every row of the new table comes from a row of the old one or is new. -/
theorem AdmitStep.back (h : AdmitStep fresh pageId revision desired kind rows rows') : ∀ row' ∈ rows',
    (∃ row ∈ rows, Rearms row row') ∨ ∃ payload : PageProjectionPayload, payload.pageId = pageId ∧
    payload.sourceRevision = revision ∧ payload.desiredState = desired ∧ payload.effectKind = kind ∧
    row' = pendingRow payload (fresh.id kind) fresh.now := by
  intro row' hrow'
  cases h with
  | same => exact .inl ⟨row', hrow', .refl row'⟩
  | insert payload hnone hpage hrevision hkind hdesired =>
    rcases mem_append.mp hrow' with hrow' | hrow'
    · exact .inl ⟨row', hrow', .refl row'⟩
    · exact .inr ⟨payload, hpage, hrevision, hdesired, hkind, mem_singleton.mp hrow'⟩
  | rearm row now hrow harm =>
    obtain ⟨r, hr, rfl⟩ := Table.mem_updateWhere.mp hrow'
    refine .inl ⟨r, hr, ?_⟩
    split
    · exact .inr ⟨now, rfl⟩
    · exact .refl r

theorem AdmitStep.forth (h : AdmitStep fresh pageId revision desired kind rows rows') :
    ∀ row ∈ rows, ∃ row' ∈ rows', Rearms row row' := by
  intro r hr
  cases h with
  | same => exact ⟨r, hr, .refl r⟩
  | insert => exact ⟨r, mem_append_left _ hr, .refl r⟩
  | rearm row now hrow harm =>
    refine ⟨_, Table.mem_updateWhere.mpr ⟨r, hr, rfl⟩, ?_⟩
    split
    · exact .inr ⟨now, rfl⟩
    · exact .refl r

/-- Rows of other kinds stay. -/
theorem AdmitStep.others (h : AdmitStep fresh pageId revision desired kind rows rows')
    (hids : (rows.map PageMutationOutboxRow.id).Nodup) {r : PageMutationOutboxRow} (hr : r ∈ rows)
    (hkey : r.key ≠ (pageId, revision, kind)) : r ∈ rows' := by
  cases h with
  | same => exact hr
  | insert => exact mem_append_left _ hr
  | rearm row now hrow harm =>
    refine Table.mem_updateWhere.mpr ⟨r, hr, ?_⟩
    have hmem := effectRow_mem hrow
    have hne : r.id ≠ row.id := fun hid =>
      hkey (inj_on_of_nodup_map hids hr hmem.1 hid ▸ hmem.2)
    simp [hne]

theorem AdmitStep.reserved (h : AdmitStep fresh pageId revision desired kind rows rows') (hfresh : fresh.Distinct)
    (hres : Reserved fresh pageId revision rows) : Reserved fresh pageId revision rows' := by
  intro row' hrow' k hid
  rcases h.back row' hrow' with ⟨row, hrow, hrearm⟩ | ⟨payload, rfl, rfl, -, rfl, rfl⟩
  · rw [hrearm.key]
    exact hres row hrow k (hrearm.id ▸ hid)
  · rw [← hfresh _ _ hid]
    rfl

theorem AdmitStep.wellFormed (h : AdmitStep fresh pageId revision desired kind rows rows')
    (hres : Reserved fresh pageId revision rows) (hw : WellFormed rows) : WellFormed rows' := by
  have hnew : ∀ row' ∈ rows', (row'.status ≠ .running → row'.leaseToken = none) ∧
      row'.payload.effectKind = row'.effectKind ∧ row'.payload.desiredState = row'.desiredState ∧
      row'.payload.pageId = row'.pageId ∧ row'.payload.sourceRevision = row'.sourceRevision := by
    intro row' hrow'
    rcases h.back row' hrow' with ⟨row, hrow, rfl | ⟨now, rfl⟩⟩ | ⟨payload, -, -, -, -, rfl⟩
    · exact ⟨hw.unleased _ hrow, hw.parsed _ hrow⟩
    · exact ⟨fun _ => rfl, hw.parsed row hrow⟩
    · exact ⟨fun _ => rfl, rfl, rfl, rfl, rfl⟩
  refine ⟨?_, ?_, fun row' hrow' => (hnew row' hrow').1, fun row' hrow' => (hnew row' hrow').2⟩
  · cases h with
    | same => exact hw.keys
    | insert payload hnone hpage hrevision hkind hdesired =>
      rw [map_append, nodup_append]
      refine ⟨hw.keys, by simp, ?_⟩
      intro k hk k' hk'
      obtain ⟨row, hrow, rfl⟩ := mem_map.mp hk
      obtain rfl : k' = (pageId, revision, kind) := by
        simpa [pendingRow, PageMutationOutboxRow.key, hpage, hrevision, hkind] using hk'
      exact effectRow_none hnone row hrow
    | rearm row now hrow harm =>
      rw [Table.map_updateWhere PageMutationOutboxRow.key (f := rearmed now) (fun _ => rfl)]
      exact hw.keys
  · cases h with
    | same => exact hw.ids
    | insert payload hnone hpage hrevision hkind hdesired =>
      rw [map_append, nodup_append]
      refine ⟨hw.ids, by simp, ?_⟩
      intro id hid id' hid'
      obtain ⟨row, hrow, rfl⟩ := mem_map.mp hid
      obtain rfl : id' = fresh.id kind := by simpa [pendingRow] using hid'
      exact fun heq => effectRow_none hnone row hrow (hres row hrow kind heq)
    | rearm row now hrow harm =>
      rw [Table.map_updateWhere PageMutationOutboxRow.id (f := rearmed now) (fun _ => rfl)]
      exact hw.ids

end

/-! ## Several admissions in one transaction -/

/-- Admissions at one revision of a page. -/
def Admits (fresh : Fresh) (pageId revision : Nat) (desired : PageProjectionDesiredState) :
    List PageMutationOutboxRow → List PageMutationOutboxRow → Prop :=
  Relation.ReflTransGen fun rows rows' =>
    ∃ kind, AdmitStep fresh pageId revision desired kind rows rows'

section
variable {fresh : Fresh} {pageId revision : Nat} {desired : PageProjectionDesiredState}
  {rows rows' : List PageMutationOutboxRow}

theorem AdmitStep.admits {kind : PageProjectionEffectKind}
    (h : AdmitStep fresh pageId revision desired kind rows rows') : Admits fresh pageId revision desired rows rows' :=
  .single ⟨kind, h⟩

theorem Admits.wellFormed (h : Admits fresh pageId revision desired rows rows')
    (hfresh : fresh.Distinct) (hres : Reserved fresh pageId revision rows)
    (hw : WellFormed rows) : WellFormed rows' ∧ Reserved fresh pageId revision rows' := by
  induction h with
  | refl => exact ⟨hw, hres⟩
  | tail _ hstep ih =>
    obtain ⟨kind, hstep⟩ := hstep
    exact ⟨hstep.wellFormed ih.2 ih.1, hstep.reserved hfresh ih.2⟩

theorem Admits.back (h : Admits fresh pageId revision desired rows rows') : ∀ row' ∈ rows',
    (∃ row ∈ rows, Rearms row row') ∨ ∃ payload : PageProjectionPayload, payload.pageId = pageId ∧
    payload.sourceRevision = revision ∧ payload.desiredState = desired ∧
    Rearms (pendingRow payload (fresh.id payload.effectKind) fresh.now) row' := by
  induction h with
  | refl => exact fun row' hrow' => .inl ⟨row', hrow', .refl row'⟩
  | tail _ hstep ih =>
    obtain ⟨kind, hstep⟩ := hstep
    intro row'' hrow''
    rcases hstep.back row'' hrow'' with ⟨row', hrow', hr⟩ | ⟨payload, hp, hrev, hd, rfl, rfl⟩
    · rcases ih row' hrow' with ⟨row, hrow, hr'⟩ | ⟨payload, hp, hrev, hd, hr'⟩
      · exact .inl ⟨row, hrow, hr'.trans hr⟩
      · exact .inr ⟨payload, hp, hrev, hd, hr'.trans hr⟩
    · exact .inr ⟨payload, hp, hrev, hd, .refl _⟩

theorem Admits.forth (h : Admits fresh pageId revision desired rows rows') :
    ∀ row ∈ rows, ∃ row' ∈ rows', Rearms row row' := by
  induction h with
  | refl => exact fun row hrow => ⟨row, hrow, .refl row⟩
  | tail _ hstep ih =>
    obtain ⟨kind, hstep⟩ := hstep
    intro row hrow
    obtain ⟨row', hrow', hr⟩ := ih row hrow
    obtain ⟨row'', hrow'', hr'⟩ := hstep.forth row' hrow'
    exact ⟨row'', hrow'', hr.trans hr'⟩

/-- Rows of other pages and other revisions stay. -/
theorem Admits.others (h : Admits fresh pageId revision desired rows rows') (hfresh : fresh.Distinct)
    (hres : Reserved fresh pageId revision rows) (hw : WellFormed rows) {r : PageMutationOutboxRow} (hr : r ∈ rows)
    (hother : r.pageId ≠ pageId ∨ r.sourceRevision ≠ revision) : r ∈ rows' := by
  induction h with
  | refl => exact hr
  | tail hadmits hstep ih =>
    obtain ⟨kind, hstep⟩ := hstep
    refine hstep.others (Admits.wellFormed hadmits hfresh hres hw).1.ids ih fun hkey => ?_
    simp only [PageMutationOutboxRow.key, Prod.mk.injEq] at hkey
    rcases hother with h | h
    · exact h hkey.1
    · exact h hkey.2.1

end

/-! ## Admission functions -/

section
variable {env : Environment}

theorem enqueueEffect_step {input : EnqueueInput} {fresh : Fresh} {rows rows' : List PageMutationOutboxRow}
    {kind : PageProjectionEffectKind} {id : Uuid} (h : enqueueEffect env input fresh rows kind = .ok (rows', id)) :
    AdmitStep fresh input.pageId input.sourceRevision input.desiredState kind rows rows' := by
  simp only [enqueueEffect] at h
  split at h
  · cases h
  · split at h
    · rename_i hnone
      cases h
      exact .insert _ hnone rfl rfl rfl rfl
    · split at h
      · cases h
        exact .same _
      · cases h

theorem enqueueEffects_admits {input : EnqueueInput} {fresh : Fresh}
    {kinds : List PageProjectionEffectKind} {rows rows' : List PageMutationOutboxRow}
    {ids : List Uuid} (h : enqueueEffects env input fresh kinds rows = .ok (rows', ids)) :
    Admits fresh input.pageId input.sourceRevision input.desiredState rows rows' := by
  induction kinds generalizing rows ids with
  | nil =>
    cases h
    exact .refl
  | cons kind kinds ih =>
    obtain ⟨⟨mid, id⟩, hmid, h⟩ := bind_ok h
    obtain ⟨⟨last, ids'⟩, hlast, h⟩ := bind_ok h
    cases h
    exact .head ⟨kind, enqueueEffect_step hmid⟩ (ih hlast)

theorem enqueuePageMutationEffects_ok {input : EnqueueInput} {fresh : Fresh} {rows rows' : List PageMutationOutboxRow}
    {ids : List Uuid} (h : enqueuePageMutationEffects env input fresh rows = .ok (rows', ids)) :
    enqueueEffects env input fresh (input.effects.getD pageProjectionEffectKinds) rows = .ok (rows', ids) := by
  simp only [enqueuePageMutationEffects] at h
  split at h
  · cases h
  split at h
  · cases h
  split at h
  · cases h
  split at h
  · cases h
  · exact h

theorem enqueuePageMutationEffects_admits {input : EnqueueInput} {fresh : Fresh}
    {rows rows' : List PageMutationOutboxRow} {ids : List Uuid}
    (h : enqueuePageMutationEffects env input fresh rows = .ok (rows', ids)) :
    Admits fresh input.pageId input.sourceRevision input.desiredState rows rows' :=
  enqueueEffects_admits (enqueuePageMutationEffects_ok h)

variable {page : ProjectionPageRow} {kind : PageProjectionEffectKind} {input : AdmitInput}
  {fresh : Fresh} {now : Time} {rows rows' : List PageMutationOutboxRow} {admission : Admission}

/-- What the admission of a current effect does: it adds the row, re-arms the row, or
changes nothing where the row may stay as it is. -/
theorem admitCurrentEffect_cases
    (h : admitCurrentEffect env page kind input fresh now rows = .ok (rows', admission)) :
    (effectRow rows page.id page.sourceRevision kind = none ∧ admission.changed = true ∧
      AdmitStep fresh page.id page.sourceRevision .present kind rows rows') ∨
    ∃ row, effectRow rows page.id page.sourceRevision kind = some row ∧
      ((Armable row ∧ rows' = Table.updateWhere
          (fun r => r.id = row.id && r.status = row.status) (rearmed now) rows ∧
        admission.changed = (Table.updated
          (fun r => decide (r.id = row.id) && decide (r.status = row.status)) rows == 1)) ∨
      (rows' = rows ∧ admission.changed = false ∧
        ¬ (input.rearm = true ∧ (row.status = .succeeded ∨ row.status = .failed) ∧ row.leaseToken = none) ∧
        ¬ (input.fenceRunning = true ∧ row.status = .running))) := by
  simp only [admitCurrentEffect] at h
  split at h
  · rename_i hnone
    refine .inl ⟨hnone, ?_⟩
    split at h
    · cases h
    · cases h
    · rename_i henq
      cases h
      refine ⟨rfl, ?_⟩
      obtain ⟨⟨mid, id'⟩, hmid, hrest⟩ := bind_ok (enqueuePageMutationEffects_ok henq)
      cases hrest
      exact enqueueEffect_step hmid
  · rename_i row hrow
    refine .inr ⟨row, hrow, ?_⟩
    split at h
    · cases h
    · split at h
      · cases h
      · split at h
        · rename_i hcond
          cases h
          refine .inl ⟨?_, rfl, rfl⟩
          simp only [Bool.or_eq_true, Bool.and_eq_true, decide_eq_true_eq, Option.isNone_iff_eq_none] at hcond
          rcases hcond with ⟨⟨-, hstatus⟩, htoken⟩ | ⟨-, hrun⟩
          · exact .inl ⟨hstatus, htoken⟩
          · exact .inr hrun
        · rename_i hcond
          cases h
          refine .inr ⟨rfl, rfl, ?_, ?_⟩
          · rintro ⟨hr, hs, ht⟩
            exact hcond (by simp [hr, hs, ht])
          · rintro ⟨hf, hrun⟩
            exact hcond (by simp [hf, hrun])

theorem admitCurrentEffect_step (h : admitCurrentEffect env page kind input fresh now rows = .ok (rows', admission)) :
    AdmitStep fresh page.id page.sourceRevision .present kind rows rows' := by
  rcases admitCurrentEffect_cases h with ⟨-, -, hstep⟩ | ⟨row, hrow, ⟨harm, rfl, -⟩ | ⟨rfl, -⟩⟩
  · exact hstep
  · exact .rearm row now hrow harm
  · exact .same _

/-- An admission that reports no change made none. -/
theorem admitCurrentEffect_unchanged (hids : (rows.map PageMutationOutboxRow.id).Nodup)
    (h : admitCurrentEffect env page kind input fresh now rows = .ok (rows', admission))
    (hchanged : admission.changed = false) : rows' = rows := by
  rcases admitCurrentEffect_cases h with
    ⟨-, htrue, -⟩ | ⟨row, hrow, ⟨harm, -, hcount⟩ | ⟨heq, -⟩⟩
  · rw [hchanged] at htrue
    cases htrue
  · rw [hchanged] at hcount
    have hone := (Table.updated_eq_one_iff PageMutationOutboxRow.id
      (p := fun r => decide (r.id = row.id) && decide (r.status = row.status)) hids
      (k := row.id) (by simp +contextual)).mpr ⟨row, (effectRow_mem hrow).1, by simp⟩
    rw [hone] at hcount
    simp at hcount
  · exact heq

/-- An admission that re-arms and fences leaves its effect waiting, failed with a lease,
or superseded. -/
theorem admitCurrentEffect_fences (hw : WellFormed rows) (hres : Reserved fresh page.id page.sourceRevision rows)
    (h : admitCurrentEffect env page kind ⟨true, true, none⟩ fresh now rows = .ok (rows', admission)) : ∀ row ∈ rows',
    row.key = (page.id, page.sourceRevision, kind) → row.status ≠ .succeeded ∧ row.status ≠ .running := by
  intro r hr hkey
  rcases admitCurrentEffect_cases h with
    ⟨hnone, -, hstep⟩ | ⟨row, hrow, ⟨harm, rfl, -⟩ | ⟨rfl, -, hrearm, hfence⟩⟩
  · rcases hstep.back r hr with ⟨r₀, hr₀, hrearms⟩ | ⟨payload, -, -, -, -, rfl⟩
    · exact absurd (hrearms.key ▸ hkey) (effectRow_none hnone r₀ hr₀)
    · simp [pendingRow]
  · obtain ⟨r₀, hr₀, rfl⟩ := Table.mem_updateWhere.mp hr
    have hr₀key : r₀.key = (page.id, page.sourceRevision, kind) := by
      split at hkey <;> exact hkey
    obtain rfl : r₀ = row := by
      have := (effectRow_iff hw.keys).mpr ⟨hr₀, hr₀key⟩
      rw [hrow] at this
      exact (Option.some.inj this).symm
    simp [rearmed]
  · have hreq := (effectRow_iff hw.keys).mpr ⟨hr, hkey⟩
    rw [hrow] at hreq
    cases hreq
    refine ⟨fun hs => ?_, fun hs => hfence ⟨rfl, hs⟩⟩
    exact hrearm ⟨rfl, .inl hs, hw.unleased r hr (by simp [hs])⟩

end

/-! ## Transactions under the page lock -/

/-- The page, its links and every finished render effect are as before. -/
structure Kept (fresh : Fresh) (pageId revision : Nat) (db db' : Database) : Prop where
  admits : Admits fresh pageId revision .present db.outbox db'.outbox
  pages : db'.pages = db.pages
  pageLinks : db'.pageLinks = db.pageLinks
  renders : ∀ row ∈ db.outbox, row.effectKind = .render → row ∈ db'.outbox

/-- The render of the page is withdrawn; no links effect of its revision is finished or
running, and the render effects of other revisions are as before. -/
structure Withdrawn (fresh : Fresh) (page : ProjectionPageRow) (db db' : Database) : Prop where
  admits : Admits fresh page.id page.sourceRevision .present db.outbox db'.outbox
  pages : db'.pages = Function.update db.pages page.id
    (some { page with render := [], renderedSourceRevision := none })
  pageLinks : db'.pageLinks = Function.update db.pageLinks page.id []
  links : ∀ row ∈ db'.outbox, row.key = (page.id, page.sourceRevision, .links) →
    row.status ≠ .succeeded ∧ row.status ≠ .running
  renders : ∀ row ∈ db.outbox, row.effectKind = .render →
    row.key ≠ (page.id, page.sourceRevision, .render) → row ∈ db'.outbox

/-- A transaction that kept or withdrew the render of a page. -/
def Admitted (fresh : Fresh) (page : ProjectionPageRow) (db db' : Database) : Prop :=
  Kept fresh page.id page.sourceRevision db db' ∨ Withdrawn fresh page db db'

section
variable {fresh : Fresh} {page : ProjectionPageRow} {db db' db'' : Database}

theorem Kept.refl (db : Database) : Kept fresh page.id page.sourceRevision db db := ⟨.refl, rfl, rfl, fun _ h _ => h⟩

theorem Admitted.admits (h : Admitted fresh page db db') :
    Admits fresh page.id page.sourceRevision .present db.outbox db'.outbox := by
  rcases h with h | h
  · exact h.admits
  · exact h.admits

theorem Kept.of_step {rows : List PageMutationOutboxRow} {kind : PageProjectionEffectKind}
    (hids : (db.outbox.map PageMutationOutboxRow.id).Nodup) (hkind : kind ≠ .render)
    (h : AdmitStep fresh page.id page.sourceRevision .present kind db.outbox rows) :
    Kept fresh page.id page.sourceRevision db { db with outbox := rows } := by
  refine ⟨h.admits, rfl, rfl, ?_⟩
  intro row hrow hrender
  refine h.others hids hrow fun hkey => hkind ?_
  rw [← hrender]
  exact (congrArg (fun k => k.2.2) hkey).symm

theorem Kept.then (h : Kept fresh page.id page.sourceRevision db db')
    (h' : Admitted fresh page db' db'') : Admitted fresh page db db'' := by
  rcases h' with h' | h'
  · exact .inl ⟨h.admits.trans h'.admits, h'.pages.trans h.pages,
      h'.pageLinks.trans h.pageLinks,
      fun row hrow hkind => h'.renders row (h.renders row hrow hkind) hkind⟩
  · refine .inr ⟨h.admits.trans h'.admits, ?_, ?_, h'.links, ?_⟩
    · rw [h'.pages, h.pages]
    · rw [h'.pageLinks, h.pageLinks]
    · exact fun row hrow hkind hkey => h'.renders row (h.renders row hrow hkind) hkind hkey

theorem Withdrawn.then (h : Withdrawn fresh page db db')
    (h' : Kept fresh page.id page.sourceRevision db' db'') : Withdrawn fresh page db db'' := by
  refine ⟨h.admits.trans h'.admits, h'.pages.trans h.pages, h'.pageLinks.trans h.pageLinks, ?_,
    fun row hrow hkind hkey => h'.renders row (h.renders row hrow hkind hkey) hkind⟩
  intro row hrow hkey
  rcases h'.admits.back row hrow with ⟨r, hr, rfl | ⟨now, rfl⟩⟩ | ⟨payload, -, -, -, rfl | ⟨now, rfl⟩⟩
  · exact h.links _ hr hkey
  · simp [rearmed]
  · simp [pendingRow]
  · simp [rearmed]

theorem Admitted.then (h : Admitted fresh page db db')
    (h' : Kept fresh page.id page.sourceRevision db' db'') : Admitted fresh page db db'' := by
  rcases h with h | h
  · exact h.then (.inl h')
  · exact .inr (h.then h')

variable {env : Environment} {now : Time}

/-- A changed render admission with what follows it withdraws the render. -/
theorem rearmRenderedProjections_withdrawn {rows : List PageMutationOutboxRow} (hfresh : fresh.Distinct)
    (hw : WellFormed db.outbox) (hres : Reserved fresh page.id page.sourceRevision db.outbox)
    (hpage : db.pages page.id = some page)
    (hrender : AdmitStep fresh page.id page.sourceRevision .present .render db.outbox rows)
    (h : rearmRenderedProjections env page fresh now { db with outbox := rows } = .ok db') :
    Withdrawn fresh page db db' := by
  obtain ⟨⟨rows₁, links⟩, hlinks, h⟩ := bind_ok h
  obtain ⟨⟨rows₂, search⟩, hsearch, h⟩ := bind_ok h
  cases h
  have hlinks : admitCurrentEffect env page .links ⟨true, true, none⟩ fresh now rows = .ok (rows₁, links) := hlinks
  have hsearch : admitCurrentEffect env page .search ⟨true, true, none⟩ fresh now rows₁ = .ok (rows₂, search) := hsearch
  have hw₀ := hrender.wellFormed hres hw
  have hres₀ := hrender.reserved hfresh hres
  have hstep₁ := admitCurrentEffect_step hlinks
  have hw₁ := hstep₁.wellFormed hres₀ hw₀
  have hstep₂ := admitCurrentEffect_step hsearch
  refine ⟨?_, ?_, rfl, ?_, ?_⟩
  · exact (hrender.admits.tail ⟨_, hstep₁⟩).tail ⟨_, hstep₂⟩
  · simp [invalidateRenderedProjections, hpage]
  · intro row hrow hkey
    rcases hstep₂.back row hrow with ⟨r, hr, rfl | ⟨now', rfl⟩⟩ | ⟨payload, -, -, -, hkind, rfl⟩
    · exact admitCurrentEffect_fences hw₀ hres₀ hlinks _ hr hkey
    · simp [rearmed]
    · simp [pendingRow]
  · intro row hrow hkind hkey
    have hother : ∀ k ≠ PageProjectionEffectKind.render,
        row.key ≠ (page.id, page.sourceRevision, k) := by
      intro k hk heq
      exact hk ((congrArg (fun key => key.2.2) heq).symm.trans hkind)
    have h₀ := hrender.others hw.ids hrow hkey
    have h₁ := hstep₁.others hw₀.ids h₀ (hother _ (by decide))
    exact hstep₂.others hw₁.ids h₁ (hother _ (by decide))

theorem admitRenderDependency_ok {changed : Bool} (hfresh : fresh.Distinct) (hw : WellFormed db.outbox)
    (hres : Reserved fresh page.id page.sourceRevision db.outbox) (hpage : db.pages page.id = some page)
    (h : admitRenderDependency env page fresh now db = .ok (db', changed)) : Admitted fresh page db db' := by
  obtain ⟨⟨rows, render⟩, hrender, h⟩ := bind_ok h
  dsimp only at h
  split at h
  · obtain ⟨db₁, hdb₁, h⟩ := bind_ok h
    cases h
    exact .inr (rearmRenderedProjections_withdrawn hfresh hw hres hpage (admitCurrentEffect_step hrender) hdb₁)
  · rename_i hchanged
    cases h
    rw [admitCurrentEffect_unchanged hw.ids hrender (by simpa using hchanged)]
    exact .inl (.refl db)

theorem ensureRenderDependency_ok {changed : Bool} (hfresh : fresh.Distinct) (hw : WellFormed db.outbox)
    (hres : Reserved fresh page.id page.sourceRevision db.outbox) (hpage : db.pages page.id = some page)
    (h : ensureRenderDependency env page fresh now db = .ok (db', changed)) : Admitted fresh page db db' := by
  simp only [ensureRenderDependency] at h
  split at h
  · exact admitRenderDependency_ok hfresh hw hres hpage h
  · split at h
    · cases h
    · split at h
      · cases h
      · split at h
        · cases h
          exact .inl (.refl db)
        · exact admitRenderDependency_ok hfresh hw hres hpage h

theorem ensureSearchableRender_ok {changed : Bool} (hfresh : fresh.Distinct) (hw : WellFormed db.outbox)
    (hres : Reserved fresh page.id page.sourceRevision db.outbox) (hpage : db.pages page.id = some page)
    (h : ensureSearchableRender env page fresh db = .ok (db', changed)) : Admitted fresh page db db' := by
  rw [ensureSearchableRender] at h
  split at h
  · exact ensureRenderDependency_ok hfresh hw hres hpage h
  · cases h
    exact .inl (.refl db)

theorem admitPageRenderEffect_ok {input : RenderAdmissionInput} {id : Uuid} (hfresh : fresh.Distinct)
    (hw : WellFormed db.outbox) (hpages : ∀ p page, db.pages p = some page → page.id = p)
    (hres : ∀ pageId revision, Reserved fresh pageId revision db.outbox)
    (h : admitPageRenderEffect env input fresh now db = .ok (db', id)) : ∃ page, db.pages page.id = some page ∧
    Admitted fresh page db db' := by
  simp only [admitPageRenderEffect] at h
  split at h
  · cases h
  split at h
  · cases h
  split at h
  · cases h
  rename_i page hpage
  have hid := hpages _ _ hpage
  rw [← hid] at hpage
  split at h
  · cases h
  obtain ⟨⟨rows, render⟩, hrender, h⟩ := bind_ok h
  refine ⟨page, hpage, ?_⟩
  dsimp only at h
  split at h
  · obtain ⟨db₁, hdb₁, h⟩ := bind_ok h
    cases h
    exact .inr (rearmRenderedProjections_withdrawn hfresh hw (hres _ _) hpage (admitCurrentEffect_step hrender) hdb₁)
  · rename_i hchanged
    cases h
    rw [admitCurrentEffect_unchanged hw.ids hrender (by simpa using hchanged)]
    exact .inl (.refl db)

theorem admitPageSearchEffect_ok {pageId : Nat} {id : Uuid} (hfresh : fresh.Distinct) (hw : WellFormed db.outbox)
    (hpages : ∀ p page, db.pages p = some page → page.id = p)
    (hres : ∀ pageId revision, Reserved fresh pageId revision db.outbox)
    (h : admitPageSearchEffect env pageId fresh now db = .ok (db', id)) : ∃ page, db.pages page.id = some page ∧
    Admitted fresh page db db' := by
  simp only [admitPageSearchEffect] at h
  split at h
  · cases h
  split at h
  · cases h
  rename_i page hpage
  have hid := hpages _ _ hpage
  rw [← hid] at hpage
  obtain ⟨⟨rows, effect⟩, heffect, h⟩ := bind_ok h
  have hstep := admitCurrentEffect_step heffect
  have hkept := Kept.of_step hw.ids (by decide) hstep
  refine ⟨page, hpage, ?_⟩
  obtain ⟨⟨db₁, changed⟩, hdb₁, h⟩ := bind_ok h
  cases h
  exact hkept.then (ensureSearchableRender_ok hfresh (hstep.wellFormed (hres _ _) hw)
    (hstep.reserved hfresh (hres _ _)) hpage hdb₁)

/-- An admission of another kind of effect after the render was looked after. -/
theorem Admitted.thenEffect {rows : List PageMutationOutboxRow} {kind : PageProjectionEffectKind}
    {input : AdmitInput} {admission : Admission} (hfresh : fresh.Distinct)
    (hw : WellFormed db.outbox) (hres : Reserved fresh page.id page.sourceRevision db.outbox)
    (hkind : kind ≠ .render) (h : Admitted fresh page db db')
    (hrearmed : admitCurrentEffect env page kind input fresh now db'.outbox =
      .ok (rows, admission)) : Admitted fresh page db { db' with outbox := rows } :=
  h.then (.of_step (h.admits.wellFormed hfresh hres hw).1.ids hkind (admitCurrentEffect_step hrearmed))

theorem repairSearchEffect_ok {changed : Bool} (hfresh : fresh.Distinct) (hw : WellFormed db.outbox)
    (hres : Reserved fresh page.id page.sourceRevision db.outbox) (hpage : db.pages page.id = some page)
    (h : repairSearchEffect env page fresh db = .ok (db', changed)) : Admitted fresh page db db' := by
  obtain ⟨⟨db₁, renderChanged⟩, hdb₁, h⟩ := bind_ok h
  obtain ⟨⟨rows, search⟩, hsearch, h⟩ := bind_ok h
  cases h
  exact (ensureSearchableRender_ok hfresh hw hres hpage hdb₁).thenEffect hfresh hw hres
    (by decide) hsearch

theorem repairSearchPage_ok {pageId : Nat} {changed : Bool} (hfresh : fresh.Distinct) (hw : WellFormed db.outbox)
    (hpages : ∀ p page, db.pages p = some page → page.id = p)
    (hres : ∀ pageId revision, Reserved fresh pageId revision db.outbox)
    (h : repairSearchPage env pageId fresh db = .ok (db', changed)) : db' = db ∨ ∃ page, db.pages page.id = some page ∧
    Admitted fresh page db db' := by
  simp only [repairSearchPage] at h
  split at h
  · cases h
    exact .inl rfl
  rename_i page hpage
  have hid := hpages _ _ hpage
  rw [← hid] at hpage
  split at h
  · exact .inr ⟨page, hpage, repairSearchEffect_ok hfresh hw (hres _ _) hpage h⟩
  · split at h
    · cases h
    · split at h
      · cases h
        exact .inl rfl
      · exact .inr ⟨page, hpage, repairSearchEffect_ok hfresh hw (hres _ _) hpage h⟩

theorem maintainGraphEffects_ok {pageId : Nat} (hfresh : fresh.Distinct) (hw : WellFormed db.outbox)
    (hpages : ∀ p page, db.pages p = some page → page.id = p)
    (hres : ∀ pageId revision, Reserved fresh pageId revision db.outbox)
    (h : maintainGraphEffects env pageId fresh db = .ok db') : db' = db ∨ ∃ page, db.pages page.id = some page ∧
    Admitted fresh page db db' := by
  simp only [maintainGraphEffects] at h
  split at h
  · cases h
    exact .inl rfl
  rename_i page hpage
  have hid := hpages _ _ hpage
  rw [← hid] at hpage
  split at h
  · cases h
    exact .inl rfl
  obtain ⟨⟨db₁, renderChanged⟩, hdb₁, h⟩ := bind_ok h
  obtain ⟨⟨rows, links⟩, hlinks, h⟩ := bind_ok h
  cases h
  exact .inr ⟨page, hpage, (ensureRenderDependency_ok hfresh hw (hres _ _) hpage hdb₁).thenEffect
    hfresh hw (hres _ _) (by decide) hlinks⟩

theorem ensureSearchRender_ok {payload : PageProjectionPayload} (hfresh : fresh.Distinct) (hw : WellFormed db.outbox)
    (hpages : ∀ p page, db.pages p = some page → page.id = p)
    (hres : ∀ pageId revision, Reserved fresh pageId revision db.outbox)
    (h : ensureSearchRender env payload fresh db = .ok db') : db' = db ∨ ∃ page, db.pages page.id = some page ∧
    Admitted fresh page db db' := by
  simp only [ensureSearchRender] at h
  split at h
  · cases h
    exact .inl rfl
  rename_i page hpage
  have hid := hpages _ _ hpage
  rw [← hid] at hpage
  split at h
  · cases hdb : ensureRenderDependency env page fresh fresh.now db with
    | error e =>
      rw [hdb] at h
      cases h
    | ok r =>
      rw [hdb] at h
      cases h
      exact .inr ⟨page, hpage, ensureRenderDependency_ok hfresh hw (hres _ _) hpage hdb⟩
  · cases h
    exact .inl rfl

end

end TsEpistle.Outbox
