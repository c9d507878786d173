import TsEpistle.Library.Checked
import TsEpistle.Pages.Rows

/-! What the queue of the outbox does to the effects of a page. -/

namespace TsEpistle.Pages
open Library Checked List
open Outbox (PageMutationOutboxRow PageProjectionEffectKind OutboxError Fresh EnqueueInput
  enqueueEffect enqueueEffects pageProjectionEffectKinds pendingRow effectRow validLocation)

variable {env : Environment} {input : EnqueueInput} {fresh : Fresh} {db db' : PageDatabase}
  {rows rows' : List PageMutationOutboxRow}

/-- The row that the queue adds for a kind. -/
def effectOf (env : Environment) (input : EnqueueInput) (fresh : Fresh)
    (kind : PageProjectionEffectKind) : PageMutationOutboxRow :=
  pendingRow (input.payload env.outbox kind) (fresh.id kind) fresh.now

@[simp] theorem effectOf_key (kind : PageProjectionEffectKind) :
    (effectOf env input fresh kind).key = (input.pageId, input.sourceRevision, kind) := rfl

/-- The schema accepts the locations. -/
def ValidInput (input : EnqueueInput) : Prop :=
  input.location.all validLocation = true ∧ input.previousLocation.all validLocation = true

/-- The revision of the input has no effect yet. -/
def Free (input : EnqueueInput) (rows : List PageMutationOutboxRow) : Prop :=
  ∀ row ∈ rows, row.pageId = input.pageId → row.sourceRevision ≠ input.sourceRevision

theorem effectRow_none_of_key {pageId revision : Nat} {kind : PageProjectionEffectKind}
    (h : ∀ row ∈ rows, row.key ≠ (pageId, revision, kind)) : effectRow rows pageId revision kind = none := by
  unfold effectRow Table.get
  rw [find?_eq_none]
  intro row hrow
  simpa using h row hrow

variable (env fresh) in
theorem enqueueEffects_fresh (hvalid : ValidInput input) :
    ∀ (kinds : List PageProjectionEffectKind) (rows : List PageMutationOutboxRow),
      kinds.Nodup → (∀ kind ∈ kinds, ∀ row ∈ rows, row.key ≠ (input.pageId, input.sourceRevision, kind)) →
      enqueueEffects env.outbox input fresh kinds rows
        = .ok (rows ++ kinds.map (effectOf env input fresh), kinds.map fresh.id) := by
  intro kinds
  induction kinds with
  | nil =>
    intro rows _ _
    simp [enqueueEffects]
  | cons kind kinds ih =>
    intro rows hnodup hfree
    have hnone := effectRow_none_of_key (hfree kind (by simp))
    have hone : enqueueEffect env.outbox input fresh rows kind
        = .ok (rows ++ [effectOf env input fresh kind], fresh.id kind) := by
      have h1 := hvalid.1
      have h2 := hvalid.2
      simp only [enqueueEffect, EnqueueInput.payload, h1, h2, hnone, Bool.and_self, Bool.not_true]
      rfl
    have hrest := ih (rows ++ [effectOf env input fresh kind]) (nodup_cons.mp hnodup).2 (by
      intro kind' hkind' row hrow
      rcases mem_append.mp hrow with hrow | hrow
      · exact hfree kind' (by simp [hkind']) row hrow
      · obtain rfl := mem_singleton.mp hrow
        have hne : kind ≠ kind' := fun heq => (nodup_cons.mp hnodup).1 (heq ▸ hkind')
        simp [hne])
    simp only [enqueueEffects, hone, bind, Except.bind]
    rw [hrest]
    simp [pure, Except.pure]

variable (env input fresh db) in
/-- Where the revision has no effect yet, the queue takes one pending effect of each kind. -/
theorem enqueue_fresh (hid : Outbox.validPageId input.pageId = true)
    (hpresent : input.desiredState = .present → input.source ≠ none ∧ input.location ≠ none)
    (habsent : input.desiredState = .absent → input.source = none ∧ input.location = none)
    (heffects : input.effects = none) (hvalid : ValidInput input) (hfree : Free input db.outbox) :
    enqueue env input fresh db
      = .ok { db with
          outbox := db.outbox ++ pageProjectionEffectKinds.map (effectOf env input fresh) } := by
  have hrun := enqueueEffects_fresh env fresh hvalid pageProjectionEffectKinds
    db.outbox (by decide) (by
      intro kind _ row hrow hkey
      simp only [PageMutationOutboxRow.key, Prod.mk.injEq] at hkey
      exact hfree row hrow hkey.1 hkey.2.1)
  have hp : ¬(input.desiredState = .present ∧ (input.source = none ∨ input.location = none)) := by
    rintro ⟨hd, hs | hl⟩
    · exact (hpresent hd).1 hs
    · exact (hpresent hd).2 hl
  have ha : ¬(input.desiredState = .absent ∧ (input.source ≠ none ∨ input.location ≠ none)) := by
    rintro ⟨hd, hs | hl⟩
    · exact hs (habsent hd).1
    · exact hl (habsent hd).2
  have hk : ¬¬pageProjectionEffectKinds.Nodup := by decide
  have hqueue : Outbox.enqueuePageMutationEffects env.outbox input fresh db.outbox
      = .ok (db.outbox ++ pageProjectionEffectKinds.map (effectOf env input fresh),
          pageProjectionEffectKinds.map fresh.id) := by
    unfold Outbox.enqueuePageMutationEffects
    simp only [heffects, Option.getD_none, hid, Bool.not_true, Bool.false_eq_true, if_false,
      if_neg hp, if_neg ha, if_neg hk]
    exact hrun
  simp [enqueue, hqueue, bind, Except.bind, pure, Except.pure]

theorem enqueueEffects_ok : ∀ (kinds : List PageProjectionEffectKind) (rows rows' : List PageMutationOutboxRow)
    (ids : List Outbox.Uuid), enqueueEffects env.outbox input fresh kinds rows = .ok (rows', ids) → ∃ new,
    rows' = rows ++ new ∧ (∀ row ∈ new, row.pageId = input.pageId ∧ row.sourceRevision = input.sourceRevision) ∧
    ∀ kind ∈ kinds, input.location.all validLocation = true ∧ ∃ row ∈ rows', row.pageId = input.pageId ∧
    row.sourceRevision = input.sourceRevision := by
  intro kinds
  induction kinds with
  | nil =>
    intro rows rows' ids h
    cases h
    exact ⟨[], by simp, by simp, by simp⟩
  | cons kind kinds ih =>
    intro rows rows' ids h
    obtain ⟨⟨mid, id⟩, hmid, h⟩ := bind_ok h
    obtain ⟨⟨last, ids'⟩, hlast, h⟩ := bind_ok h
    cases h
    obtain ⟨new, rfl, hnew, hkinds⟩ := ih mid _ _ hlast
    have hone : ∃ new, mid = rows ++ new ∧
        (∀ row ∈ new, row.pageId = input.pageId ∧ row.sourceRevision = input.sourceRevision) ∧
        input.location.all validLocation = true ∧
        ∃ row ∈ mid, row.pageId = input.pageId ∧ row.sourceRevision = input.sourceRevision := by
      unfold enqueueEffect at hmid
      dsimp only at hmid
      split at hmid
      · cases hmid
      next hvalid =>
      have hlocation : input.location.all validLocation = true := by
        simp only [EnqueueInput.payload, Bool.not_eq_true', Bool.and_eq_false_iff, not_or, Bool.not_eq_false] at hvalid
        exact hvalid.1
      split at hmid
      next =>
        cases hmid
        exact ⟨[_], rfl, by simp [pendingRow, EnqueueInput.payload], hlocation,
          _, mem_append_right _ (mem_singleton.mpr rfl), rfl, rfl⟩
      next existing hrow =>
        split at hmid
        · cases hmid
          have hmem := Table.get_mem PageMutationOutboxRow.key hrow
          simp only [PageMutationOutboxRow.key, Prod.mk.injEq] at hmem
          exact ⟨[], by simp, by simp, hlocation, existing, hmem.1, hmem.2.1, hmem.2.2.1⟩
        · cases hmid
    obtain ⟨first, rfl, hfirst, hlocation, row, hrow, hr⟩ := hone
    refine ⟨first ++ new, by simp, ?_, ?_⟩
    · intro r hr
      rcases mem_append.mp hr with hr | hr
      · exact hfirst r hr
      · exact hnew r hr
    · intro _ _
      exact ⟨hlocation, row, mem_append_left _ hrow, hr⟩

/-! ## When the queue accepts -/

/-- An effect of this kind that the revision has already says what the input says. -/
def Agrees (env : Environment) (input : EnqueueInput) (rows : List PageMutationOutboxRow)
    (kind : PageProjectionEffectKind) : Prop :=
  ∀ row, effectRow rows input.pageId input.sourceRevision kind = some row →
    row.payload = input.payload env.outbox kind ∧ row.desiredState = input.desiredState

/-- An effect of another kind does not bear on the agreement. -/
theorem agrees_append {kind other : PageProjectionEffectKind} {row : PageMutationOutboxRow}
    (hkey : row.key = (input.pageId, input.sourceRevision, other)) (hne : kind ≠ other) :
    Agrees env input (rows ++ [row]) kind ↔ Agrees env input rows kind := by
  have hnone : effectRow [row] input.pageId input.sourceRevision kind = none := by
    refine effectRow_none_of_key fun r hr => ?_
    obtain rfl := mem_singleton.mp hr
    simp [hkey, Ne.symm hne]
  have hsame : effectRow (rows ++ [row]) input.pageId input.sourceRevision kind
      = effectRow rows input.pageId input.sourceRevision kind := by
    unfold effectRow at hnone ⊢
    rw [Table.get_append, hnone, Option.or_none]
  simp [Agrees, hsame]

variable (env fresh rows) in
theorem enqueueEffect_commits_iff (hvalid : ValidInput input) (kind : PageProjectionEffectKind) :
    (∃ result, enqueueEffect env.outbox input fresh rows kind = .ok result) ↔ Agrees env input rows kind := by
  have hlocations : ((input.payload env.outbox kind).location.all validLocation
      && (input.payload env.outbox kind).previousLocation.all validLocation) = true := by
    rw [Bool.and_eq_true]
    exact hvalid
  unfold enqueueEffect Agrees
  dsimp only
  rw [hlocations]
  cases effectRow rows input.pageId input.sourceRevision kind with
  | none => simp
  | some existing =>
    by_cases hsame : existing.payload = input.payload env.outbox kind ∧ existing.desiredState = input.desiredState
    · simp [hsame]
    · simp [hsame]

/-- The rows after one turn of the loop. -/
theorem enqueueEffect_rows {kind : PageProjectionEffectKind} {result}
    (h : enqueueEffect env.outbox input fresh rows kind = .ok result) :
    result.1 = rows ∨ result.1 = rows ++ [effectOf env input fresh kind] := by
  unfold enqueueEffect at h
  dsimp only at h
  split at h
  · cases h
  split at h
  · cases h
    exact .inr rfl
  · split at h
    · cases h
      exact .inl rfl
    · cases h

variable (env fresh) in
/-- **Queue rule.** The queue accepts an input exactly where every effect that the revision has
already agrees with it. -/
theorem enqueueEffects_commits_iff (hvalid : ValidInput input) :
    ∀ (kinds : List PageProjectionEffectKind) (rows : List PageMutationOutboxRow), kinds.Nodup →
      ((∃ result, enqueueEffects env.outbox input fresh kinds rows = .ok result) ↔
        ∀ kind ∈ kinds, Agrees env input rows kind) := by
  intro kinds
  induction kinds with
  | nil =>
    intro rows _
    simp [enqueueEffects]
  | cons kind kinds ih =>
    intro rows hnodup
    have hone := enqueueEffect_commits_iff env fresh rows hvalid kind
    have hrest : ∀ {result}, enqueueEffect env.outbox input fresh rows kind = .ok result →
        ∀ other ∈ kinds, Agrees env input result.1 other ↔ Agrees env input rows other := by
      intro result hresult other hother
      rcases enqueueEffect_rows hresult with h | h <;> rw [h]
      refine agrees_append (effectOf_key kind) ?_
      rintro rfl
      exact (nodup_cons.mp hnodup).1 hother
    constructor
    · rintro ⟨result, h⟩
      obtain ⟨first, hfirst, h⟩ := bind_ok h
      obtain ⟨others, hothers, -⟩ := bind_ok h
      have hagrees := (ih first.1 (nodup_cons.mp hnodup).2).mp ⟨others, hothers⟩
      intro other hother
      rcases mem_cons.mp hother with rfl | hother
      · exact hone.mp ⟨first, hfirst⟩
      · exact (hrest hfirst other hother).mp (hagrees other hother)
    · intro hagrees
      obtain ⟨first, hfirst⟩ := hone.mpr (hagrees kind mem_cons_self)
      obtain ⟨others, hothers⟩ := (ih first.1 (nodup_cons.mp hnodup).2).mpr
        fun other hother => (hrest hfirst other hother).mpr
          (hagrees other (mem_cons_of_mem _ hother))
      refine ⟨(others.1, first.2 :: others.2), ?_⟩
      simp only [enqueueEffects, hfirst, bind, Except.bind]
      rw [hothers]
      rfl

variable (env fresh db) in
/-- The queue rule for the effects of a page. -/
theorem enqueue_present_iff (page : PageRow) (action : Outbox.Action) (previous : Option Outbox.PageProjectionLocation)
    (hid : Outbox.validPageId page.id = true) (hvalid : validLocation page.location = true)
    (hprevious : previous.all validLocation = true) :
    (∃ db', enqueue env (presentEffects page action previous) fresh db = .ok db') ↔ ∀ kind,
    Agrees env (presentEffects page action previous) db.outbox kind := by
  have hinput : ValidInput (presentEffects page action previous) := ⟨by simpa [presentEffects] using hvalid, hprevious⟩
  have hrule := enqueueEffects_commits_iff env fresh hinput
    pageProjectionEffectKinds db.outbox (by decide)
  have hqueue : Outbox.enqueuePageMutationEffects env.outbox (presentEffects page action previous)
      fresh db.outbox = enqueueEffects env.outbox (presentEffects page action previous) fresh
        pageProjectionEffectKinds db.outbox := by
    have hk : pageProjectionEffectKinds.Nodup := by decide
    unfold Outbox.enqueuePageMutationEffects
    simp [presentEffects, hid, hk]
  have hkinds : (∀ kind ∈ pageProjectionEffectKinds,
      Agrees env (presentEffects page action previous) db.outbox kind) ↔
        ∀ kind, Agrees env (presentEffects page action previous) db.outbox kind :=
    ⟨fun h kind => h kind (by cases kind <;> decide), fun h kind _ => h kind⟩
  rw [← hkinds, ← hrule]
  unfold enqueue
  rw [hqueue]
  constructor
  · rintro ⟨db', h⟩
    obtain ⟨result, hresult, -⟩ := bind_ok h
    exact ⟨result, hresult⟩
  · rintro ⟨result, hresult⟩
    rw [hresult]
    exact ⟨_, rfl⟩

/-! ## What the queue leaves -/

/-- The queue only adds effects of the revision, and that revision has one then. -/
theorem enqueue_ok (heffects : input.effects = none) (h : enqueue env input fresh db = .ok db') : ∃ new,
    db' = { db with outbox := db.outbox ++ new } ∧
    (∀ row ∈ new, row.pageId = input.pageId ∧ row.sourceRevision = input.sourceRevision) ∧
    (∃ row ∈ db.outbox ++ new, row.pageId = input.pageId ∧ row.sourceRevision = input.sourceRevision) ∧
    input.location.all validLocation = true ∧ Outbox.validPageId input.pageId = true := by
  obtain ⟨⟨outbox, ids⟩, hq, h⟩ := bind_ok h
  cases h
  unfold Outbox.enqueuePageMutationEffects at hq
  dsimp only at hq
  split at hq
  · cases hq
  next hid =>
    split at hq
    · cases hq
    split at hq
    · cases hq
    split at hq
    · cases hq
    rw [heffects, Option.getD_none] at hq
    obtain ⟨new, rfl, hnew, hrows⟩ := enqueueEffects_ok _ _ _ _ hq
    obtain ⟨hlocation, hrow⟩ := hrows .render (by decide)
    exact ⟨new, rfl, hnew, hrow, hlocation, by simpa using hid⟩

end TsEpistle.Pages
