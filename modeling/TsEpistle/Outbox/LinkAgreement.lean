import TsEpistle.Outbox.Steps

/-! # Links agree with the certified render

A finished links effect of the current revision stands on a finished render effect,
and whatever takes that render effect back arms the links effect again and fences
its worker. Until then the links of the page are those of its certified render. -/

namespace TsEpistle.Outbox
open Library List Function

variable {env : Environment} {s : System} {op : Op}

/-! ## Finished links effects -/

/-- The links effects of the page's current revision rest on its render. -/
def Agrees (env : Environment) (db : Database) (page : ProjectionPageRow) : Prop :=
  (∃ row ∈ db.outbox, row.key = (page.id, page.sourceRevision, .render) ∧ row.status = .succeeded) ∧
  (hasCertifiedRender page = true → db.pageLinks page.id = extractRenderedPageLinks env page.render page.localeCode)

/-- The effect is finished, or its worker has only the status write ahead. -/
def Settled (s : System) (row : PageMutationOutboxRow) : Prop :=
  row.status = .succeeded ∨ row.status = .running ∧ ∃ worker ∈ s.workers,
    row.leaseToken = some worker.claim.leaseToken ∧ ∃ u, worker.stage = .finishing u ∧ u.status = .succeeded

theorem Settled.status {row : PageMutationOutboxRow} (h : Settled s row) :
    row.status = .succeeded ∨ row.status = .running := by
  rcases h with h | ⟨h, -⟩
  · exact .inl h
  · exact .inr h

def LinksInvariant (env : Environment) (s : System) : Prop :=
  ∀ row ∈ s.db.outbox, row.effectKind = .links → ∀ page, s.db.pages row.pageId = some page →
    row.sourceRevision = page.sourceRevision → Settled s row → Agrees env s.db page

/-- The page of the payload is gone or at another revision. -/
def Stale (db : Database) (payload : PageProjectionPayload) : Prop :=
  ∀ page, db.pages payload.pageId = some page → page.sourceRevision ≠ payload.sourceRevision

theorem sinkAnswered_succeeded {answer : Option PageProjectionSinkResult}
    (h : (sinkAnswered answer).status = .succeeded) :
    ∃ result, answer = some result ∧ result.postcondition.satisfied = true := by
  cases answer with
  | none => cases h
  | some result =>
    refine ⟨result, rfl, ?_⟩
    simp only [sinkAnswered] at h
    split at h
    · assumption
    · cases h

theorem sinkThrew_unsucceeded {claim : ClaimedPageProjectionEffect} {message : String}
    {now : Time} : (sinkThrew claim message now).status ≠ .succeeded := by
  simp only [sinkThrew]
  split <;> simp

variable {payload : PageProjectionPayload}

/-- A plan that answers success has found the page gone or at another revision. -/
theorem linksPlan_succeeds {db : Database} {u : FinishUpdate}
    (habsent : payload.desiredState = .absent → db.pages payload.pageId = none)
    (h : afterPlan (linksPlan env payload (db.pages payload.pageId)) = .finishing u)
    (hu : u.status = .succeeded) : Stale db payload := by
  rw [linksPlan] at h
  split at h
  · rename_i hstate
    intro page hpage
    rw [habsent hstate] at hpage
    cases hpage
  · split at h
    · cases h
      cases hu
    · split at h
      · rename_i hnone
        intro page hpage
        rw [hnone] at hpage
        cases hpage
      · rename_i current hcurrent
        split at h
        · rename_i hrevision
          intro page hpage
          rw [hcurrent] at hpage
          cases hpage
          exact hrevision
        · split at h
          · cases h
            cases hu
          · cases h

theorem replaceLinks_succeeds {db : Database} {before : ProjectionPageRow} {links : List PageLinkIdentity}
    (h : (replaceLinks env payload before links db).2.postcondition.satisfied = true) : Stale db payload ∨ ∃ current,
    db.pages payload.pageId = some current ∧ current.sourceRevision = payload.sourceRevision ∧
    mayReplaceLinks env payload before current db.outbox = true := by
  rw [replaceLinks] at h
  split at h
  · rename_i hnone
    refine .inl fun page hpage => ?_
    rw [hnone] at hpage
    cases hpage
  · rename_i current hcurrent
    split at h
    · rename_i hrevision
      refine .inl fun page hpage => ?_
      rw [hcurrent] at hpage
      cases hpage
      exact hrevision
    · rename_i hrevision
      split at h
      · rename_i hmay
        exact .inr ⟨current, hcurrent, by simpa using hrevision, hmay⟩
      · cases h

variable {worker : Worker}

/-- How a worker comes to have only the status write ahead. -/
theorem nextStage_succeeds {u : FinishUpdate} (hstage : StageInvariant env worker.claim.payload worker.stage)
    (habsent : worker.claim.payload.desiredState = .absent → s.db.pages worker.claim.payload.pageId = none)
    (h : nextStage env s.db worker op = .finishing u) (hu : u.status = .succeeded) : worker.stage = .finishing u ∨
    worker.claim.payload.effectKind ≠ .links ∨ Stale s.db worker.claim.payload ∨ ∃ i before links,
    op = .replaceLinks i ∧ worker.stage = .replacingLinks before links ∧ ∃ current,
    s.db.pages worker.claim.payload.pageId = some current ∧
    current.sourceRevision = worker.claim.payload.sourceRevision ∧
    mayReplaceLinks env worker.claim.payload before current s.db.outbox = true := by
  obtain ⟨claim, stage⟩ := worker
  have hgone : claim.payload.desiredState = .absent → Stale s.db claim.payload := by
    intro hstate page hpage
    rw [habsent hstate] at hpage
    cases hpage
  cases op <;> simp only [nextStage] at h
  case checkLease i now =>
    split at h
    · split at h <;> cases h
    · exact .inl h
  case noSink i =>
    split at h
    · cases h
      cases hu
    · exact .inl h
  case readPage i =>
    split at h
    · split at h
      · exact .inr (.inr (.inl (linksPlan_succeeds habsent h hu)))
      · cases h
    · exact .inl h
  case deleteLinks i =>
    split at h
    · cases h
    · exact .inl h
  case readRemaining i =>
    split at h
    · exact .inr (.inr (.inl (hgone hstage)))
    · exact .inl h
  case readRenderEffect i now =>
    split at h
    · split at h
      · cases h
      · cases h
        exact absurd hu sinkThrew_unsucceeded
    · exact .inl h
  case replaceLinks i =>
    split at h
    · rename_i before links
      cases h
      obtain ⟨result, hresult, hsatisfied⟩ := sinkAnswered_succeeded hu
      cases hresult
      rcases replaceLinks_succeeds hsatisfied with hstale | hcurrent
      · exact .inr (.inr (.inl hstale))
      · exact .inr (.inr (.inr ⟨i, before, links, rfl, rfl, hcurrent⟩))
    · exact .inl h
  case throws i message now =>
    split at h
    · cases h
      exact absurd hu sinkThrew_unsucceeded
    · exact .inl h
  case otherSink i answer =>
    split at h
    · split at h
      · cases h
      · rename_i hkind
        exact .inr (.inl hkind)
    · exact .inl h
  case finish i now =>
    split at h
    · cases h
    · exact .inl h
  all_goals exact .inl h

/-! ## What one operation leaves settled -/

theorem TableInvariant.absentPage (hs : TableInvariant env s) (hworker : worker ∈ s.workers)
    (habsent : worker.claim.payload.desiredState = .absent) : s.db.pages worker.claim.payload.pageId = none := by
  obtain ⟨-, row, hrow, hpayload⟩ := hs.claims worker hworker
  have hparsed := hs.wellFormed.parsed row hrow
  rw [hpayload] at hparsed
  rw [hparsed.2.2.1]
  exact hs.absent row hrow (hparsed.2.1 ▸ habsent)

/-- A row that is settled afterwards was settled before, or the operation moves its
worker to the status write. -/
theorem settled_before (hop : (outbox env).enabled op s) (hs : TableInvariant env s) {row row' : PageMutationOutboxRow}
    (hch : RowChange s op row row') (h : Settled ((outbox env).exec op s) row') : Settled s row ∨
    row.status = .running ∧ ∃ i worker u, op.worker = some i ∧ s.workers[i]? = some worker ∧
    row.leaseToken = some worker.claim.leaseToken ∧ nextStage env s.db worker op = .finishing u ∧
    u.status = .succeeded := by
  rcases h with hsucc | ⟨hrun, worker', hworker', htoken, u, hstage, hu⟩
  · rcases hch with hch | hch
    · obtain rfl := hch.eq (by simp [hsucc])
      exact .inl (.inl hsucc)
    · cases hch with
      | released | quarantined | granted => cases hsucc
      | extended now hrun =>
        rw [show (heartbeat now row).status = row.status from rfl, hrun] at hsucc
        cases hsucc
      | finished i claim u now hworker hheld =>
        obtain ⟨-, hrow, htoken⟩ := leaseHeld_iff.mp hheld
        exact .inl (.inr ⟨hrow, _, mem_of_getElem? hworker, htoken, u, rfl, hsucc⟩)
  · have hclaimed : granted s op ≠ some worker' := by
      intro hgranted
      obtain ⟨candidate, -, -, -, hclaimed⟩ := granted_some hgranted
      rw [hclaimed] at hstage
      cases hstage
    have hissued : worker'.claim.leaseToken ∈ s.issued := by
      rcases workers_exec hworker' with hold | ⟨i, worker, -, hget, rfl⟩ | hgranted
      · exact (hs.claims worker' hold).1
      · exact (hs.claims worker (mem_of_getElem? hget)).1
      · exact absurd hgranted hclaimed
    rcases hch.token htoken with ⟨hkept, hstatus⟩ | ⟨candidate, hgrant, -⟩
    · rw [hstatus] at hrun
      rcases workers_exec hworker' with hold | ⟨i, worker, hi, hget, rfl⟩ | hgranted
      · exact .inl (.inr ⟨hrun, worker', hold, hkept, u, hstage, hu⟩)
      · exact .inr ⟨hrun, i, worker, u, hi, hget, hkept, hstage, hu⟩
      · exact absurd hgranted hclaimed
    · refine absurd hissued (hop.1.2 _ ?_)
      rw [hgrant.issues]
      exact mem_singleton_self _

/-- An operation of a worker moves no page to another revision. -/
theorem DatabaseStep.pageBefore {db' : Database} (h : DatabaseStep env s op db') {i : Nat} (hi : op.worker = some i)
    {p : Nat} {page' : ProjectionPageRow} (hpage' : db'.pages p = some page') : ∃ page, s.db.pages p = some page ∧
    page.sourceRevision = page'.sourceRevision := by
  cases h with
  | same hpages houtbox hlinks => exact ⟨page', hpages ▸ hpage', rfl⟩
  | linksDeleted | linksReplaced | updated => exact ⟨page', hpage', rfl⟩
  | admitted fresh page hissues hpage hadmitted =>
    obtain ⟨before, hbefore, -, hrevision⟩ := hadmitted.pages_of hpage hpage'
    exact ⟨before, hbefore, hrevision.symm⟩
  | mutated fresh id revision desired page hissues hworker =>
    rw [hworker] at hi
    cases hi
  | published row current output hrow hrun hkey hpage =>
    by_cases hid : p = current.id
    · subst hid
      simp only [update_self, Option.some.injEq] at hpage'
      subst hpage'
      exact ⟨current, hpage, rfl⟩
    · simp only [update_of_ne hid] at hpage'
      exact ⟨page', hpage', rfl⟩

theorem mayReplaceLinks_agrees {before current : ProjectionPageRow} {links : List PageLinkIdentity}
    (hs : TableInvariant env s) (hstage : StageInvariant env payload (.replacingLinks before links))
    (hpage : s.db.pages payload.pageId = some current) (hrevision : current.sourceRevision = payload.sourceRevision)
    (hmay : mayReplaceLinks env payload before current s.db.outbox = true) :
    Agrees env { s.db with pageLinks := Function.update s.db.pageLinks payload.pageId links } current := by
  simp only [mayReplaceLinks, Bool.and_eq_true, decide_eq_true_eq, Option.any_eq_true] at hmay
  obtain ⟨⟨⟨hexact, -⟩, hrender⟩, row, hrow, hsucc⟩ := hmay
  obtain ⟨hmem, hkey⟩ := effectRow_mem hrow
  have hid := hs.pages _ _ hpage
  refine ⟨⟨row, hmem, ?_, hsucc⟩, fun _ => ?_⟩
  · rw [hkey, hid, hrevision]
  · obtain ⟨location, hlocation, hlinks⟩ := hstage
    obtain ⟨-, location', hlocation', hlocale⟩ := isExact_revision hexact
    rw [hlocation] at hlocation'
    cases hlocation'
    show Function.update s.db.pageLinks payload.pageId links current.id = _
    rw [hid, update_self, hlinks, hrender, hlocale]

theorem replaceLinks_of_may {before current : ProjectionPageRow} {links : List PageLinkIdentity}
    {db : Database} (hpage : db.pages payload.pageId = some current)
    (hrevision : current.sourceRevision = payload.sourceRevision)
    (hmay : mayReplaceLinks env payload before current db.outbox = true) :
    (replaceLinks env payload before links db).1 =
      { db with pageLinks := Function.update db.pageLinks payload.pageId links } := by
  simp [replaceLinks, hpage, hrevision, hmay]

/-- Where the operation moves the worker of a current links effect to the status write,
the effect was settled already or the links agree now. -/
theorem settles (hop : (outbox env).enabled op s) (hs : TableInvariant env s) {row : PageMutationOutboxRow}
    (hrow : row ∈ s.db.outbox) (hkind : row.effectKind = .links) {page' : ProjectionPageRow}
    (hpage' : (databaseAfter env s op).pages row.pageId = some page')
    (hrevision : row.sourceRevision = page'.sourceRevision) {i : Nat} {u : FinishUpdate} (hrun : row.status = .running)
    (hi : op.worker = some i) (hworker : s.workers[i]? = some worker)
    (htoken : row.leaseToken = some worker.claim.leaseToken) (hstage : nextStage env s.db worker op = .finishing u)
    (hu : u.status = .succeeded) : Settled s row ∨ Agrees env (databaseAfter env s op) page' := by
  have hmem := mem_of_getElem? hworker
  have hpayload := hs.owners worker hmem row hrow htoken
  have hparsed := hs.wellFormed.parsed row hrow
  rw [hpayload] at hparsed
  rcases nextStage_succeeds (hs.stages worker hmem) (hs.absentPage hmem) hstage hu with
    hold | hother | hstale | ⟨j, before, links, rfl, hreplacing, current, hcurrent, hrev, hmay⟩
  · exact .inl (.inr ⟨hrun, worker, hmem, htoken, u, hold, hu⟩)
  · exact absurd (hparsed.1.trans hkind) hother
  · obtain ⟨page, hpage, hpagerev⟩ := (databaseStep hop hs).pageBefore hi hpage'
    refine absurd ?_ (hstale page (hparsed.2.2.1 ▸ hpage))
    rw [hparsed.2.2.2, hrevision, hpagerev]
  · refine .inr ?_
    cases hi
    obtain ⟨claim, stage⟩ := worker
    cases hreplacing
    have hafter : databaseAfter env s (.replaceLinks i) = { s.db with
        pageLinks := Function.update s.db.pageLinks claim.payload.pageId links } := by
      have hreplaced : (replaceLinks env claim.payload before links s.db).1 = _ :=
        replaceLinks_of_may hcurrent hrev hmay
      rw [← hreplaced]
      simp [databaseAfter, update, transaction, hworker]
    rw [hafter] at hpage' ⊢
    have hsame : s.db.pages claim.payload.pageId = some page' := hparsed.2.2.1 ▸ hpage'
    rw [hcurrent] at hsame
    cases hsame
    exact mayReplaceLinks_agrees hs (hs.stages _ hmem) hcurrent hrev hmay

/-! ## Settled effects keep agreeing -/

/-- Agreement lasts while the page, its links and its finished render effect stay. -/
theorem Agrees.keep {db db' : Database} {page : ProjectionPageRow} (h : Agrees env db page)
    (hlinks : db'.pageLinks page.id = db.pageLinks page.id)
    (hrender : ∀ row ∈ db.outbox, row.key = (page.id, page.sourceRevision, .render) →
      row.status = .succeeded → row ∈ db'.outbox) : Agrees env db' page := by
  obtain ⟨⟨row, hrow, hkey, hsucc⟩, hagree⟩ := h
  refine ⟨⟨row, hrender row hrow hkey hsucc, hkey, hsucc⟩, fun hcertified => ?_⟩
  rw [hlinks]
  exact hagree hcertified

theorem unfinished_of_update (hs : TableInvariant env s) {u : Update}
    (hu : update s op = some u) {row : PageMutationOutboxRow} (hrow : row ∈ s.db.outbox)
    (hsucc : row.status = .succeeded) : row ∈ Table.updateWhere u.cond u.set s.db.outbox := by
  refine Table.mem_updateWhere.mpr ⟨row, hrow, ?_⟩
  split
  · rename_i hcond
    have hstep := rowStep_of_update
      (fun call hcall row hrow => (hs.candidates call hcall row hrow).1) hu hcond
    exact absurd hsucc hstep.unfinished
  · rfl

/-- What was settled before an operation and still is agrees afterwards. -/
theorem agrees_after (hop : (outbox env).enabled op s) (hs : TableInvariant env s) (hl : LinksInvariant env s)
    {row row' : PageMutationOutboxRow} (hrow : row ∈ s.db.outbox) (hrow' : row' ∈ (databaseAfter env s op).outbox)
    (hkey : row'.key = row.key) (hkind : row.effectKind = .links) {page' : ProjectionPageRow}
    (hpage' : (databaseAfter env s op).pages row.pageId = some page')
    (hrevision : row.sourceRevision = page'.sourceRevision) (hsettled : Settled s row)
    (hstatus : row'.status = .succeeded ∨ row'.status = .running) : Agrees env (databaseAfter env s op) page' := by
  have hid' := (databaseStep hop hs).pageIds hs _ _ hpage'
  -- where the page itself is as before, so are its links and its finished render effect
  have hold : s.db.pages row.pageId = some page' → Agrees env s.db page' :=
    fun hpage => hl row hrow hkind page' hpage hrevision hsettled
  have hdb := databaseStep hop hs
  generalize databaseAfter env s op = db' at hdb hrow' hpage' ⊢
  cases hdb with
  | same hpages houtbox hlinks =>
    refine (hold (hpages ▸ hpage')).keep (by rw [hlinks]) fun r hr _ _ => houtbox ▸ hr
  | updated u hu =>
    exact (hold hpage').keep rfl fun r hr _ hsucc => unfinished_of_update hs hu hr hsucc
  | linksDeleted i claim hworker =>
    have hmem := mem_of_getElem? hworker
    have hgone := hs.absentPage hmem (hs.stages _ hmem)
    have hne : page'.id ≠ claim.payload.pageId := by
      intro heq
      rw [← hid', heq] at hpage'
      exact absurd hpage' (by simp [hgone])
    exact (hold hpage').keep (update_of_ne hne _ _) fun r hr _ _ => hr
  | linksReplaced i claim before current links hop' hworker hpage hrev hmay =>
    have hmem := mem_of_getElem? hworker
    by_cases heq : page'.id = claim.payload.pageId
    · obtain rfl : current = page' := by
        rw [← hid', heq] at hpage'
        exact Option.some.inj (hpage.symm.trans hpage')
      exact mayReplaceLinks_agrees hs (hs.stages _ hmem) hpage hrev hmay
    · exact (hold hpage').keep (update_of_ne heq _ _) fun r hr _ _ => hr
  | published r current output hr hrun hrkey hpage =>
    by_cases heq : page'.id = current.id
    · -- the render effect of a settled links effect is finished, so nobody publishes
      have hcurrent : s.db.pages row.pageId = some current := by
        rw [← hid', heq, hpage]
      have hrev : row.sourceRevision = current.sourceRevision := by
        simp only [← hid', heq, update_self, Option.some.injEq] at hpage'
        rw [hrevision, ← hpage']
      obtain ⟨⟨r', hr', hrkey', hsucc⟩, -⟩ := hl row hrow hkind current hcurrent hrev hsettled
      have : r = r' := inj_on_of_nodup_map hs.wellFormed.keys hr hr' (hrkey.trans hrkey'.symm)
      rw [this, hsucc] at hrun
      cases hrun
    · have hne : row.pageId ≠ current.id := fun h => heq (hid'.trans h)
      simp only [update_of_ne hne] at hpage'
      exact (hold hpage').keep rfl fun r hr _ _ => hr
  | admitted fresh page hissues hpage hadmitted =>
    rcases hadmitted with hkept | hwithdrawn
    · refine (hold (hkept.pages ▸ hpage')).keep (by rw [hkept.pageLinks]) fun r hr hrkey _ => ?_
      exact hkept.renders r hr (congrArg (fun k => k.2.2) hrkey)
    · by_cases heq : row.pageId = page.id
      · have hcurrent : page'.sourceRevision = page.sourceRevision := by
          rw [hwithdrawn.pages, heq, update_self] at hpage'
          cases hpage'
          rfl
        have hlinkskey : row'.key = (page.id, page.sourceRevision, .links) := by
          rw [hkey, PageMutationOutboxRow.key, heq, hrevision, hcurrent, hkind]
        have hfenced := hwithdrawn.links row' hrow' hlinkskey
        rcases hstatus with h | h
        · exact absurd h hfenced.1
        · exact absurd h hfenced.2
      · have hpage₀ : s.db.pages row.pageId = some page' := by
          rw [hwithdrawn.pages, update_of_ne heq] at hpage'
          exact hpage'
        have hne : page'.id ≠ page.id := by rw [hid']; exact heq
        refine (hold hpage₀).keep ?_ fun r hr hrkey _ => ?_
        · rw [hwithdrawn.pageLinks, update_of_ne hne]
        · refine hwithdrawn.renders r hr (congrArg (fun k => k.2.2) hrkey) fun hsame => hne ?_
          exact congrArg (fun k => k.1) (hrkey.symm.trans hsame)
  | mutated fresh id revision desired page hissues hworker hadmits hpages hlinks hpage hpresent
      hgone hnewer =>
      by_cases heq : row.pageId = id
      · -- the page is at a new revision, at which no earlier row is
        rw [hpages, heq, update_self] at hpage'
        have := (hpage page' hpage').2
        have := hnewer row hrow heq
        omega
      · have hpage₀ : s.db.pages row.pageId = some page' := by
          rw [hpages, update_of_ne heq] at hpage'
          exact hpage'
        have hne : page'.id ≠ id := by rw [hid']; exact heq
        obtain ⟨hdistinct, hunissued⟩ := fresh_of_enabled hop hissues
        refine (hold hpage₀).keep (hlinks _ hne) fun r hr hrkey _ => ?_
        refine hadmits.others hdistinct (hs.reserved hunissued _ _) hs.wellFormed hr (.inl ?_)
        intro hsame
        exact hne ((congrArg (fun k => k.1) hrkey).symm.trans hsame)

theorem LinksInvariant.step (op : Op) (s : System) (hop : (outbox env).enabled op s) (hs : TableInvariant env s)
    (hl : LinksInvariant env s) : LinksInvariant env ((outbox env).exec op s) := by
  intro row' hrow' hkind' page' hpage' hrevision' hsettled'
  have hstatus := hsettled'.status
  rcases (databaseStep hop hs).rows hs row' hrow' with ⟨row, hrow, hch⟩ | hnew
  · have hkey := hch.key
    simp only [PageMutationOutboxRow.key, Prod.mk.injEq] at hkey
    have hkind : row.effectKind = .links := hkey.2.2 ▸ hkind'
    have hrevision : row.sourceRevision = page'.sourceRevision := hkey.2.1 ▸ hrevision'
    have hpage : (databaseAfter env s op).pages row.pageId = some page' := hkey.1 ▸ hpage'
    have hagrees := agrees_after hop hs hl hrow hrow' hch.key hkind hpage hrevision
    rcases settled_before hop hs hch hsettled' with
      hsettled | ⟨hrun, i, worker, u, hi, hworker, htoken, hstage, hu⟩
    · exact hagrees hsettled hstatus
    · rcases settles hop hs hrow hkind hpage hrevision hrun hi hworker htoken hstage hu with
        hsettled | hagree
      · exact hagrees hsettled hstatus
      · exact hagree
  · rcases hnew.status with h | h <;> simp [h] at hstatus

theorem LinksInvariant.of_reachable {s : System} (h : Reachable env s) : LinksInvariant env s :=
  h.invariant_under .empty TableInvariant.step (by simp [LinksInvariant, System.empty, Database.empty])
    LinksInvariant.step

/-! ## Fenced workers -/

/-- The worker's lease is in no row. -/
def Fenced (s : System) (claim : ClaimedPageProjectionEffect) : Prop :=
  ∀ row ∈ s.db.outbox, leaseHeld claim row = false

/-- A lease that was lost never comes back. -/
theorem Fenced.exec (hop : (outbox env).enabled op s) (hs : TableInvariant env s) {claim : ClaimedPageProjectionEffect}
    (hissued : claim.leaseToken ∈ s.issued) (h : Fenced s claim) : Fenced ((outbox env).exec op s) claim := by
  intro row' hrow'
  by_contra hheld
  obtain ⟨hid, hrun, htoken⟩ := leaseHeld_iff.mp (by simpa using hheld)
  rcases (databaseStep hop hs).rows hs row' hrow' with ⟨row, hrow, hch⟩ | hnew
  · rcases hch.token htoken with ⟨hkept, hstatus⟩ | ⟨candidate, hgrant, -⟩
    · have : leaseHeld claim row = true :=
        leaseHeld_iff.mpr ⟨hch.id ▸ hid, hstatus ▸ hrun, hkept⟩
      rw [h row hrow] at this
      cases this
    · refine hop.1.2 _ ?_ hissued
      rw [hgrant.issues]
      exact mem_singleton_self _
  · rw [hnew.leaseToken] at htoken
    cases htoken

theorem claim_exec {i : Nat} (h : s.workers[i]? = some worker) :
    ∃ worker', ((outbox env).exec op s).workers[i]? = some worker' ∧ worker'.claim = worker.claim := by
  show ∃ worker', (workersAfter env s op)[i]? = some worker' ∧ _
  rw [workersAfter]
  split
  · rename_i j hj
    rw [getElem?_modify, h]
    by_cases hji : j = i
    · refine ⟨{ worker with stage := nextStage env s.db worker op }, ?_, rfl⟩
      simp [hji]
    · exact ⟨worker, by simp [hji], rfl⟩
  · exact ⟨worker, by rw [getElem?_append_left (List.getElem?_eq_some_iff.mp h).1, h], rfl⟩

/-- The status write of a fenced worker changes no row. -/
theorem finish_of_fenced {i : Nat} {now : Time} (h : s.workers[i]? = some worker) (hfenced : Fenced s worker.claim) :
    ((outbox env).exec (.finish i now) s).db.outbox = s.db.outbox := by
  show (databaseAfter env s (.finish i now)).outbox = s.db.outbox
  rw [databaseAfter]
  split
  · rename_i u hu
    simp only [update] at hu
    split at hu
    · rename_i claim v hworker
      rw [h] at hworker
      cases hworker
      cases hu
      exact Table.updateWhere_eq_self hfenced
    · cases hu
  · rfl

/-- **Link agreement.** In every reachable state, where the links effect and the render
effect of a page's current revision have succeeded and the page is certified, its links
are those of its render; and a worker that has lost its lease never again writes a
status. -/
theorem links_agree {s : System} (hs : Reachable env s) :
    (∀ pageId page, s.db.pages pageId = some page →
      ∀ links, effectRow s.db.outbox pageId page.sourceRevision .links = some links → links.status = .succeeded →
      ∀ render, effectRow s.db.outbox pageId page.sourceRevision .render = some render →
        render.status = .succeeded → hasCertifiedRender page = true →
      s.db.pageLinks pageId = extractRenderedPageLinks env page.render page.localeCode) ∧
    (∀ i worker, s.workers[i]? = some worker → Fenced s worker.claim →
      ∀ s', (outbox env).Reachable s s' → ∀ now, ((outbox env).exec (.finish i now) s').db.outbox = s'.db.outbox) := by
  have htable := TableInvariant.of_reachable hs
  refine ⟨?_, ?_⟩
  · intro pageId page hpage links hlinks hsucc _ _ _ hcertified
    obtain ⟨hmem, hkey⟩ := effectRow_mem hlinks
    simp only [PageMutationOutboxRow.key, Prod.mk.injEq] at hkey
    have hagrees := LinksInvariant.of_reachable hs links hmem hkey.2.2 page (hkey.1 ▸ hpage)
      hkey.2.1 (.inl hsucc)
    rw [← htable.pages pageId page hpage]
    exact hagrees.2 hcertified
  · intro i worker hworker hfenced s' hrun now
    have hkept : ∃ worker', s'.workers[i]? = some worker' ∧ worker'.claim = worker.claim ∧
        worker.claim.leaseToken ∈ s'.issued ∧ Fenced s' worker.claim := by
      refine hrun.invariant_under (J := fun s' => ∃ worker', s'.workers[i]? = some worker' ∧
          worker'.claim = worker.claim ∧ worker.claim.leaseToken ∈ s'.issued ∧
          Fenced s' worker.claim) htable TableInvariant.step
        ⟨worker, hworker, rfl, (htable.claims worker (mem_of_getElem? hworker)).1, hfenced⟩ ?_
      rintro op s hop hs ⟨worker', hworker', hclaim, hissued, hfenced⟩
      obtain ⟨worker'', hworker'', hclaim'⟩ : ∃ worker'',
          ((outbox env).exec op s).workers[i]? = some worker'' ∧ worker''.claim = worker'.claim :=
        claim_exec hworker'
      exact ⟨worker'', hworker'', hclaim'.trans hclaim, issued_exec hissued, hfenced.exec hop hs hissued⟩
    obtain ⟨worker', hworker', hclaim, -, hfenced'⟩ := hkept
    exact finish_of_fenced hworker' (hclaim ▸ hfenced')

/-! ## A run -/

def exampleEnvironment : Environment where
  sha256 text := text
  timestamp _ := none
  internalHrefs render := [some render]
  pathname href := some href

def exampleEdit : PageEdit :=
  ⟨js "body", true, true, none, none, js "en", js "home", .public, none, false⟩

def exampleFresh : Fresh where
  id
    | .render => js "r"
    | .links => js "l"
    | .search => js "s"
    | .knowledge => js "k"
  now := 0

def exampleClaim (kind : PageProjectionEffectKind) (call : Nat) (leaseToken : Uuid) : List Op :=
  [.beginClaim ⟨js "w", some 1, none, none, some [kind]⟩ 1, .expireLeases call 1,
    .countActive call, .selectRows call [], .grantNext call leaseToken]

/-- A page is rendered and its links are written. -/
def exampleOps : List Op :=
  [.createPage 1 exampleEdit exampleFresh] ++ exampleClaim .render 0 (js "t0") ++
    [.checkLease 0 2, .renderPage 0 (js "/de/a") 3, .otherSink 0 (some ⟨.other [], true, some 1, ""⟩), .finish 0 4] ++
    exampleClaim .links 1 (js "t1") ++
    [.checkLease 1 2, .readPage 1, .readRenderEffect 1 5, .replaceLinks 1, .finish 1 6]

def exampleState : System := (outbox exampleEnvironment).after exampleOps .empty

theorem exampleState_reachable : Reachable exampleEnvironment exampleState := ⟨exampleOps, by decide, rfl⟩

theorem links_agree_example : (effectRow exampleState.db.outbox 1 1 .links).map (·.status) = some .succeeded ∧
    exampleState.db.pageLinks 1 = [⟨js "de", js "a"⟩] ∧ ∀ i worker, exampleState.workers[i]? = some worker →
    Fenced exampleState worker.claim → ∀ s', (outbox exampleEnvironment).Reachable exampleState s' → ∀ now,
    ((outbox exampleEnvironment).exec (.finish i now) s').db.outbox = s'.db.outbox :=
  ⟨by decide, by decide, (links_agree exampleState_reachable).2⟩

/-! ## One worker for an effect -/

/-- The tokens of the leases that workers were given. -/
def leaseTokens (s : System) : List Uuid := s.workers.map fun worker => worker.claim.leaseToken

theorem leaseTokens_exec (hop : (outbox env).enabled op s) (hs : TableInvariant env s) (h : (leaseTokens s).Nodup) :
    (leaseTokens ((outbox env).exec op s)).Nodup := by
  change ((workersAfter env s op).map _).Nodup
  rw [workersAfter]
  split
  next i hi =>
    refine (congrArg List.Nodup (ext_getElem? fun j => ?_)).mpr h
    rw [leaseTokens, getElem?_map, getElem?_map, getElem?_modify]
    cases s.workers[j]? with
    | none => rfl
    | some worker => by_cases hij : i = j <;> simp [hij]
  next =>
    cases hgranted : granted s op with
    | none => simpa [leaseTokens] using h
    | some worker =>
      obtain ⟨candidate, hgrant, -⟩ := granted_some hgranted
      rw [Option.toList_some, map_append, nodup_append]
      refine ⟨h, by simp, ?_⟩
      rintro t ht other hother rfl
      rw [map_singleton, mem_singleton] at hother
      obtain ⟨old, hold, rfl⟩ := mem_map.mp ht
      exact hgrant.unissued hop (hother ▸ (hs.claims old hold).1)

/-- The links effect of the example is claimed. -/
def exampleClaimed : System := (outbox exampleEnvironment).after (exampleOps.take 15) .empty

end TsEpistle.Outbox
