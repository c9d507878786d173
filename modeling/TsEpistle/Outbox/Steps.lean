import TsEpistle.Outbox.Admissions

/-! What one operation of the outbox does to pages, rows, claims and workers, and what
every run keeps: leases, ids and intents of rows, and the claims workers hold. -/

namespace TsEpistle.Outbox
open Library Checked List Function Option

variable {env : Environment}

/-! ## What one operation does -/

/-- The operation grants a lease with token `t` for `candidate`. -/
def Granting (s : System) (op : Op) (t : Uuid) (candidate : PageMutationOutboxRow) : Prop :=
  ∃ i input now limit rest claimed progress, op = .grantNext i t ∧
    s.calls[i]? = some ⟨input, .granting now limit (candidate :: rest) claimed progress⟩

theorem Granting.unique {s : System} {op : Op} {t t' : Uuid} {candidate candidate' : PageMutationOutboxRow}
    (h : Granting s op t candidate) (h' : Granting s op t' candidate') : t' = t ∧ candidate' = candidate := by
  obtain ⟨i, input, now, limit, rest, claimed, progress, rfl, hcall⟩ := h
  obtain ⟨i', input', now', limit', rest', claimed', progress', hop, hcall'⟩ := h'
  cases hop
  rw [hcall] at hcall'
  cases hcall'
  exact ⟨rfl, rfl⟩

variable {candidate : PageMutationOutboxRow}

theorem Granting.issues {s : System} {op : Op} {t : Uuid} (h : Granting s op t candidate) : op.issues = [t] := by
  obtain ⟨i, input, now, limit, rest, claimed, progress, rfl, -⟩ := h
  rfl

/-- What an update outside the page lock does to a row it matches. -/
inductive RowStep (s : System) (op : Op) (row : PageMutationOutboxRow) :
    PageMutationOutboxRow → Prop
  | released (now : Time) (hrun : row.status = .running) : RowStep s op row (releaseLease now row)
  | quarantined (e : OutboxError) (now : Time) (hwaiting : waiting row = true) : RowStep s op row (quarantine e now row)
  | granted (leaseToken : Uuid) (input : ClaimInput) (candidate : PageMutationOutboxRow)
      (now : Time) (hgrant : Granting s op leaseToken candidate)
      (hwaiting : waiting row = true) (hid : row.id = candidate.id) :
      RowStep s op row (grant input candidate leaseToken now row)
  | extended (now : Time) (hrun : row.status = .running) : RowStep s op row (heartbeat now row)
  | finished (i : Nat) (claim : ClaimedPageProjectionEffect) (u : FinishUpdate) (now : Time)
      (hworker : s.workers[i]? = some ⟨claim, .finishing u⟩)
      (hheld : leaseHeld claim row = true) : RowStep s op row (finishClaim u now row)

variable {claim : ClaimedPageProjectionEffect}

theorem leaseHeld_iff {row : PageMutationOutboxRow} : leaseHeld claim row = true ↔ row.id = claim.id ∧
    row.status = .running ∧ row.leaseToken = some claim.leaseToken := by
  simp [leaseHeld, and_assoc]

theorem waiting_iff {row : PageMutationOutboxRow} :
    waiting row = true ↔ row.status = .pending ∨ row.status = .retry := by
  simp [waiting]

/-- The rows a claim still has to deal with. -/
def ClaimStage.rows : ClaimStage → List PageMutationOutboxRow
  | .granting _ _ rows _ _ => rows
  | _ => []

theorem rowStep_of_update {s : System} {op : Op} {u : Update}
    (hcandidates : ∀ call ∈ s.calls, ∀ row ∈ call.stage.rows, waiting row = true) (hu : update s op = some u)
    {row : PageMutationOutboxRow} (hcond : u.cond row = true) : RowStep s op row (u.set row) := by
  cases op <;> simp only [update, reduceCtorEq] at hu
  case expireLeases i now =>
    split at hu
    · cases hu
      simp only [expiredLease, Bool.and_eq_true, decide_eq_true_eq] at hcond
      exact .released now hcond.1.1
    · cases hu
  case grantNext i leaseToken =>
    split at hu
    · rename_i input now limit candidate rest claimed progress hcall
      have hmem := mem_of_getElem? hcall
      have hwait := waiting_iff.mp (hcandidates _ hmem candidate (by simp [ClaimStage.rows]))
      split at hu
      · cases hu
        simp only [quarantineWhere, Bool.and_eq_true, decide_eq_true_eq] at hcond
        exact .quarantined _ now (waiting_iff.mpr (by rwa [hcond.2]))
      · cases hu
        simp only [grantWhere, Bool.and_eq_true, decide_eq_true_eq] at hcond
        exact .granted leaseToken input candidate now
          ⟨i, input, now, limit, rest, claimed, progress, rfl, hcall⟩
          (waiting_iff.mpr (by rwa [hcond.1.2])) hcond.1.1
    · cases hu
  case heartbeat i now =>
    obtain ⟨worker, -, rfl⟩ := map_eq_some_iff.mp hu
    simp only [leaseLive, Bool.and_eq_true] at hcond
    exact .extended now (leaseHeld_iff.mp hcond.1).2.1
  case finish i now =>
    split at hu
    · rename_i claim update hworker
      cases hu
      exact .finished i claim update now hworker hcond
    · cases hu

namespace RowStep
variable {s : System} {op : Op} {row row' : PageMutationOutboxRow}

theorem key (h : RowStep s op row row') : row'.key = row.key := by
  cases h <;> rfl

theorem id (h : RowStep s op row row') : row'.id = row.id := by
  cases h <;> rfl

theorem payload (h : RowStep s op row row') : row'.payload = row.payload := by
  cases h <;> rfl

theorem desiredState (h : RowStep s op row row') : row'.desiredState = row.desiredState := by
  cases h <;> rfl

/-- No update outside the page lock takes a finished effect back. -/
theorem unfinished (h : RowStep s op row row') : row.status ≠ .succeeded := by
  cases h with
  | released now hrun => simp [hrun]
  | quarantined e now hwaiting => rcases waiting_iff.mp hwaiting with h | h <;> simp [h]
  | granted leaseToken input candidate now hgrant hwaiting =>
    rcases waiting_iff.mp hwaiting with h | h <;> simp [h]
  | extended now hrun => simp [hrun]
  | finished i claim u now hworker hheld => simp [(leaseHeld_iff.mp hheld).2.1]

/-- A lease token in the new row was there or was just issued. -/
theorem token (h : RowStep s op row row') : row'.leaseToken = none ∨ row'.leaseToken = row.leaseToken ∧
    row'.status = row.status ∨ ∃ t candidate, Granting s op t candidate ∧ row.id = candidate.id ∧
    row'.leaseToken = some t ∧ row'.status = .running := by
  cases h with
  | released | quarantined => exact .inl rfl
  | granted leaseToken input candidate now hgrant hwaiting hid =>
    exact .inr (.inr ⟨leaseToken, candidate, hgrant, hid, rfl, rfl⟩)
  | extended => exact .inr (.inl ⟨rfl, rfl⟩)
  | finished => exact .inl rfl

end RowStep

/-- What an operation does to pages, links and effects. -/
inductive DatabaseStep (env : Environment) (s : System) (op : Op) : Database → Prop
  | same {db'} (hpages : db'.pages = s.db.pages) (houtbox : db'.outbox = s.db.outbox)
      (hlinks : db'.pageLinks = s.db.pageLinks) : DatabaseStep env s op db'
  | updated (u : Update) (hu : update s op = some u) :
      DatabaseStep env s op { s.db with outbox := Table.updateWhere u.cond u.set s.db.outbox }
  | admitted {db'} (fresh : Fresh) (page : ProjectionPageRow) (hissues : op.issues = fresh.ids)
      (hpage : s.db.pages page.id = some page) (h : Admitted fresh page s.db db') :
      DatabaseStep env s op db'
  | mutated {db'} (fresh : Fresh) (id revision : Nat) (desired : PageProjectionDesiredState)
      (page : Option ProjectionPageRow) (hissues : op.issues = fresh.ids)
      (hworker : op.worker = none)
      (hadmits : Admits fresh id revision desired s.db.outbox db'.outbox)
      (hpages : db'.pages = Function.update s.db.pages id page)
      (hlinks : ∀ p, p ≠ id → db'.pageLinks p = s.db.pageLinks p)
      (hpage : ∀ page', page = some page' → page'.id = id ∧ page'.sourceRevision = revision)
      (hpresent : desired = .absent → page = none)
      (hgone : ∀ row ∈ s.db.outbox, row.pageId = id → s.db.pages id ≠ none)
      (hnewer : ∀ row ∈ s.db.outbox, row.pageId = id → row.sourceRevision < revision) :
      DatabaseStep env s op db'
  | linksDeleted (i : Nat) (claim : ClaimedPageProjectionEffect)
      (hworker : s.workers[i]? = some ⟨claim, .deletingLinks⟩) :
      DatabaseStep env s op { s.db with
        pageLinks := Function.update s.db.pageLinks claim.payload.pageId [] }
  | linksReplaced (i : Nat) (claim : ClaimedPageProjectionEffect)
      (before current : ProjectionPageRow) (links : List PageLinkIdentity)
      (hop : op = .replaceLinks i)
      (hworker : s.workers[i]? = some ⟨claim, .replacingLinks before links⟩)
      (hpage : s.db.pages claim.payload.pageId = some current)
      (hrevision : current.sourceRevision = claim.payload.sourceRevision)
      (hmay : mayReplaceLinks env claim.payload before current s.db.outbox = true) :
      DatabaseStep env s op { s.db with
        pageLinks := Function.update s.db.pageLinks claim.payload.pageId links }
  | published (row : PageMutationOutboxRow) (current : ProjectionPageRow) (output : JsString)
      (hrow : row ∈ s.db.outbox) (hrun : row.status = .running)
      (hkey : row.key = (current.id, current.sourceRevision, .render))
      (hpage : s.db.pages current.id = some current) :
      DatabaseStep env s op { s.db with
        pages := Function.update s.db.pages current.id (some { current with
          render := output, renderedSourceRevision := some current.sourceRevision }) }

/-! ## The invariant -/

/-- What a worker inside the links sink carries. -/
def StageInvariant (env : Environment) (payload : PageProjectionPayload) : Stage → Prop
  | .deletingLinks | .readingRemaining => payload.desiredState = .absent
  | .readingRender _ location => payload.location = some location
  | .replacingLinks before links => ∃ location, payload.location = some location ∧
      links = extractRenderedPageLinks env before.render location.locale
  | _ => True

structure TableInvariant (env : Environment) (s : System) : Prop where
  wellFormed : WellFormed s.db.outbox
  ids : ∀ row ∈ s.db.outbox, row.id ∈ s.issued
  tokens : ∀ row ∈ s.db.outbox, ∀ t, row.leaseToken = some t → t ∈ s.issued
  pages : ∀ p page, s.db.pages p = some page → page.id = p
  revisions : ∀ row ∈ s.db.outbox, ∀ page, s.db.pages row.pageId = some page → row.sourceRevision ≤ page.sourceRevision
  absent : ∀ row ∈ s.db.outbox, row.desiredState = .absent → s.db.pages row.pageId = none
  candidates : ∀ call ∈ s.calls, ∀ candidate ∈ call.stage.rows, waiting candidate = true ∧
    ∃ row ∈ s.db.outbox, row.id = candidate.id ∧ row.payload = candidate.payload
  claims : ∀ worker ∈ s.workers, worker.claim.leaseToken ∈ s.issued ∧
    ∃ row ∈ s.db.outbox, row.payload = worker.claim.payload
  owners : ∀ worker ∈ s.workers, ∀ row ∈ s.db.outbox,
    row.leaseToken = some worker.claim.leaseToken → row.payload = worker.claim.payload
  stages : ∀ worker ∈ s.workers, StageInvariant env worker.claim.payload worker.stage

section
variable {s : System} {op : Op}

theorem issued_exec {t : Uuid} (h : t ∈ s.issued) : t ∈ ((outbox env).exec op s).issued := mem_append_right _ h

variable {fresh : Fresh}

theorem fresh_of_enabled (hop : (outbox env).enabled op s) (hissues : op.issues = fresh.ids) :
    fresh.Distinct ∧ ∀ kind, fresh.id kind ∉ s.issued := by
  have hnodup := hop.1.1
  rw [hissues, Fresh.ids] at hnodup
  constructor
  · intro k k' heq
    exact inj_on_of_nodup_map hnodup (by cases k <;> decide) (by cases k' <;> decide) heq
  · intro kind hin
    refine hop.1.2 (fresh.id kind) ?_ hin
    rw [hissues]
    exact List.mem_map_of_mem (by cases kind <;> decide)

theorem TableInvariant.reserved (hs : TableInvariant env s) (hfresh : ∀ kind, fresh.id kind ∉ s.issued)
    (pageId revision : Nat) : Reserved fresh pageId revision s.db.outbox := by
  intro row hrow kind hid
  exact absurd (hid ▸ hs.ids row hrow) (hfresh kind)

theorem map_fst_ok {α β : Type} {x : Except OutboxError (α × β)} {a : α}
    (h : x.map Prod.fst = .ok a) : ∃ b, x = .ok (a, b) := by
  cases x with
  | error e => cases h
  | ok r =>
    cases h
    exact ⟨r.2, rfl⟩

theorem createPage_step {id : Nat} {edit : PageEdit} {db' : Database}
    (hop : (outbox env).enabled (.createPage id edit fresh) s) (h : createPage env id edit fresh s.db = .ok db') :
    DatabaseStep env s (.createPage id edit fresh) db' := by
  obtain ⟨⟨rows, ids⟩, hrows, h⟩ := bind_ok h
  cases h
  have hadmits := enqueuePageMutationEffects_admits hrows
  have hnew : ∀ row ∈ s.db.outbox, row.pageId ≠ id := hop.2.2
  refine .mutated fresh id 1 .present (some (edit.page id 1 [] none)) rfl rfl hadmits rfl
    (fun _ _ => rfl) ?_ nofun ?_ ?_
  · rintro page' ⟨⟩
    exact ⟨rfl, rfl⟩
  · exact fun row hrow hid => absurd hid (hnew row hrow)
  · exact fun row hrow hid => absurd hid (hnew row hrow)

theorem editPage_step {id : Nat} {edit : PageEdit} {action : Action}
    {previousLocation : Option PageProjectionLocation} {db' : Database} (hs : TableInvariant env s)
    (h : editPage env id edit action previousLocation fresh s.db = .ok db') :
    DatabaseStep env s (.editPage id edit action previousLocation fresh) db' := by
  rw [editPage] at h
  split at h
  · cases h
  rename_i before hbefore
  obtain ⟨⟨rows, ids⟩, hrows, h⟩ := bind_ok h
  cases h
  have hadmits := enqueuePageMutationEffects_admits hrows
  have hid := hs.pages _ _ hbefore
  refine .mutated fresh id (before.sourceRevision + 1) .present _ rfl rfl ?_ rfl
    (fun _ _ => rfl) ?_ nofun ?_ ?_
  · rw [← hid]
    exact hadmits
  · rintro page' ⟨⟩
    exact ⟨hid, rfl⟩
  · simp [hbefore]
  · intro row hrow hrowid
    have := hs.revisions row hrow before (hrowid ▸ hbefore)
    omega

theorem deletePage_step {id : Nat} {db' : Database} (hs : TableInvariant env s)
    (h : deletePage env id fresh s.db = .ok db') : DatabaseStep env s (.deletePage id fresh) db' := by
  rw [deletePage] at h
  split at h
  · cases h
  rename_i page hpage
  obtain ⟨⟨rows, ids⟩, hrows, h⟩ := bind_ok h
  cases h
  have hadmits := enqueuePageMutationEffects_admits hrows
  have hid := hs.pages _ _ hpage
  refine .mutated fresh id (page.sourceRevision + 1) .absent none rfl rfl ?_ rfl
    (fun p hp => update_of_ne hp _ _) nofun (fun _ => rfl) ?_ ?_
  · rw [← hid]
    exact hadmits
  · simp [hpage]
  · intro row hrow hrowid
    have := hs.revisions row hrow page (hrowid ▸ hpage)
    omega

theorem isExact_revision {page : ProjectionPageRow} {payload : PageProjectionPayload}
    (h : isExactProjectionSource env page payload = true) : page.sourceRevision = payload.sourceRevision ∧ ∃ location,
    payload.location = some location ∧ page.localeCode = location.locale := by
  simp only [isExactProjectionSource, Bool.and_eq_true, decide_eq_true_eq, Option.any_eq_true] at h
  obtain ⟨⟨⟨location, hlocation, hmatch⟩, hrevision⟩, -⟩ := h
  simp only [pageLocationMatches, Bool.and_eq_true, decide_eq_true_eq] at hmatch
  exact ⟨hrevision, location, hlocation, hmatch.1.1.1⟩

theorem replaceLinks_step {i : Nat} {before : ProjectionPageRow} {links : List PageLinkIdentity}
    (hworker : s.workers[i]? = some ⟨claim, .replacingLinks before links⟩) : DatabaseStep env s (.replaceLinks i)
    (replaceLinks env claim.payload before links s.db).1 := by
  rw [replaceLinks]
  split
  · exact .same rfl rfl rfl
  · rename_i current hcurrent
    split
    · exact .same rfl rfl rfl
    · rename_i hrevision
      split
      · rename_i hmay
        exact .linksReplaced i claim before current links rfl hworker hcurrent
          (by simpa using hrevision) hmay
      · exact .same rfl rfl rfl

theorem renderPage_step {output : JsString} {now : Time} (hs : TableInvariant env s) :
    DatabaseStep env s op (renderPage env claim output now s.db).1 := by
  rw [renderPage]
  split
  · exact .same rfl rfl rfl
  · rename_i current hcurrent
    split
    · rename_i hcond
      simp only [Bool.and_eq_true, List.any_eq_true, decide_eq_true_eq] at hcond
      obtain ⟨hexact, row, hrow, ⟨hlive, hkey⟩, -⟩ := hcond
      have hid := hs.pages _ _ hcurrent
      have hrevision := (isExact_revision hexact).1
      simp only [leaseLive, Bool.and_eq_true] at hlive
      rw [← hid, ← hrevision] at hkey ⊢
      exact .published row current output hrow (leaseHeld_iff.mp hlive.1).2.1 hkey
        (hid ▸ hcurrent)
    · exact .same rfl rfl rfl

theorem databaseStep (hop : (outbox env).enabled op s) (hs : TableInvariant env s) :
    DatabaseStep env s op (databaseAfter env s op) := by
  rw [databaseAfter]
  cases hu : update s op with
  | some u => exact .updated u hu
  | none =>
    cases hdb : transaction env s op with
    | error e => exact .same rfl rfl rfl
    | ok db' =>
      have hadmitted : ∀ {fresh : Fresh}, op.issues = fresh.ids →
          (fresh.Distinct → (∀ pageId revision, Reserved fresh pageId revision s.db.outbox) →
            db' = s.db ∨ ∃ page, s.db.pages page.id = some page ∧
              Admitted fresh page s.db db') → DatabaseStep env s op db' := by
        intro fresh hissues h
        obtain ⟨hdistinct, hunissued⟩ := fresh_of_enabled hop hissues
        rcases h hdistinct (hs.reserved hunissued) with rfl | ⟨page, hpage, h⟩
        · exact .same rfl rfl rfl
        · exact .admitted fresh page hissues hpage h
      show DatabaseStep env s op db'
      cases op <;> simp only [transaction, Except.ok.injEq] at hdb
      case createPage => exact createPage_step hop hdb
      case editPage => exact editPage_step hs hdb
      case deletePage => exact deletePage_step hs hdb
      case admitPageRenderEffect =>
        obtain ⟨id, hdb⟩ := map_fst_ok hdb
        exact hadmitted rfl fun hd hr =>
          .inr (admitPageRenderEffect_ok hd hs.wellFormed hs.pages hr hdb)
      case admitPageSearchEffect =>
        obtain ⟨id, hdb⟩ := map_fst_ok hdb
        exact hadmitted rfl fun hd hr =>
          .inr (admitPageSearchEffect_ok hd hs.wellFormed hs.pages hr hdb)
      case repairSearchPage =>
        obtain ⟨changed, hdb⟩ := map_fst_ok hdb
        exact hadmitted rfl fun hd hr => repairSearchPage_ok hd hs.wellFormed hs.pages hr hdb
      case maintainGraphEffects =>
        exact hadmitted rfl fun hd hr =>
          maintainGraphEffects_ok hd hs.wellFormed hs.pages hr hdb
      case ensureSearchRender =>
        split at hdb
        · split at hdb
          · exact hadmitted rfl fun hd hr =>
              ensureSearchRender_ok hd hs.wellFormed hs.pages hr hdb
          · cases hdb
            exact .same rfl rfl rfl
        · cases hdb
          exact .same rfl rfl rfl
      case deleteLinks =>
        split at hdb
        · rename_i claim hworker
          cases hdb
          exact .linksDeleted _ claim hworker
        · cases hdb
          exact .same rfl rfl rfl
      case replaceLinks =>
        split at hdb
        · rename_i claim before links hworker
          cases hdb
          exact replaceLinks_step hworker
        · cases hdb
          exact .same rfl rfl rfl
      case renderPage =>
        split at hdb
        · split at hdb
          · cases hdb
            exact renderPage_step hs
          · cases hdb
            exact .same rfl rfl rfl
        · cases hdb
          exact .same rfl rfl rfl
      all_goals
        subst hdb
        exact .same rfl rfl rfl

/-! ## Rows and pages after one operation -/

/-- What an operation does to a row that is there already. -/
def RowChange (s : System) (op : Op) (row row' : PageMutationOutboxRow) : Prop :=
  Rearms row row' ∨ RowStep s op row row'

theorem RowChange.id {row row' : PageMutationOutboxRow} (h : RowChange s op row row') : row'.id = row.id := by
  rcases h with h | h
  · exact h.id
  · exact h.id

theorem RowChange.key {row row' : PageMutationOutboxRow} (h : RowChange s op row row') : row'.key = row.key := by
  rcases h with h | h
  · exact h.key
  · exact h.key

theorem RowChange.payload {row row' : PageMutationOutboxRow} (h : RowChange s op row row') :
    row'.payload = row.payload := by
  rcases h with h | h
  · exact h.payload
  · exact h.payload

theorem RowChange.desiredState {row row' : PageMutationOutboxRow} (h : RowChange s op row row') :
    row'.desiredState = row.desiredState := by
  rcases h with h | h
  · exact h.desiredState
  · exact h.desiredState

/-- A token in the new row was in the old row, or is the token just granted. -/
theorem RowChange.token {row row' : PageMutationOutboxRow} (h : RowChange s op row row') {t : Uuid}
    (ht : row'.leaseToken = some t) : row.leaseToken = some t ∧ row'.status = row.status ∨ ∃ candidate,
    Granting s op t candidate ∧ row.id = candidate.id := by
  rcases h with h | h
  · have heq := h.token (by simp [ht])
    subst heq
    exact .inl ⟨ht, rfl⟩
  · rcases h.token with hnone | ⟨hkeep, hstatus⟩ | ⟨t', candidate, hgrant, hid, hissue, -⟩
    · rw [hnone] at ht
      cases ht
    · exact .inl ⟨hkeep ▸ ht, hstatus⟩
    · rw [hissue] at ht
      cases ht
      exact .inr ⟨candidate, hgrant, hid⟩

/-- A row that an operation added. -/
structure NewRow (op : Op) (db' : Database) (row : PageMutationOutboxRow) : Prop where
  id : row.id ∈ op.issues
  leaseToken : row.leaseToken = none
  status : row.status = .pending ∨ row.status = .retry
  page : ∀ page, db'.pages row.pageId = some page →
    row.sourceRevision ≤ page.sourceRevision ∧ row.desiredState ≠ .absent

theorem newRow_of_rearms {payload : PageProjectionPayload} {db' : Database}
    {row : PageMutationOutboxRow} (hissues : op.issues = fresh.ids)
    (h : Rearms (pendingRow payload (fresh.id payload.effectKind) fresh.now) row)
    (hpage : ∀ page, db'.pages payload.pageId = some page →
      payload.sourceRevision ≤ page.sourceRevision ∧ payload.desiredState ≠ .absent) :
    NewRow op db' row := by
  have hid : fresh.id payload.effectKind ∈ op.issues := by
    rw [hissues]
    exact List.mem_map_of_mem (by cases payload.effectKind <;> decide)
  rcases h with rfl | ⟨now, rfl⟩
  · exact ⟨hid, rfl, .inl rfl, hpage⟩
  · exact ⟨hid, rfl, .inr rfl, hpage⟩

variable {db' : Database}

theorem Admitted.pages_of {page page' : ProjectionPageRow} {db db' : Database} (h : Admitted fresh page db db')
    (hpage : db.pages page.id = some page) {p : Nat} (hp : db'.pages p = some page') : ∃ before,
    db.pages p = some before ∧ page'.id = before.id ∧ page'.sourceRevision = before.sourceRevision := by
  rcases h with h | h
  · rw [h.pages] at hp
    exact ⟨page', hp, rfl, rfl⟩
  · rw [h.pages] at hp
    by_cases hid : p = page.id
    · subst hid
      rw [update_self] at hp
      cases hp
      exact ⟨page, hpage, rfl, rfl⟩
    · rw [update_of_ne hid] at hp
      exact ⟨page', hp, rfl, rfl⟩

theorem DatabaseStep.rows (h : DatabaseStep env s op db') (hs : TableInvariant env s) :
    ∀ row' ∈ db'.outbox, (∃ row ∈ s.db.outbox, RowChange s op row row') ∨ NewRow op db' row' := by
  have hsame : ∀ row' ∈ s.db.outbox, (∃ row ∈ s.db.outbox, RowChange s op row row') ∨
      NewRow op db' row' := fun row' hrow' => .inl ⟨row', hrow', .inl (.refl row')⟩
  intro row' hrow'
  cases h with
  | same hpages houtbox hlinks => exact hsame row' (houtbox ▸ hrow')
  | linksDeleted | linksReplaced | published => exact hsame row' hrow'
  | updated u hu =>
    obtain ⟨row, hrow, rfl⟩ := Table.mem_updateWhere.mp hrow'
    refine .inl ⟨row, hrow, ?_⟩
    split
    · rename_i hcond
      exact .inr (rowStep_of_update (fun call hcall row hrow => (hs.candidates call hcall row hrow).1) hu hcond)
    · exact .inl (.refl row)
  | admitted fresh page hissues hpage hadmitted =>
    rcases hadmitted.admits.back row' hrow' with ⟨row, hrow, hr⟩ | ⟨payload, rfl', hrev, hd, hr⟩
    · exact .inl ⟨row, hrow, .inl hr⟩
    · refine .inr (newRow_of_rearms hissues hr fun page' hpage' => ?_)
      obtain ⟨before, hbefore, -, hrevision⟩ := hadmitted.pages_of hpage hpage'
      rw [rfl', hpage] at hbefore
      cases hbefore
      exact ⟨by omega, by simp [hd]⟩
  | mutated fresh id revision desired page hissues hworker hadmits hpages hlinks hpage hpresent =>
    rcases hadmits.back row' hrow' with ⟨row, hrow, hr⟩ | ⟨payload, hid, hrev, hd, hr⟩
    · exact .inl ⟨row, hrow, .inl hr⟩
    · refine .inr (newRow_of_rearms hissues hr fun page' hpage' => ?_)
      rw [hpages, hid, update_self] at hpage'
      have := (hpage page' hpage').2
      refine ⟨by omega, fun habsent => ?_⟩
      rw [hpresent (hd ▸ habsent)] at hpage'
      cases hpage'

/-- No row is lost, and its intent stays. -/
theorem DatabaseStep.forth (h : DatabaseStep env s op db') (hs : TableInvariant env s) :
    ∀ row ∈ s.db.outbox, ∃ row' ∈ db'.outbox, row'.id = row.id ∧ row'.payload = row.payload := by
  intro row hrow
  cases h with
  | same hpages houtbox hlinks => exact ⟨row, houtbox ▸ hrow, rfl, rfl⟩
  | linksDeleted | linksReplaced | published => exact ⟨row, hrow, rfl, rfl⟩
  | updated u hu =>
    refine ⟨_, Table.mem_updateWhere.mpr ⟨row, hrow, rfl⟩, ?_⟩
    split
    · rename_i hcond
      have hstep := rowStep_of_update
        (fun call hcall row hrow => (hs.candidates call hcall row hrow).1) hu hcond
      exact ⟨hstep.id, hstep.payload⟩
    · exact ⟨rfl, rfl⟩
  | admitted fresh page hissues hpage hadmitted =>
    obtain ⟨row', hrow', hr⟩ := hadmitted.admits.forth row hrow
    exact ⟨row', hrow', hr.id, hr.payload⟩
  | mutated fresh id revision desired page hissues hworker hadmits =>
    obtain ⟨row', hrow', hr⟩ := hadmits.forth row hrow
    exact ⟨row', hrow', hr.id, hr.payload⟩

theorem DatabaseStep.pageIds (h : DatabaseStep env s op db') (hs : TableInvariant env s) :
    ∀ p page, db'.pages p = some page → page.id = p := by
  intro p page' hp
  cases h with
  | same hpages houtbox hlinks => exact hs.pages p page' (hpages ▸ hp)
  | linksDeleted | linksReplaced | updated => exact hs.pages p page' hp
  | admitted fresh page hissues hpage hadmitted =>
    obtain ⟨before, hbefore, hid, -⟩ := hadmitted.pages_of hpage hp
    exact hid.trans (hs.pages p before hbefore)
  | mutated fresh id revision desired page hissues hworker hadmits hpages hlinks hpage =>
    rw [hpages] at hp
    by_cases hid : p = id
    · subst hid
      rw [update_self] at hp
      exact (hpage page' hp).1
    · rw [update_of_ne hid] at hp
      exact hs.pages p page' hp
  | published row current output hrow hrun hkey hpage =>
    by_cases hid : p = current.id
    · subst hid
      simp only [update_self, Option.some.injEq] at hp
      subst hp
      rfl
    · simp only [update_of_ne hid] at hp
      exact hs.pages p page' hp

/-- The page of a row that was there before is not older than the row. -/
theorem DatabaseStep.pageOfRow (h : DatabaseStep env s op db') (hs : TableInvariant env s) {row : PageMutationOutboxRow}
    (hrow : row ∈ s.db.outbox) {page' : ProjectionPageRow} (hp : db'.pages row.pageId = some page') :
    row.sourceRevision ≤ page'.sourceRevision ∧ row.desiredState ≠ .absent := by
  have hbefore : ∀ {before}, s.db.pages row.pageId = some before →
      row.sourceRevision ≤ before.sourceRevision ∧ row.desiredState ≠ .absent := by
    intro before hbefore
    refine ⟨hs.revisions row hrow before hbefore, fun habsent => ?_⟩
    rw [hs.absent row hrow habsent] at hbefore
    cases hbefore
  cases h with
  | same hpages houtbox hlinks => exact hbefore (hpages ▸ hp)
  | linksDeleted | linksReplaced | updated => exact hbefore hp
  | admitted fresh page hissues hpage hadmitted =>
    obtain ⟨before, hpb, -, hrevision⟩ := hadmitted.pages_of hpage hp
    rw [hrevision]
    exact hbefore hpb
  | mutated fresh id revision desired page hissues hworker hadmits hpages hlinks hpage hpresent
      hgone hnewer =>
      by_cases hid : row.pageId = id
      · rw [hpages, hid, update_self] at hp
        have := hnewer row hrow hid
        refine ⟨by have := (hpage page' hp).2; omega, fun habsent => ?_⟩
        exact hgone row hrow hid (hid ▸ hs.absent row hrow habsent)
      · rw [hpages, update_of_ne hid] at hp
        exact hbefore hp
  | published row' current output hrow' hrun hkey hpage =>
    by_cases hid : row.pageId = current.id
    · simp only [hid, update_self, Option.some.injEq] at hp
      subst hp
      have hcurrent : s.db.pages row.pageId = some current := by rw [hid, hpage]
      exact ⟨hs.revisions row hrow current hcurrent, (hbefore hcurrent).2⟩
    · simp only [update_of_ne hid] at hp
      exact hbefore hp

theorem RowStep.unleased {row row' : PageMutationOutboxRow} (h : RowStep s op row row')
    (hstatus : row'.status ≠ .running) : row'.leaseToken = none := by
  cases h with
  | released | quarantined => rfl
  | granted => exact absurd rfl hstatus
  | extended now hrun => exact absurd hrun hstatus
  | finished => rfl

theorem update_keeps {u : Update} (hu : update s op = some u) (row : PageMutationOutboxRow) :
    (u.set row).key = row.key ∧ (u.set row).id = row.id := by
  cases op <;> simp only [update, reduceCtorEq] at hu
  case heartbeat =>
    obtain ⟨worker, -, rfl⟩ := map_eq_some_iff.mp hu
    exact ⟨rfl, rfl⟩
  case grantNext =>
    split at hu
    · split at hu <;> (cases hu; exact ⟨rfl, rfl⟩)
    · cases hu
  all_goals
    split at hu
    · cases hu
      exact ⟨rfl, rfl⟩
    · cases hu

theorem DatabaseStep.wellFormed (hop : (outbox env).enabled op s) (hs : TableInvariant env s)
    (h : DatabaseStep env s op db') : WellFormed db'.outbox := by
  have hw := hs.wellFormed
  cases h with
  | same hpages houtbox hlinks => exact houtbox ▸ hw
  | linksDeleted | linksReplaced | published => exact hw
  | admitted fresh page hissues hpage hadmitted =>
    obtain ⟨hdistinct, hunissued⟩ := fresh_of_enabled hop hissues
    exact (hadmitted.admits.wellFormed hdistinct (hs.reserved hunissued _ _) hw).1
  | mutated fresh id revision desired page hissues hworker hadmits =>
    obtain ⟨hdistinct, hunissued⟩ := fresh_of_enabled hop hissues
    exact (hadmits.wellFormed hdistinct (hs.reserved hunissued _ _) hw).1
  | updated u hu =>
    refine ⟨?_, ?_, ?_, ?_⟩
    · rw [Table.map_updateWhere PageMutationOutboxRow.key fun row => (update_keeps hu row).1]
      exact hw.keys
    · rw [Table.map_updateWhere PageMutationOutboxRow.id fun row => (update_keeps hu row).2]
      exact hw.ids
    · refine Table.forall_updateWhere hw.unleased fun row hrow hcond _ => ?_
      exact (rowStep_of_update (fun call hcall row hrow => (hs.candidates call hcall row hrow).1) hu hcond).unleased
    · refine Table.forall_updateWhere hw.parsed fun row hrow hcond hparsed => ?_
      have hstep := rowStep_of_update
        (fun call hcall row hrow => (hs.candidates call hcall row hrow).1) hu hcond
      have hkey := hstep.key
      simp only [PageMutationOutboxRow.key, Prod.mk.injEq] at hkey
      rw [hstep.payload, hstep.desiredState, hkey.1, hkey.2.1, hkey.2.2]
      exact hparsed

/-! ## Claims and workers after one operation -/

theorem candidates_exec {call : ClaimCall} (hcall : call ∈ callsAfter env s op) (hrow : candidate ∈ call.stage.rows) :
    (∃ call ∈ s.calls, candidate ∈ call.stage.rows) ∨ candidate ∈ s.db.outbox ∧ waiting candidate = true := by
  have hold : ∀ call ∈ s.calls, candidate ∈ call.stage.rows →
      (∃ call ∈ s.calls, candidate ∈ call.stage.rows) ∨ candidate ∈ s.db.outbox ∧ waiting candidate = true :=
    fun call hcall hrow => .inl ⟨call, hcall, hrow⟩
  have hset : ∀ {i : Nat} {new : ClaimCall}, call ∈ s.calls.set i new →
      (candidate ∈ new.stage.rows → (∃ call ∈ s.calls, candidate ∈ call.stage.rows) ∨
        candidate ∈ s.db.outbox ∧ waiting candidate = true) →
      (∃ call ∈ s.calls, candidate ∈ call.stage.rows) ∨ candidate ∈ s.db.outbox ∧ waiting candidate = true := by
    intro i new hmem hnew
    rcases mem_or_eq_of_mem_set hmem with hmem | rfl
    · exact hold call hmem hrow
    · exact hnew hrow
  cases op <;> simp only [callsAfter] at hcall
  case beginClaim input now =>
    split at hcall
    · split at hcall
      · rcases mem_append.mp hcall with hmem | hmem
        · exact hold call hmem hrow
        · rw [mem_singleton.mp hmem] at hrow
          cases hrow
      · exact hold call hcall hrow
    · exact hold call hcall hrow
  case expireLeases i now =>
    split at hcall
    · exact hset hcall nofun
    · exact hold call hcall hrow
  case countActive i =>
    split at hcall
    · refine hset hcall fun hrow => ?_
      split at hrow <;> cases hrow
    · exact hold call hcall hrow
  case selectRows i skipLocked =>
    split at hcall
    · rename_i input now limit claimed hget
      split at hcall
      · split at hcall
        · exact hset hcall nofun
        · refine hset hcall fun hrow => .inr ?_
          have hmem := mem_of_mem_take hrow
          rw [mem_insertionSort, mem_filter] at hmem
          simp only [claimReady, Bool.and_eq_true] at hmem
          exact ⟨hmem.1, hmem.2.1.1.1.1.1.1⟩
      · exact hset hcall nofun
    · exact hold call hcall hrow
  case grantNext i leaseToken =>
    split at hcall
    · rename_i input now limit row rest claimed progress hget
      have hrest : ∀ n b, candidate ∈ (nextRound now limit rest n b).rows →
          ∃ call ∈ s.calls, candidate ∈ call.stage.rows := by
        intro n b hmem
        refine ⟨_, mem_of_getElem? hget, mem_cons_of_mem _ ?_⟩
        cases rest with
        | nil =>
          simp only [nextRound] at hmem
          split at hmem <;> cases hmem
        | cons a rest => exact hmem
      split at hcall
      · exact hset hcall fun hrow => .inl (hrest _ _ hrow)
      · exact hset hcall fun hrow => .inl (hrest _ _ hrow)
    · exact hold call hcall hrow
  all_goals exact hold call hcall hrow

theorem granted_some {worker : Worker} (h : granted s op = some worker) : ∃ candidate,
    Granting s op worker.claim.leaseToken candidate ∧ worker.claim.id = candidate.id ∧
    worker.claim.payload = candidate.payload ∧ worker.stage = .claimed := by
  cases op <;> simp only [granted, reduceCtorEq] at h
  case grantNext i leaseToken =>
    split at h
    · rename_i input now limit candidate rest claimed progress hcall
      split at h
      · cases h
      · rename_i payload hparse
        split at h
        · cases h
          exact ⟨candidate, ⟨i, input, now, limit, rest, claimed, progress, rfl, hcall⟩, rfl,
            parseRowPayload_ok hparse, rfl⟩
        · cases h
    · cases h

/-- A worker afterwards was there before, was moved one stage on, or was just started. -/
theorem workers_exec {worker' : Worker} (h : worker' ∈ workersAfter env s op) :
    worker' ∈ s.workers ∨
      (∃ i worker, op.worker = some i ∧ s.workers[i]? = some worker ∧
        worker' = { worker with stage := nextStage env s.db worker op }) ∨
      granted s op = some worker' := by
  rw [workersAfter] at h
  split at h
  · rename_i i hi
    obtain ⟨j, hj⟩ := mem_iff_getElem?.mp h
    rw [getElem?_modify] at hj
    obtain ⟨worker, hworker, hj⟩ := map_eq_some_iff.mp hj
    by_cases hij : i = j
    · subst hij
      exact .inr (.inl ⟨i, worker, hi, hworker, by simpa using hj.symm⟩)
    · rw [if_neg hij] at hj
      exact .inl (hj ▸ mem_of_getElem? hworker)
  · rcases mem_append.mp h with h | h
    · exact .inl h
    · exact .inr (.inr (mem_toList.mp h))

theorem linksPlan_invariant {payload : PageProjectionPayload} {before : Option ProjectionPageRow} :
    StageInvariant env payload (afterPlan (linksPlan env payload before)) := by
  rw [linksPlan]
  split
  · rename_i habsent
    split
    · trivial
    · exact habsent
  · split
    · trivial
    · rename_i location hlocation
      split
      · trivial
      · split
        · trivial
        · split
          · trivial
          · exact hlocation

theorem StageInvariant.next {worker : Worker} (h : StageInvariant env worker.claim.payload worker.stage) :
    StageInvariant env worker.claim.payload (nextStage env s.db worker op) := by
  obtain ⟨claim, stage⟩ := worker
  cases op <;> simp only [nextStage]
  case checkLease i now =>
    split
    · split <;> trivial
    · exact h
  case noSink i =>
    split
    · trivial
    · exact h
  case readPage i =>
    split
    · split
      · exact linksPlan_invariant
      · trivial
    · exact h
  case deleteLinks i =>
    split
    · exact h
    · exact h
  case readRemaining i =>
    split
    · trivial
    · exact h
  case readRenderEffect i now =>
    split
    · rename_i before location
      split
      · exact ⟨location, h, rfl⟩
      · trivial
    · exact h
  case replaceLinks i =>
    split
    · trivial
    · exact h
  case throws i message now =>
    split
    · trivial
    · exact h
  case otherSink i answer =>
    split
    · split <;> trivial
    · exact h
  case finish i now =>
    split
    · trivial
    · exact h
  all_goals exact h

/-! ## Preservation of the table invariant -/

theorem TableInvariant.empty : TableInvariant env .empty := by
  constructor
  case wellFormed => constructor <;> simp [System.empty, Database.empty]
  all_goals simp [System.empty, Database.empty]

theorem Granting.unissued {t : Uuid} (hop : (outbox env).enabled op s) (h : Granting s op t candidate) : t ∉ s.issued :=
  hop.1.2 t (by rw [h.issues]; exact mem_singleton_self t)

/-- A worker gets its claim from a row that is there, under a token that is issued. -/
theorem TableInvariant.claims_step (hop : (outbox env).enabled op s) (hs : TableInvariant env s) :
    ∀ worker ∈ ((outbox env).exec op s).workers, worker.claim.leaseToken ∈ ((outbox env).exec op s).issued ∧
      ∃ row ∈ ((outbox env).exec op s).db.outbox, row.payload = worker.claim.payload := by
  have hforth := (databaseStep hop hs).forth hs
  intro worker' hworker'
  have hkeep : ∀ {payload : PageProjectionPayload},
      (∃ row ∈ s.db.outbox, row.payload = payload) →
      ∃ row ∈ ((outbox env).exec op s).db.outbox, row.payload = payload := by
    rintro payload ⟨row, hrow, rfl⟩
    obtain ⟨row', hrow', -, hpayload'⟩ := hforth row hrow
    exact ⟨row', hrow', hpayload'⟩
  rcases workers_exec hworker' with hold | ⟨i, worker, -, hget, rfl⟩ | hgranted
  · obtain ⟨hissued, hrow⟩ := hs.claims worker' hold
    exact ⟨issued_exec hissued, hkeep hrow⟩
  · obtain ⟨hissued, hrow⟩ := hs.claims worker (mem_of_getElem? hget)
    exact ⟨issued_exec hissued, hkeep hrow⟩
  · obtain ⟨candidate, hgrant, -, hpayload, -⟩ := granted_some hgranted
    refine ⟨mem_append_left _ (by rw [hgrant.issues]; exact mem_singleton_self _), ?_⟩
    obtain ⟨i, input, now, limit, rest, claimed, progress, -, hcall⟩ := hgrant
    obtain ⟨-, row, hrow, -, hrowpayload⟩ := hs.candidates _ (mem_of_getElem? hcall)
      candidate mem_cons_self
    rw [hpayload]
    exact hkeep ⟨row, hrow, hrowpayload⟩

/-- A token that is granted was on no row before. -/
theorem TableInvariant.owners_step (hop : (outbox env).enabled op s) (hs : TableInvariant env s) :
    ∀ worker ∈ ((outbox env).exec op s).workers, ∀ row ∈ ((outbox env).exec op s).db.outbox,
      row.leaseToken = some worker.claim.leaseToken → row.payload = worker.claim.payload := by
  have hdb := databaseStep hop hs
  intro worker' hworker' row' hrow' htoken
  rcases hdb.rows hs row' hrow' with ⟨row, hrow, hch⟩ | hnew
  · rw [hch.payload]
    have hclaim : ∀ worker ∈ s.workers, worker'.claim = worker.claim →
        row.payload = worker'.claim.payload := by
      intro worker hworker heq
      rw [heq] at htoken ⊢
      rcases hch.token htoken with ⟨hkept, -⟩ | ⟨candidate, hgrant, -⟩
      · exact hs.owners worker hworker row hrow hkept
      · exact absurd (hs.claims worker hworker).1 (hgrant.unissued hop)
    rcases workers_exec hworker' with hold | ⟨i, worker, -, hget, rfl⟩ | hgranted
    · exact hclaim worker' hold rfl
    · exact hclaim worker (mem_of_getElem? hget) rfl
    · obtain ⟨candidate, hgrant, -, hpayload, -⟩ := granted_some hgranted
      rcases hch.token htoken with ⟨hkept, -⟩ | ⟨candidate', hgrant', hid⟩
      · exact absurd (hs.tokens row hrow _ hkept) (hgrant.unissued hop)
      · obtain rfl := (hgrant.unique hgrant').2
        obtain ⟨i, input, now, limit, rest, claimed, progress, -, hcall⟩ := hgrant
        obtain ⟨-, r, hr, hrid, hrpayload⟩ := hs.candidates _ (mem_of_getElem? hcall)
          candidate' mem_cons_self
        have heq := inj_on_of_nodup_map hs.wellFormed.ids hr hrow (hrid.trans hid.symm)
        rw [hpayload, ← hrpayload, heq]
  · rw [hnew.leaseToken] at htoken
    cases htoken

theorem TableInvariant.step (op : Op) (s : System) (hop : (outbox env).enabled op s)
    (hs : TableInvariant env s) : TableInvariant env ((outbox env).exec op s) := by
  have hdb := databaseStep hop hs
  have hforth := hdb.forth hs
  refine ⟨hdb.wellFormed hop hs, ?_, ?_, hdb.pageIds hs, ?_, ?_, ?_, hs.claims_step hop, hs.owners_step hop, ?_⟩
  · intro row' hrow'
    rcases hdb.rows hs row' hrow' with ⟨row, hrow, hch⟩ | hnew
    · rw [hch.id]
      exact issued_exec (hs.ids row hrow)
    · exact mem_append_left _ hnew.id
  · intro row' hrow' t ht
    rcases hdb.rows hs row' hrow' with ⟨row, hrow, hch⟩ | hnew
    · rcases hch.token ht with ⟨htoken, -⟩ | ⟨candidate, hgrant, -⟩
      · exact issued_exec (hs.tokens row hrow t htoken)
      · exact mem_append_left _ (by rw [hgrant.issues]; exact mem_singleton_self t)
    · rw [hnew.leaseToken] at ht
      cases ht
  · intro row' hrow' page hpage
    rcases hdb.rows hs row' hrow' with ⟨row, hrow, hch⟩ | hnew
    · have hkey := hch.key
      simp only [PageMutationOutboxRow.key, Prod.mk.injEq] at hkey
      rw [hkey.1] at hpage
      rw [hkey.2.1]
      exact (hdb.pageOfRow hs hrow hpage).1
    · exact (hnew.page page hpage).1
  · intro row' hrow' habsent
    rw [eq_none_iff_forall_ne_some]
    intro page hpage
    rcases hdb.rows hs row' hrow' with ⟨row, hrow, hch⟩ | hnew
    · have hkey := hch.key
      simp only [PageMutationOutboxRow.key, Prod.mk.injEq] at hkey
      rw [hkey.1] at hpage
      exact (hdb.pageOfRow hs hrow hpage).2 (hch.desiredState ▸ habsent)
    · exact (hnew.page page hpage).2 habsent
  · intro call hcall candidate hcandidate
    have hrow : waiting candidate = true ∧ ∃ row ∈ s.db.outbox, row.id = candidate.id ∧
        row.payload = candidate.payload := by
      rcases candidates_exec hcall hcandidate with ⟨call, hcall, hmem⟩ | ⟨hmem, hwaiting⟩
      · exact hs.candidates call hcall candidate hmem
      · exact ⟨hwaiting, candidate, hmem, rfl, rfl⟩
    obtain ⟨hwaiting, row, hrow, hid, hpayload⟩ := hrow
    obtain ⟨row', hrow', hid', hpayload'⟩ := hforth row hrow
    exact ⟨hwaiting, row', hrow', hid'.trans hid, hpayload'.trans hpayload⟩
  · intro worker' hworker'
    rcases workers_exec hworker' with hold | ⟨i, worker, -, hget, rfl⟩ | hgranted
    · exact hs.stages worker' hold
    · exact (hs.stages worker (mem_of_getElem? hget)).next
    · obtain ⟨candidate, -, -, -, hstage⟩ := granted_some hgranted
      rw [hstage]
      trivial

theorem TableInvariant.of_reachable {s : System} (h : Reachable env s) : TableInvariant env s :=
  h.invariant .empty TableInvariant.step

end

end TsEpistle.Outbox
