import TsEpistle.Pages.Workflow
import TsEpistle.Storage.Mutations

/-! What an operation on pages does to the locations that a storage target mirrors. -/

namespace TsEpistle.Storage
open Library Checked List Function
open Pages (PageRow PageDatabase PageColumns PageOp Sound Call Revision)
open Outbox (OutboxError Fresh validLocation)

variable {env : Pages.Environment} {db db' : PageDatabase} {page : PageRow} {call : Call}

/-! ## Clean locations -/

structure CleanColumns (columns : PageColumns) : Prop where
  path : CleanPath columns.path
  locale : CleanLocale columns.localeCode

/-- A path without dots and without empty segments, told from its units. -/
theorem segments_named : ∀ (path : JsString), path ≠ [] → path.head? ≠ some 47 →
    path.getLast? ≠ some 47 → (47, 47) ∉ path.zip path.tail → ∀ s ∈ segments path, s ≠ []
  | [], hne, _, _, _ => absurd rfl hne
  | [a], _, hhead, _, _ => by
      have ha : a ≠ 47 := by simpa using hhead
      intro s hs
      obtain rfl : s = [a] := by simpa [segments, splitOn_cons_eq_if_modifyHead, ha] using hs
      simp
  | a :: b :: path, _, hhead, hlast, hdouble => by
      have ha : a ≠ 47 := by simpa using hhead
      by_cases hb : b = 47
      · subst hb
        -- the path goes on after the slash
        have hnext : path ≠ [] := by
          rintro rfl
          simp at hlast
        have hhead' : path.head? ≠ some 47 := by
          intro h
          obtain ⟨c, rest, rfl⟩ := exists_cons_of_ne_nil hnext
          have hc : c = 47 := by simpa using h
          simp [hc] at hdouble
        have ih := segments_named path hnext hhead'
          (by simpa [getLast?_cons_of_ne_nil, hnext] using hlast)
          (fun h => hdouble (by
            obtain ⟨c, rest, rfl⟩ := exists_cons_of_ne_nil hnext
            simpa using .inr (.inr (by simpa using h))))
        have hsplit : segments (a :: 47 :: path) = [a] :: segments path := by
          simp [segments, splitOn_cons_eq_if_modifyHead, ha]
        intro s hs
        rw [hsplit] at hs
        rcases mem_cons.mp hs with rfl | hs
        · simp
        · exact ih s hs
      · have ih := segments_named (b :: path) (by simp) (by simpa using hb)
          (by simpa [getLast?_cons_of_ne_nil] using hlast)
          (fun h => hdouble (by simpa using .inr (by simpa using h)))
        have hsplit : segments (a :: b :: path) = (segments (b :: path)).modifyHead (a :: ·) := by
          simp [segments, splitOn_cons_eq_if_modifyHead, ha]
        intro s hs
        rw [hsplit] at hs
        cases hparts : segments (b :: path) with
        | nil => exact absurd hparts (splitOn_ne_nil 47 _)
        | cons t parts =>
          rw [hparts] at hs ih
          rcases mem_cons.mp hs with rfl | hs
          · simp
          · exact ih s (mem_cons_of_mem _ hs)

theorem cleanPath_of_legal {path : JsString} (hlegal : Pages.illegalPath path = false) (hne : path ≠ [])
    (hhead : path.head? ≠ some 47) (hlast : path.getLast? ≠ some 47) : CleanPath path := by
  simp only [Pages.illegalPath, Bool.or_eq_false_iff] at hlegal
  obtain ⟨⟨⟨hdot, -⟩, -⟩, hdouble⟩ := hlegal
  exact ⟨by simpa using hdot, segments_named path hne hhead hlast (by simpa using hdouble)⟩

/-- Two units that follow each other. -/
theorem mem_zip_tail {a b : UInt16} {path : JsString} : (a, b) ∈ path.zip path.tail ↔ [a, b] <:+: path := by
  induction path with
  | nil => simp
  | cons c path ih =>
    rw [infix_cons_iff, ← ih]
    cases path with
    | nil => simp
    | cons d path => simp [prefix_cons_iff]

theorem illegalPath_eq_false_iff {path : JsString} : Pages.illegalPath path = false ↔
    46 ∉ path ∧ 32 ∉ path ∧ 92 ∉ path ∧ ¬[47, 47] <:+: path := by
  rw [← mem_zip_tail]
  simp [Pages.illegalPath, Bool.or_eq_false_iff, and_assoc]

theorem legal_of_part {path part : JsString} (h : part <:+: path)
    (hlegal : Pages.illegalPath path = false) : Pages.illegalPath part = false := by
  rw [illegalPath_eq_false_iff] at hlegal ⊢
  exact ⟨fun hmem => hlegal.1 (h.subset hmem), fun hmem => hlegal.2.1 (h.subset hmem),
    fun hmem => hlegal.2.2.1 (h.subset hmem), fun hpart => hlegal.2.2.2 (hpart.trans h)⟩

/-- What `checkedPath` lets through is clean, once it is not empty. -/
theorem cleanPath_of_checked {raw path : JsString} (h : Pages.checkedPath raw = .ok path)
    (hne : path ≠ []) : CleanPath path := by
  unfold Pages.checkedPath at h
  split at h
  · cases h
  next hlegal =>
    have hlegal : Pages.illegalPath raw = false := by simpa using hlegal
    cases h
    -- without the slash at the end
    obtain ⟨mid, hmid, hpart, hlast⟩ : ∃ mid, Pages.trimmedPath raw
        = (if mid.head? = some 47 then mid.tail else mid) ∧ mid <:+: raw ∧ mid.getLast? ≠ some 47 := by
      refine ⟨if raw.getLast? = some 47 then raw.dropLast else raw, rfl, ?_, ?_⟩
      · split
        · exact (List.dropLast_prefix raw).isInfix
        · exact infix_rfl
      · split
        next hraw =>
          intro hmid
          obtain ⟨init, hinit⟩ := getLast?_eq_some_iff.mp hraw
          rw [hinit, dropLast_concat] at hmid
          obtain ⟨init', rfl⟩ := getLast?_eq_some_iff.mp hmid
          refine (illegalPath_eq_false_iff.mp hlegal).2.2.2 ⟨init', [], ?_⟩
          simp [hinit]
        next hraw => exact hraw
    have hlegalMid := legal_of_part hpart hlegal
    rw [hmid] at hne ⊢
    split at hne
    next hhead =>
      rw [if_pos hhead]
      obtain ⟨rest, rfl⟩ : ∃ rest, mid = 47 :: rest := by
        cases mid with
        | nil => cases hhead
        | cons c rest => exact ⟨rest, by simpa using hhead⟩
      rw [tail_cons] at hne ⊢
      refine cleanPath_of_legal (legal_of_part (suffix_cons 47 rest).isInfix hlegalMid) hne
        ?_ ?_
      · intro hrest
        obtain ⟨c, rest', rfl⟩ := exists_cons_of_ne_nil hne
        obtain rfl : c = 47 := by simpa using hrest
        exact (illegalPath_eq_false_iff.mp hlegalMid).2.2.2 ⟨[], rest', by simp⟩
      · rwa [getLast?_cons_of_ne_nil hne] at hlast
    next hhead =>
      rw [if_neg hhead]
      exact cleanPath_of_legal hlegalMid hne hhead hlast

theorem cleanPath_of_recovery {path : JsString} (h : assertRecoveryPath path = true) : CleanPath path := by
  simp only [assertRecoveryPath, Bool.and_eq_true, decide_eq_true_eq, ne_eq, Bool.not_eq_true'] at h
  exact cleanPath_of_legal h.2 h.1.1.1 h.1.1.2 h.1.2

/-! ## Writes -/

/-- Only this page may differ. -/
def Others (db db' : PageDatabase) (pageId : Nat) : Prop :=
  ∀ q, q ≠ pageId → db'.pages q = db.pages q ∧ db'.pageTags q = db.pageTags q

/-- What an operation wrote, and what it hands to the queue of the target: nothing where no page
changes, or where the page has no public location before and after. -/
inductive Writes (db db' : PageDatabase) : Option StorageRequest → Prop
  | still (pages : db'.pages = db.pages) (tags : db'.pageTags = db.pageTags) : Writes db db' none
  | hidden (pageId : Nat) (others : Others db db' pageId)
      (before : ∀ stored, db.pages pageId = some stored → isPublic stored = false)
      (after : ∀ next, db'.pages pageId = some next →
        isPublic next = false ∧ CleanColumns next.columns) : Writes db db' none
  | requested (request : StorageRequest) (others : Others db db' request.pageId)
      (previous : ∀ stored, db.pages request.pageId = some stored →
        ∃ previous, request.previous = some previous ∧ previous.columns = stored.columns)
      (after : ∀ next, db'.pages request.pageId = some next → CleanColumns next.columns) :
      Writes db db' (some request)

/-- Every page has a clean location. -/
def CleanPages (db : PageDatabase) : Prop :=
  ∀ p page, db.pages p = some page → CleanColumns page.columns

theorem path_ne_nil {page : PageRow} (h : validLocation page.location = true) : page.columns.path ≠ [] := by
  simp only [validLocation, Bool.and_eq_true, decide_eq_true_eq] at h
  intro hnil
  have hlength : 1 ≤ page.columns.path.length := h.1.1.2
  simp [hnil] at hlength

/-- The common path, for a page that was read before. -/
theorem save_writes (hs : Sound db) (hread : page ∈ db.committed) {revision : Revision}
    {now : Pages.Time} {fresh : Fresh}
    (hclean : ∀ stored, db.pages page.id = some stored → stored.columns = page.columns →
      (revision.columns stored.columns).path ≠ [] → CleanColumns (revision.columns stored.columns))
    (h : Pages.saveCanonicalPageRevision env page revision now fresh db = .ok db') :
    Writes db db' (some ⟨page.id, some page, none⟩) := by
  obtain ⟨stored, effects, hp, hid, hrev, rfl, -, hvalid⟩ := Pages.saveCanonicalPageRevision_ok hs h
  obtain ⟨hcols, -⟩ := Pages.read_columns hs hread hp hrev
  have hrow : (revision.row stored (db.pageTags page.id) now).id = page.id := by
    rw [Revision.row_id, hid]
  refine .requested _ ?_ ?_ ?_
  · intro q hq
    have hne : q ≠ (revision.row stored (db.pageTags page.id) now).id := by rw [hrow]; exact hq
    simp only [PageDatabase.revised, update_of_ne hne, and_self]
  · intro stored' hp'
    rw [hp] at hp'
    cases hp'
    exact ⟨page, rfl, hcols⟩
  · intro next hnext
    obtain rfl : revision.row stored (db.pageTags page.id) now = next := by
      simpa [PageDatabase.revised, hid] using hnext
    have hpath := path_ne_nil hvalid
    rw [Revision.row_columns] at hpath ⊢
    exact hclean stored hp hcols.symm hpath

/-! ## The operations -/

/-- Where a page is written again, its columns were clean before. -/
theorem clean_stored (hclean : CleanPages db) {columns : PageColumns} {stored : PageRow}
    (hp : db.pages page.id = some stored) (hcols : stored.columns = page.columns)
    (hpath : columns.path = page.columns.path) (hlocale : columns.localeCode = page.columns.localeCode) :
    CleanColumns columns := by
  have hstored := hclean _ _ hp
  rw [hcols] at hstored
  exact ⟨hpath ▸ hstored.path, hlocale ▸ hstored.locale⟩

theorem createPage_writes (hs : Sound db) {opts : Pages.CreatePageOptions} (hlocale : CleanLocale opts.locale)
    (h : Pages.createPage env call opts db = .ok db') : Writes db db' (some ⟨db.nextPageId, none, none⟩) := by
  obtain ⟨created, hchecks, h⟩ := bind_ok h
  obtain ⟨path, hpath, rfl, -⟩ := Pages.createChecks_ok hchecks
  obtain ⟨next, effects, hnext, rfl, -, hvalid, -⟩ := Pages.enqueueCurrentPageProjections_ok h
  obtain rfl : Pages.createdPage env call opts path db.nextPageId = next := by
    simpa [PageDatabase.putPage, PageDatabase.putTags, Pages.createdPage] using hnext
  have habsent := hs.absent (le_refl db.nextPageId)
  refine .requested _ ?_ ?_ ?_
  · intro q hq
    simp [PageDatabase.putPage, PageDatabase.putTags, Pages.createdPage, update_of_ne hq]
  · intro stored hp
    rw [habsent] at hp
    cases hp
  · intro next hp
    obtain rfl : Pages.createdPage env call opts path db.nextPageId = next := by
      simpa [PageDatabase.putPage, PageDatabase.putTags, Pages.createdPage] using hp
    exact ⟨cleanPath_of_checked hpath (path_ne_nil hvalid), hlocale⟩

theorem updatePage_writes (hs : Sound db) (hclean : CleanPages db) (hread : page ∈ db.committed)
    {opts : Pages.UpdatePageOptions} (hlocale : ∀ locale ∈ opts.locale.toList, CleanLocale locale)
    (h : Pages.updatePage env call page opts db = .ok db') :
    Writes db db' (storageRequest env db (.update call page opts)) := by
  obtain ⟨checked, hchecks, h⟩ := bind_ok h
  simp only [storageRequest, hchecks]
  cases checked with
  | none =>
    cases h
    exact .still rfl rfl
  | some revision =>
    refine save_writes hs hread ?_ h
    intro stored hp hcols hne
    obtain ⟨-, -, path, hpath, hcolumns⟩ := Pages.updateChecks_ok hchecks
    simp only [hcolumns, Pages.updatedColumns] at hne ⊢
    by_cases hmove : (decide (opts.locale.getD page.columns.localeCode ≠ page.columns.localeCode)
        || decide (path ≠ page.columns.path)) = true
    · rw [if_pos hmove] at hne
      refine ⟨?_, ?_⟩
      · dsimp only
        rw [if_pos hmove]
        exact cleanPath_of_checked hpath hne
      · dsimp only
        rw [if_pos hmove]
        cases hopt : opts.locale with
        | none => exact hcols ▸ (hclean _ _ hp).locale
        | some locale => exact hlocale locale (by simp [hopt])
    · refine clean_stored hclean hp hcols ?_ ?_
      · dsimp only
        rw [if_neg hmove]
      · dsimp only
        rw [if_neg hmove]

theorem changeVisibility_writes (hs : Sound db) (hclean : CleanPages db)
    (hread : page ∈ db.committed) {visibility : Outbox.PageVisibility} {expected : Option Nat}
    (h : Pages.changeVisibility env call page visibility expected db = .ok db') :
    Writes db db' (storageRequest env db (.changeVisibility call page visibility expected)) := by
  obtain ⟨checked, hchecks, h⟩ := bind_ok h
  simp only [storageRequest, hchecks]
  cases checked with
  | none =>
    cases h
    exact .still rfl rfl
  | some revision =>
    refine save_writes hs hread ?_ h
    intro stored hp hcols _
    obtain ⟨-, -, rfl⟩ := Pages.visibilityChecks_ok hchecks
    exact clean_stored hclean hp hcols (by rw [← hcols]; rfl) (by rw [← hcols]; rfl)

theorem convertPage_writes (hs : Sound db) (hclean : CleanPages db) (hread : page ∈ db.committed)
    {opts : Pages.ConvertPageOptions} (h : Pages.convertPage env call page opts db = .ok db') :
    Writes db db' (some ⟨page.id, some page, none⟩) := by
  obtain ⟨revision, hchecks, h⟩ := bind_ok h
  refine save_writes hs hread ?_ h
  intro stored hp hcols _
  obtain ⟨-, -, _, _, rfl⟩ := Pages.convertChecks_ok hchecks
  exact clean_stored hclean hp hcols (by rw [← hcols]; rfl) (by rw [← hcols]; rfl)

theorem movePage_writes (hs : Sound db) (hread : page ∈ db.committed) {opts : Pages.MovePageOptions}
    (hlocale : CleanLocale opts.destinationLocale) (h : Pages.movePage env call page opts db = .ok db') :
    Writes db db' (some ⟨page.id, some page, none⟩) := by
  obtain ⟨revision, hchecks, h⟩ := bind_ok h
  refine save_writes hs hread ?_ h
  intro stored hp hcols hne
  obtain ⟨-, path, hpath, -, rfl⟩ := Pages.moveChecks_ok hchecks
  exact ⟨cleanPath_of_checked hpath hne, hlocale⟩

/-- A rewrite of the versions writes no page. -/
theorem Writes.history {request : Option StorageRequest} (h : Writes db db' request)
    (history : List Pages.PageVersion) : Writes db { db' with history } request := by
  cases h with
  | still pages tags => exact .still pages tags
  | hidden pageId others before after => exact .hidden pageId others before after
  | requested request others previous after => exact .requested request others previous after

theorem migratePage_writes (hs : Sound db) (hclean : CleanPages db) {pageId : Nat} {targetLocale : JsString}
    (hlocale : CleanLocale targetLocale) (h : Pages.migratePage env call pageId targetLocale db = .ok db') :
    Writes db db' (some ⟨pageId, db.pages pageId, none⟩) := by
  obtain ⟨page, mid, hash, f, hp, rfl, -, hmid, rfl⟩ := Pages.migratePage_ok hs h
  rw [hp]
  refine (save_writes hs (hs.stored _ _ hp) ?_ hmid).history _
  intro stored hp' hcols _
  exact ⟨(hclean _ _ hp').path, hlocale⟩

theorem transferOwnership_writes (hs : Sound db) (hclean : CleanPages db) (hread : page ∈ db.committed) {ownerId : Int}
    {expected : Option Nat} (h : Pages.transferOwnership env call page ownerId expected db = .ok db') :
    Writes db db' none := by
  obtain ⟨revision, hchecks, h⟩ := bind_ok h
  obtain ⟨mid, hmid, h⟩ := bind_ok h
  cases h
  obtain ⟨hprivate, -, rfl⟩ := Pages.ownershipChecks_ok hchecks
  obtain ⟨stored, effects, hp, hid, hrev, rfl, -, -⟩ := Pages.saveCanonicalPageRevision_ok hs hmid
  obtain ⟨hcols, -⟩ := Pages.read_columns hs hread hp hrev
  refine Writes.history (.hidden page.id ?_ ?_ ?_) _
  · intro q hq
    have hne : q ≠ stored.id := by rw [hid]; exact hq
    simp [PageDatabase.revised, update_of_ne hne]
  · intro stored' hp'
    rw [hp] at hp'
    cases hp'
    simp [isPublic, ← hcols, hprivate]
  · intro next hnext
    obtain rfl : Revision.row _ stored (db.pageTags page.id) call.now = next := by
      simpa [PageDatabase.revised, hid] using hnext
    rw [Revision.row_columns]
    refine ⟨?_, clean_stored hclean hp hcols.symm (by rw [hcols]; rfl) (by rw [hcols]; rfl)⟩
    simp [isPublic, Pages.simpleRevision, Pages.ownedColumns]

theorem deletePage_writes (hs : Sound db) (hread : page ∈ db.committed) {expected : Option Nat}
    (h : Pages.deletePage env call page expected db = .ok db') :
    Writes db db' (some ⟨page.id, some page, some (page.sourceRevision + 1)⟩) := by
  obtain ⟨-, -, h⟩ := bind_ok h
  obtain ⟨_, hlock, h⟩ := bind_ok h
  obtain ⟨-, -, h⟩ := bind_ok h
  obtain ⟨stored, hp, hrev, -⟩ := Pages.lockPageForMutation_ok hlock
  obtain ⟨hcols, -⟩ := Pages.read_columns hs hread hp hrev
  obtain ⟨queued, hqueue, h⟩ := bind_ok h
  obtain ⟨effects, rfl, -, -, -⟩ := Pages.enqueue_ok rfl hqueue
  cases h
  refine .requested _ ?_ ?_ ?_
  · intro q hq
    simp [PageDatabase.deletePage, PageDatabase.addVersion, update_of_ne hq]
  · intro stored' hp'
    rw [hp] at hp'
    cases hp'
    exact ⟨page, rfl, hcols⟩
  · intro next hnext
    simp [PageDatabase.deletePage] at hnext

theorem restoreDeletedPage_writes {opts : Pages.RestoreOptions} (hpath : assertRecoveryPath opts.path = true)
    (hlocale : CleanLocale opts.localeCode) (h : Pages.restoreDeletedPage env call opts db = .ok db') :
    Writes db db' (some ⟨opts.pageId, none, none⟩) := by
  obtain ⟨next, hrestored⟩ := Pages.restoreDeletedPage_ok h
  refine .requested _ hrestored.others ?_ ?_
  · intro stored hp
    rw [hrestored.absent] at hp
    cases hp
  · intro next' hnext
    rw [hrestored.present] at hnext
    cases hnext
    exact ⟨hrestored.location.1 ▸ cleanPath_of_recovery hpath, hrestored.location.2 ▸ hlocale⟩

theorem applyTaxonomy_writes (hs : Sound db) (hclean : CleanPages db) {pageId : Nat} {tags : Finset Nat}
    {extra : JsString → JsString} (hhidden : ∀ page, db.pages pageId = some page → isPublic page = false)
    (h : Pages.applyTaxonomy env call pageId tags extra db = .ok db') : Writes db db' none := by
  obtain ⟨page, hp, rfl, h⟩ := Pages.applyTaxonomy_ok hs h
  obtain ⟨effects, rfl, -⟩ := Pages.enqueue_ok rfl h
  refine .hidden page.id ?_ hhidden ?_
  · intro q hq
    simp [PageDatabase.putPage, PageDatabase.putTags, PageDatabase.addVersion, update_of_ne hq]
  · intro next hnext
    simp only [PageDatabase.putPage, update_self, Option.some.injEq] at hnext
    subst hnext
    have hpage := hclean _ _ hp
    exact ⟨hhidden page hp, hpage.path, hpage.locale⟩

theorem reassignAccount_writes (hs : Sound db) (hclean : CleanPages db) {pageId : Nat}
    {id replaceId : Int} (hhidden : ∀ page, db.pages pageId = some page → isPublic page = false)
    (h : Pages.reassignAccount pageId id replaceId db = .ok db') : Writes db db' none := by
  obtain ⟨page, hp, rfl, _, _, rfl⟩ := Pages.reassignAccount_ok hs h
  refine .hidden page.id ?_ hhidden ?_
  · intro q hq
    simp [PageDatabase.putPage, PageDatabase.addVersion, PageRow.patched, update_of_ne hq]
  · intro next hnext
    simp only [PageDatabase.putPage, PageRow.patched, update_self, Option.some.injEq] at hnext
    subst hnext
    have hpage := hclean _ _ hp
    exact ⟨hhidden page hp, hpage.path, hpage.locale⟩

/-- The operation writes no public page without handing it to the queue. -/
def Hidden (db : PageDatabase) : PageOp → Prop
  | .applyTaxonomy _ pageId _ _ | .reassignAccount pageId _ _ =>
    ∀ page, db.pages pageId = some page → isPublic page = false
  | _ => True

/-- **Write rule.** An operation on pages hands every public location that it writes to the
queue of the target, but for taxonomy changes and account reassignments. -/
theorem PageOp.run_writes (hs : Sound db) (hclean : CleanPages db) {op : PageOp} (hop : op.enabled db)
    (hlocales : ∀ locale ∈ namedLocales op, CleanLocale locale)
    (hpath : ∀ path, recoveryPath op = some path → assertRecoveryPath path = true) (hhidden : Hidden db op)
    (h : op.run env db = .ok db') : Writes db db' (storageRequest env db op) := by
  cases op with
  | create call opts => exact createPage_writes hs (hlocales _ (mem_singleton.mpr rfl)) h
  | update call page opts => exact updatePage_writes hs hclean (hop.1 page rfl) hlocales h
  | changeVisibility call page visibility expected =>
    exact changeVisibility_writes hs hclean (hop.1 page rfl) h
  | transferOwnership call page ownerId expected =>
    exact transferOwnership_writes hs hclean (hop.1 page rfl) h
  | convert call page opts => exact convertPage_writes hs hclean (hop.1 page rfl) h
  | move call page opts =>
    exact movePage_writes hs (hop.1 page rfl) (hlocales _ (mem_singleton.mpr rfl)) h
  | migrate call pageId targetLocale =>
    exact migratePage_writes hs hclean (hlocales _ (mem_singleton.mpr rfl)) h
  | applyTaxonomy call pageId tags extra => exact applyTaxonomy_writes hs hclean hhidden h
  | reassignAccount pageId id replaceId => exact reassignAccount_writes hs hclean hhidden h
  | delete call page expected => exact deletePage_writes hs (hop.1 page rfl) h
  | restore call opts =>
    exact restoreDeletedPage_writes (hpath _ rfl) (hlocales _ (mem_singleton.mpr rfl)) h
  | outbox rows =>
    cases h
    exact .still rfl rfl

/-- An approval action writes the page only where it publishes. -/
theorem transitionAction_writes (hclean : CleanPages db) {requester : Pages.Requester} {actor : Int}
    {input : Pages.TransitionInput} {expected : Nat} {request next : Pages.ApprovalRequest} {now : Pages.Time}
    {fresh : Fresh} (hp : db.pages page.id = some page) (hhidden : input.action = .publish → isPublic page = false)
    (h : Pages.transitionAction env requester actor input expected request page now fresh db = .ok (next, db')) :
    Writes db db' none := by
  have hacts := Pages.transitionAction_acts h
  generalize input.action = action at hacts hhidden
  cases hacts with
  | approve _ | requestChanges _ | reject _ | cancel _ | reassign _ | resubmit _ =>
    exact .still rfl rfl
  | publish status reviewer current db' run =>
    obtain ⟨effects, rfl, -⟩ := Pages.publishPage_ok run
    have hpage := hhidden rfl
    refine .hidden page.id ?_ ?_ ?_
    · intro q hq
      simp [PageDatabase.revised, PageRow.patched, update_of_ne hq]
    · intro stored hp'
      rw [hp] at hp'
      cases hp'
      exact hpage
    · intro next hnext
      simp only [PageDatabase.revised, PageRow.patched, update_self, Option.some.injEq] at hnext
      subst hnext
      have hcleanPage := hclean _ _ hp
      exact ⟨hpage, hcleanPage.path, hcleanPage.locale⟩

/-- Every page stays at a clean location. -/
theorem Writes.clean {request : Option StorageRequest} (h : Writes db db' request)
    (hclean : CleanPages db) : CleanPages db' := by
  intro p next hp
  cases h with
  | still pages tags =>
    rw [pages] at hp
    exact hclean p next hp
  | hidden pageId others before after =>
    by_cases hq : p = pageId
    · exact (after next (hq ▸ hp)).2
    · rw [(others p hq).1] at hp
      exact hclean p next hp
  | requested request others previous after =>
    by_cases hq : p = request.pageId
    · exact after next (hq ▸ hp)
    · rw [(others p hq).1] at hp
      exact hclean p next hp

end TsEpistle.Storage
