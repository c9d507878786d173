import TsEpistle.Pages.Advances

/-! The approval workflow: at most one open request a page, closed requests that stay as they
are, publications of what was reviewed, and the chain of the transitions. -/

namespace TsEpistle.Pages
open Library List Function
open Outbox (PageMutationOutboxRow OutboxError Fresh validLocation enqueueEffect enqueueEffects
  effectRow PageProjectionEffectKind EnqueueInput)

variable {env : Environment}

/-- No operation that stamps a page with an open request reads the time at which the version
under review was last written, and no reassignment names a closed request. -/
def Regular (op : Op) (s : System) : Prop :=
  match op with
  | .page op => ∀ r ∈ s.requests, r.status.closed = false → op.pageId = some r.pageId → op.now ≠ r.revisionUpdatedAt
  | .submit .. => True
  | .transition _ input _ _ => input.action = .reassign →
      ∀ r, Table.get ApprovalRequest.id s.requests input.requestId = some r → r.status.closed = false

/-- The transitions lead from one status to the other, each from where the last one ended. -/
def Chained (first : Option ApprovalStatus) : List ApprovalTransition → Option ApprovalStatus → Prop
  | [], last => first = last
  | transition :: transitions, last =>
    transition.fromStatus = first ∧ Chained (some transition.toStatus) transitions last

theorem Chained.append {first mid : Option ApprovalStatus} {transitions : List ApprovalTransition}
    {transition : ApprovalTransition} (h : Chained first transitions mid) (hfrom : transition.fromStatus = mid) :
    Chained first (transitions ++ [transition]) (some transition.toStatus) := by
  induction transitions generalizing first with
  | nil => exact ⟨hfrom.trans (Eq.symm h), rfl⟩
  | cons head transitions ih => exact ⟨h.1, ih h.2⟩

/-- The transitions of a request, in their order. -/
def transitionsOf (s : System) (id : Uuid) : List ApprovalTransition :=
  s.transitions.filter fun transition => transition.requestId = id

/-- The version under review is kept, and it shows the page as long as the page carries its
time. -/
def UnderReview (db : PageDatabase) (request : ApprovalRequest) : Prop :=
  ∃ v ∈ db.history, v.id = request.revisionId ∧ v.pageId = request.pageId ∧
    ∀ page, db.pages request.pageId = some page → page.updatedAt = request.revisionUpdatedAt →
      v.reviewed = db.reviewed page

/-! ## What one action does -/

/-- The status that an action needs, and what it leaves of the request and of the database. -/
inductive Acts (env : Environment) (requester : Requester) (actor : Int) (now : Time)
    (fresh : Fresh) (db : PageDatabase) (page : PageRow) (request : ApprovalRequest) :
    ApprovalAction → ApprovalRequest → PageDatabase → Prop
  | approve (status : request.status = .submitted) :
      Acts env requester actor now fresh db page request .approve
        { request with status := .approved } db
  | requestChanges (status : request.status = .submitted) :
      Acts env requester actor now fresh db page request .requestChanges
        { request with status := .changesRequested } db
  | reject (status : request.status = .submitted) :
      Acts env requester actor now fresh db page request .reject
        { request with status := .rejected } db
  | cancel (status : request.status.closed = false) :
      Acts env requester actor now fresh db page request .cancel
        { request with status := .cancelled } db
  | resubmit (status : request.status = .changesRequested) :
      Acts env requester actor now fresh db page request .resubmit
        { request with
          status := .submitted, revisionId := db.nextVersionId, revisionUpdatedAt := page.updatedAt }
        (db.addVersion (db.version page "approval-resubmitted"))
  | publish (status : request.status = .approved)
      (reviewer : isReviewer requester actor request page (db.pageTags page.id) = true)
      (current : staleRevision request page = false) (db' : PageDatabase)
      (run : publishPage env page actor now fresh db = .ok db') :
      Acts env requester actor now fresh db page request .publish
        { request with status := .published } db'
  | reassign (assigneeId : Int) :
      Acts env requester actor now fresh db page request .reassign
        { request with assigneeId := some assigneeId } db

theorem transitionAction_acts {requester : Requester} {actor : Int} {input : TransitionInput} {expected : Nat}
    {request next : ApprovalRequest} {page : PageRow} {now : Time} {fresh : Fresh} {db db' : PageDatabase}
    (h : transitionAction env requester actor input expected request page now fresh db = .ok (next, db')) :
    Acts env requester actor now fresh db page request input.action next db' := by
  unfold transitionAction at h
  dsimp only at h
  cases hact : input.action <;> rw [hact] at h <;> dsimp only at h
  case approve =>
    split at h
    · cases h
    next hguard =>
      split at h
      · cases h
      cases h
      simp only [Bool.or_eq_true, not_or, decide_eq_true_eq, ne_eq, not_not] at hguard
      exact .approve hguard.1
  case requestChanges =>
    split at h
    · cases h
    next hguard =>
      cases h
      simp only [Bool.or_eq_true, not_or, decide_eq_true_eq, ne_eq, not_not] at hguard
      exact .requestChanges hguard.1
  case reject =>
    split at h
    · cases h
    next hguard =>
      cases h
      simp only [Bool.or_eq_true, not_or, decide_eq_true_eq, ne_eq, not_not] at hguard
      exact .reject hguard.1
  case cancel =>
    split at h
    · cases h
    split at h
    · cases h
    next hopen =>
      cases h
      exact .cancel (by simpa using hopen)
  case resubmit =>
    split at h
    · cases h
    next hguard =>
      split at h
      · cases h
      split at h
      · cases h
      cases h
      simp only [Bool.or_eq_true, not_or, decide_eq_true_eq, ne_eq, not_not] at hguard
      exact .resubmit hguard.1
  case publish =>
    split at h
    · cases h
    next hguard =>
      split at h
      · cases h
      next hstale =>
        obtain ⟨published, hrun, h⟩ := Checked.bind_ok h
        cases h
        simp only [Bool.or_eq_true, not_or, decide_eq_true_eq, ne_eq, not_not] at hguard
        exact .publish hguard.1 (by simpa using hguard.2) (by simpa using hstale) _ hrun
  case reassign =>
    split at h
    · cases h
    split at h
    · cases h
    split at h
    · cases h
    cases h
    exact .reassign _

namespace Acts
variable {requester : Requester} {actor : Int} {now : Time} {fresh : Fresh}
  {db db' : PageDatabase} {page : PageRow} {request next : ApprovalRequest}
  {action : ApprovalAction}

theorem id (h : Acts env requester actor now fresh db page request action next db') : next.id = request.id := by
  cases h <;> rfl

theorem pageId (h : Acts env requester actor now fresh db page request action next db') :
    next.pageId = request.pageId := by
  cases h <;> rfl

/-- Only a reassignment may act on a closed request. -/
theorem reassigns (h : Acts env requester actor now fresh db page request action next db')
    (hclosed : request.status.closed = true) : action = .reassign := by
  cases h with
  | approve status | requestChanges status | reject status | resubmit status
  | publish status _ _ _ _ =>
    rw [status] at hclosed
    cases hclosed
  | cancel status =>
    rw [status] at hclosed
    cases hclosed
  | reassign assigneeId => rfl

/-- An open request was open before. -/
theorem still_open (h : Acts env requester actor now fresh db page request action next db')
    (hopen : next.status.closed = false) : request.status.closed = false := by
  cases h with
  | approve status | requestChanges status | reject status | resubmit status
  | publish status _ _ _ _ =>
    rw [status]
    rfl
  | cancel status => exact status
  | reassign assigneeId => exact hopen

end Acts

/-! ## The version under review -/

/-- A step that does not stamp the page with the time of the version keeps the version under
review. -/
theorem Step.underReview {now : Time} {target : Option Nat} {db db' : PageDatabase} {request : ApprovalRequest}
    (hs : Sound db) (h : Step now target db db') (hreview : UnderReview db request)
    (hpresent : (db.pages request.pageId).isSome)
    (hnow : target = some request.pageId → now ≠ request.revisionUpdatedAt) : UnderReview db' request := by
  obtain ⟨v, hv, hid, hpage, hshows⟩ := hreview
  cases h with
  | idle => exact ⟨v, hv, hid, hpage, hshows⟩
  | revised stored next tags version f effects present succeeds versionId versionPage keeps valid
      stamped at_ =>
      refine ⟨f v, mem_map.mpr ⟨v, mem_append_left _ hv, rfl⟩, by rw [keeps.id, hid],
        by rw [keeps.pageId, hpage], ?_⟩
      intro page hp htime
      rw [keeps.reviewed]
      rcases Sound.update_some hp with ⟨hq, rfl⟩ | ⟨hq, hp⟩
      · have hstored : request.pageId = stored.id := hq.trans succeeds.id
        rcases stamped with ⟨hstamp, htarget⟩ | ⟨hsame, htags, hreviewed⟩
        · exact absurd (hstamp.symm.trans htime) (hnow (by rw [htarget, hstored]))
        · subst htags
          rw [hshows stored (by rw [hstored]; exact present) (hsame.symm.trans htime)]
          simp [PageDatabase.reviewed, PageDatabase.revised, hreviewed]
      · rw [hshows page hp htime]
        have hne : page.id ≠ next.id := by rw [hs.ids _ _ hp]; exact hq
        simp [PageDatabase.reviewed, PageDatabase.revised, update_of_ne hne]
  | created next tags effects id stamped at_ validId valid positive =>
    refine ⟨v, hv, hid, hpage, ?_⟩
    intro page hp htime
    rcases Sound.update_some hp with ⟨hq, -⟩ | ⟨hq, hp⟩
    · rw [hq, hs.absent (by omega)] at hpresent
      cases hpresent
    · rw [hshows page hp htime]
      have hne : page.id ≠ next.id := by rw [hs.ids _ _ hp]; exact hq
      simp [PageDatabase.reviewed, update_of_ne hne]
  | deleted stored gone version recovery effects present id revision versionId versionPage at_
      queued =>
      refine ⟨v, mem_append_left _ hv, hid, hpage, ?_⟩
      intro page hp htime
      dsimp only at hp
      by_cases hq : request.pageId = stored.id
      · rw [hq, update_self] at hp
        cases hp
      · rw [update_of_ne hq] at hp
        rw [hshows page hp htime]
        have hne : page.id ≠ stored.id := by rw [hs.ids _ _ hp]; exact hq
        simp [PageDatabase.reviewed, update_of_ne hne]
  | restored next tags version effects absent known fence positive versionId versionPage stamped
      valid at_ =>
      refine ⟨v, mem_append_left _ hv, hid, hpage, ?_⟩
      intro page hp htime
      rcases Sound.update_some hp with ⟨hq, -⟩ | ⟨hq, hp⟩
      · rw [hq, absent] at hpresent
        cases hpresent
      · rw [hshows page hp htime]
        have hne : page.id ≠ next.id := by rw [hs.ids _ _ hp]; exact hq
        simp [PageDatabase.reviewed, update_of_ne hne]
  | archived stored version present versionId versionPage =>
    exact ⟨v, mem_append_left _ hv, hid, hpage, hshows⟩
  | workers rows may => exact ⟨v, hv, hid, hpage, hshows⟩

/-- A page that is archived now is under review. -/
theorem underReview_archived {db : PageDatabase} {page : PageRow} {action : String} {request : ApprovalRequest}
    (hp : db.pages page.id = some page) (hpage : request.pageId = page.id)
    (hid : request.revisionId = db.nextVersionId) : UnderReview (db.addVersion (db.version page action)) request := by
  refine ⟨_, mem_append_right _ (mem_singleton.mpr rfl), hid.symm, hpage.symm, ?_⟩
  intro page' hp' _
  have hsame : db.pages page.id = some page' := by rw [← hpage]; exact hp'
  rw [hp] at hsame
  cases hsame
  rfl

/-! ## The invariant -/

structure Consistent (s : System) : Prop where
  sound : Sound s.db
  ids : (s.requests.map ApprovalRequest.id).Nodup
  issued : ∀ r ∈ s.requests, r.id ∈ s.issued
  recorded : ∀ t ∈ s.transitions, t.requestId ∈ s.issued
  present : ∀ r ∈ s.requests, (s.db.pages r.pageId).isSome
  alone : ∀ r ∈ s.requests, ∀ r' ∈ s.requests, r.pageId = r'.pageId → r.status.closed = false →
    r'.status.closed = false → r = r'
  closedAt : ∀ r ∈ s.requests, r.closedAt.isSome = r.status.closed
  chained : ∀ r ∈ s.requests, Chained none (transitionsOf s r.id) (some r.status)
  reviewing : ∀ r ∈ s.requests, r.status.closed = false → UnderReview s.db r

theorem consistent_empty : Consistent .empty where
  sound := sound_empty
  ids := by simp [System.empty]
  issued := by simp [System.empty]
  recorded := by simp [System.empty]
  present := by simp [System.empty]
  alone := by simp [System.empty]
  closedAt := by simp [System.empty]
  chained := by simp [System.empty]
  reviewing := by simp [System.empty]

namespace Consistent
variable {s s' : System}

/-- A request that stays after a page operation keeps its transitions. -/
theorem transitionsOf_cascade {db : PageDatabase} {r : ApprovalRequest}
    (hr : r ∈ (cascade db s).requests) : transitionsOf (cascade db s) r.id = transitionsOf s r.id := by
  unfold transitionsOf cascade
  rw [filter_filter]
  refine filter_congr fun t _ => ?_
  by_cases ht : t.requestId = r.id
  · have hany : ((s.requests.filter fun request => (db.pages request.pageId).isSome).any
        fun request => request.id = t.requestId) = true :=
      any_eq_true.mpr ⟨r, hr, by simp [ht]⟩
    simp [ht] at hany ⊢
    exact hany
  · simp [ht]

theorem pageOp (hs : Consistent s) {op : PageOp} {db : PageDatabase} (hop : op.enabled s.db)
    (hregular : Regular (.page op) s) (h : op.run env s.db = .ok db) : Consistent (cascade db s) := by
  have hstep := op.run_step hs.sound hop h
  have hsub : ∀ r ∈ (cascade db s).requests, r ∈ s.requests ∧ (db.pages r.pageId).isSome := by
    intro r hr
    simpa [cascade] using hr
  constructor
  · exact hstep.sound hs.sound
  · exact hs.ids.sublist (Sublist.map _ filter_sublist)
  · exact fun r hr => hs.issued r (hsub r hr).1
  · exact fun t ht => hs.recorded t (mem_of_mem_filter ht)
  · exact fun r hr => (hsub r hr).2
  · exact fun r hr r' hr' => hs.alone r (hsub r hr).1 r' (hsub r' hr').1
  · exact fun r hr => hs.closedAt r (hsub r hr).1
  · intro r hr
    rw [transitionsOf_cascade hr]
    exact hs.chained r (hsub r hr).1
  · intro r hr hopen
    have hmem := (hsub r hr).1
    exact hstep.underReview hs.sound (hs.reviewing r hmem hopen) (hs.present r hmem)
      (hregular r hmem hopen)

theorem submit (hs : Consistent s) {input : SubmitInput} {id : Uuid} {now : Time} {submitterId : Int} {page : PageRow}
    (hfresh : id ∉ s.issued) (h : Submitted input id now s s' submitterId page) : Consistent s' := by
  have hid := hs.sound.ids _ _ h.present
  have hp : s.db.pages page.id = some page := by rw [hid]; exact h.present
  have hstep : Step now none s.db s'.db := h.db ▸ .archived page _ hp rfl rfl
  have hpages : s'.db.pages = s.db.pages := by rw [h.db]; rfl
  have hnew : ∀ r ∈ s.requests, r.id ≠ id := fun r hr heq => hfresh (heq ▸ hs.issued r hr)
  have hmem : ∀ r, r ∈ s'.requests ↔ r ∈ s.requests ∨ r = ⟨id, page.id, submitterId,
      input.assigneeId, .submitted, s.db.nextVersionId, page.updatedAt, now, now, none⟩ := by
    intro r
    rw [h.requests, mem_append, mem_singleton]
  constructor
  · exact hstep.sound hs.sound
  · rw [h.requests, map_append, nodup_append]
    refine ⟨hs.ids, by simp, ?_⟩
    intro a ha b hb
    obtain ⟨r, hr, rfl⟩ := mem_map.mp ha
    obtain rfl : b = id := by simpa using hb
    exact hnew r hr
  · intro r hr
    rw [h.issued]
    rcases (hmem r).mp hr with hr | rfl
    · exact mem_cons_of_mem _ (hs.issued r hr)
    · exact mem_cons_self
  · intro t ht
    rw [h.issued]
    rw [h.transitions] at ht
    rcases mem_append.mp ht with ht | ht
    · exact mem_cons_of_mem _ (hs.recorded t ht)
    · obtain rfl := mem_singleton.mp ht
      exact mem_cons_self
  · intro r hr
    rw [hpages]
    rcases (hmem r).mp hr with hr | rfl
    · exact hs.present r hr
    · simp [hp]
  · intro r hr r' hr' hpage hopen hopen'
    rcases (hmem r).mp hr with hr | rfl
    · rcases (hmem r').mp hr' with hr' | rfl
      · exact hs.alone r hr r' hr' hpage hopen hopen'
      · rw [h.idle r hr hpage] at hopen
        cases hopen
    · rcases (hmem r').mp hr' with hr' | rfl
      · rw [h.idle r' hr' hpage.symm] at hopen'
        cases hopen'
      · rfl
  · intro r hr
    rcases (hmem r).mp hr with hr | rfl
    · exact hs.closedAt r hr
    · rfl
  · intro r hr
    unfold transitionsOf
    rw [h.transitions, filter_append]
    rcases (hmem r).mp hr with hr | rfl
    · have hne : id ≠ r.id := fun heq => hnew r hr heq.symm
      simpa [hne, transitionsOf] using hs.chained r hr
    · have hnone : s.transitions.filter (fun t => t.requestId = id) = [] := by
        rw [filter_eq_nil_iff]
        intro t ht heq
        exact hfresh (of_decide_eq_true heq ▸ hs.recorded t ht)
      simp [hnone, Chained]
  · intro r hr hopen
    rcases (hmem r).mp hr with hr | rfl
    · exact hstep.underReview hs.sound (hs.reviewing r hr hopen) (hs.present r hr) (by simp)
    · rw [h.db]
      exact underReview_archived hp rfl rfl

theorem transition (hs : Consistent s) {requester : Requester} {input : TransitionInput} {now : Time} {fresh : Fresh}
    {actor : Int} {expected : Nat} {request next : ApprovalRequest} {page : PageRow}
    (h : Transitioned env requester input now fresh s s' actor expected request next page) : Consistent s' := by
  obtain ⟨db', requests', transitions', issued'⟩ := s'
  have hacts : Acts env requester actor now fresh s.db page request input.action next db' :=
    transitionAction_acts h.action
  generalize input.action = action at hacts
  obtain ⟨hmem, hkey⟩ := Table.get_mem ApprovalRequest.id h.found
  have hid := hs.sound.ids _ _ h.present
  have hp : s.db.pages page.id = some page := by rw [hid]; exact h.present
  have hstep : Step now (some page.id) s.db db' := transitionAction_step hp h.action
  have hreplaced : requests' = Table.replace ApprovalRequest.id (stamped next now) s.requests := h.requests
  have hrow : ∀ r ∈ requests', r = stamped next now ∨ r ∈ s.requests ∧ r.id ≠ request.id := by
    intro r hr
    rw [hreplaced] at hr
    rcases Table.mem_replace ApprovalRequest.id hr with heq | ⟨hr, hne⟩
    · exact .inl heq
    · exact .inr ⟨hr, by rw [← hacts.id]; exact hne⟩
  -- the page stays, whatever the action
  have hpages : ∀ p, (s.db.pages p).isSome → (db'.pages p).isSome := by
    intro p hsome
    cases hacts with
    | publish status reviewer current db' run =>
      obtain ⟨effects, hdb, -⟩ := publishPage_ok run
      rw [hdb]
      by_cases hq : p = page.id
      · simp [PageDatabase.revised, PageRow.patched, hq]
      · simpa [PageDatabase.revised, PageRow.patched, update_of_ne hq] using hsome
    | _ => exact hsome
  constructor
  · exact hstep.sound hs.sound
  · rw [h.requests, Table.map_replace]
    exact hs.ids
  · intro r hr
    rw [h.issued]
    rcases hrow r hr with rfl | ⟨hr, -⟩
    · exact hacts.id ▸ hs.issued request hmem
    · exact hs.issued r hr
  · intro t ht
    rw [h.issued]
    rw [h.transitions] at ht
    rcases mem_append.mp ht with ht | ht
    · exact hs.recorded t ht
    · obtain rfl := mem_singleton.mp ht
      exact hs.issued request hmem
  · intro r hr
    rcases hrow r hr with rfl | ⟨hr, -⟩
    · exact hpages _ (hacts.pageId ▸ hs.present request hmem)
    · exact hpages _ (hs.present r hr)
  · intro r hr r' hr' hpage hopen hopen'
    have hother : ∀ r ∈ s.requests, r.id ≠ request.id → r.pageId = next.pageId →
        r.status.closed = false → next.status.closed = false → False := by
      intro r hr hne hpage hopen hopenNext
      rw [hacts.pageId] at hpage
      exact hne (congrArg _ (hs.alone r hr request hmem hpage hopen (hacts.still_open hopenNext)))
    rcases hrow r hr with rfl | ⟨hr, hne⟩
    · rcases hrow r' hr' with rfl | ⟨hr', hne'⟩
      · rfl
      · exact (hother r' hr' hne' hpage.symm hopen' hopen).elim
    · rcases hrow r' hr' with rfl | ⟨hr', hne'⟩
      · exact (hother r hr hne hpage hopen hopen').elim
      · exact hs.alone r hr r' hr' hpage hopen hopen'
  · intro r hr
    rcases hrow r hr with rfl | ⟨hr, -⟩
    · cases hclosed : next.status.closed <;> simp [stamped, hclosed]
    · exact hs.closedAt r hr
  · intro r hr
    unfold transitionsOf
    rw [h.transitions, filter_append]
    rcases hrow r hr with rfl | ⟨hr, hne⟩
    · have hsame : (stamped next now).id = request.id := hacts.id
      rw [hsame, filter_cons_of_pos (by simp), filter_nil]
      exact (hs.chained request hmem).append rfl
    · have hne : request.id ≠ r.id := fun heq => hne heq.symm
      simpa [hne, transitionsOf] using hs.chained r hr
  · intro r hr hopen
    rcases hrow r hr with rfl | ⟨hold, hne⟩
    · have hreview := hs.reviewing request hmem (hacts.still_open hopen)
      cases hacts with
      | approve _ | requestChanges _ | reassign _ => exact hreview
      | resubmit status => exact underReview_archived hp hid.symm rfl
      | reject _ | cancel _ | publish _ _ _ _ _ => cases hopen
    · have hreview := hs.reviewing r hold hopen
      cases hacts with
      | approve _ | requestChanges _ | reject _ | cancel _ | reassign _ => exact hreview
      | resubmit status =>
        exact (Step.archived page _ hp rfl rfl : Step now none _ _).underReview hs.sound hreview
          (hs.present r hold) (by simp)
      | publish status reviewer current db' run =>
        refine hstep.underReview hs.sound hreview (hs.present r hold) ?_
        intro htarget
        have hpage : r.pageId = request.pageId := by rw [← hid]; exact (Option.some.inj htarget).symm
        refine absurd (congrArg _ (hs.alone r hold request hmem hpage hopen ?_)) hne
        rw [status]
        rfl

end Consistent

/-- **Workflow rule.** What runs regularly stays consistent. -/
theorem Consistent.exec {s : System} (hs : Consistent s) {op : Op} (hop : op.enabled s)
    (hregular : Regular op s) : Consistent (exec env op s) := by
  unfold Pages.exec
  cases hrun : op.run env s with
  | error e => exact hs
  | ok s' =>
    cases op with
    | page op =>
      cases hpage : op.run env s.db with
      | error e => simp [Op.run, hpage, Except.map] at hrun
      | ok db =>
        simp only [Op.run, hpage, Except.map] at hrun
        cases hrun
        exact hs.pageOp hop hregular hpage
    | submit requester input id now =>
      obtain ⟨submitterId, page, hsub⟩ := submitPageApproval_ok hrun
      exact hs.submit hop hsub
    | transition requester input now fresh =>
      obtain ⟨actor, expected, request, next, page, ht⟩ := transitionApproval_ok hrun
      exact hs.transition ht

/-! ## Closed requests -/

/-- A closed request stays as it is as long as its page stands, and its id is not used again. -/
theorem exec_final {s : System} {r : ApprovalRequest} (hissued : r.id ∈ s.issued)
    (hsame : ∀ r' ∈ s.requests, r'.id = r.id → r' = r) (hclosed : r.status.closed = true)
    {op : Op} (hop : op.enabled s) (hregular : Regular op s) :
    r.id ∈ (Pages.exec env op s).issued ∧ ∀ r' ∈ (Pages.exec env op s).requests, r'.id = r.id → r' = r := by
  unfold Pages.exec
  cases hrun : op.run env s with
  | error e => exact ⟨hissued, hsame⟩
  | ok s' =>
    cases op with
    | page op =>
      cases hpage : op.run env s.db with
      | error e => simp [Op.run, hpage, Except.map] at hrun
      | ok db =>
        simp only [Op.run, hpage, Except.map] at hrun
        cases hrun
        exact ⟨hissued, fun r' hr' => hsame r' (mem_of_mem_filter hr')⟩
    | submit requester input id now =>
      obtain ⟨submitterId, page, hsub⟩ := submitPageApproval_ok hrun
      refine ⟨?_, ?_⟩
      · rw [hsub.issued]
        exact mem_cons_of_mem _ hissued
      · intro r' hr' hid
        rw [hsub.requests] at hr'
        rcases mem_append.mp hr' with hr' | hr'
        · exact hsame r' hr' hid
        · obtain rfl := mem_singleton.mp hr'
          have hid : id = r.id := hid
          exact absurd (hid ▸ hissued) hop
    | transition requester input now fresh =>
      obtain ⟨actor, expected, request, next, page, ht⟩ := transitionApproval_ok hrun
      have hacts := transitionAction_acts ht.action
      refine ⟨by rw [ht.issued]; exact hissued, ?_⟩
      intro r' hr' hid
      rw [ht.requests] at hr'
      rcases Table.mem_replace ApprovalRequest.id hr' with rfl | ⟨hr', -⟩
      · -- the request of the transition would be the closed one
        obtain ⟨hmem, -⟩ := Table.get_mem ApprovalRequest.id ht.found
        have hrequest : request = r := hsame request hmem (hacts.id.symm.trans hid)
        have hopen := hregular (hacts.reassigns (by rw [hrequest]; exact hclosed)) request
          ht.found
        rw [hrequest, hclosed] at hopen
        cases hopen
      · exact hsame r' hr' hid

/-! ## Publications -/

/-- What a publication found and left: an approved request, an eligible reviewer, and the page
as the version under review shows it. -/
structure PublishedAs (s s' : System) (op : Op) (r' : ApprovalRequest) : Prop where
  found : ∃ requester input now fresh actor r page, op = .transition requester input now fresh ∧
    input.action = .publish ∧ requester.actorId = .ok actor ∧ r ∈ s.requests ∧ r.id = r'.id ∧
    r.status = .approved ∧ r.revisionId = r'.revisionId ∧ s.db.pages r.pageId = some page ∧
    isReviewer requester actor r page (s.db.pageTags page.id) = true
  shows : ∃ v ∈ s'.db.history, ∃ page, v.id = r'.revisionId ∧ v.pageId = r'.pageId ∧
    s'.db.pages r'.pageId = some page ∧ v.reviewed = s'.db.reviewed page

theorem Consistent.published {s s' : System} (hs : Consistent s) {op : Op} (h : op.run env s = .ok s')
    {r' : ApprovalRequest} (hr' : r' ∈ s'.requests) (hstatus : r'.status = .published) :
    (∃ r ∈ s.requests, r.id = r'.id ∧ r.status = .published) ∨ PublishedAs s s' op r' := by
  cases op with
  | page op =>
    cases hpage : op.run env s.db with
    | error e => simp [Op.run, hpage, Except.map] at h
    | ok db =>
      simp only [Op.run, hpage, Except.map] at h
      cases h
      exact .inl ⟨r', mem_of_mem_filter hr', rfl, hstatus⟩
  | submit requester input id now =>
    obtain ⟨submitterId, page, hsub⟩ := submitPageApproval_ok h
    rw [hsub.requests] at hr'
    rcases mem_append.mp hr' with hr' | hr'
    · exact .inl ⟨r', hr', rfl, hstatus⟩
    · obtain rfl := mem_singleton.mp hr'
      cases hstatus
  | transition requester input now fresh =>
    obtain ⟨actor, expected, request, next, page, ht⟩ := transitionApproval_ok h
    obtain ⟨hmem, -⟩ := Table.get_mem ApprovalRequest.id ht.found
    rw [ht.requests] at hr'
    rcases Table.mem_replace ApprovalRequest.id hr' with rfl | ⟨hr', -⟩
    · obtain ⟨db', requests', transitions', issued'⟩ := s'
      have hacts : Acts env requester actor now fresh s.db page request input.action next db' :=
        transitionAction_acts ht.action
      generalize haction : input.action = action at hacts
      cases hacts with
      | approve _ | requestChanges _ | reject _ | cancel _ | resubmit _ => cases hstatus
      | reassign _ => exact .inl ⟨request, hmem, rfl, hstatus⟩
      | publish status reviewer current db' run =>
        have hid := hs.sound.ids _ _ ht.present
        obtain ⟨v, hv, hvid, hvpage, hshows⟩ := hs.reviewing request hmem (by rw [status]; rfl)
        have htime : page.updatedAt = request.revisionUpdatedAt := by
          simp only [staleRevision, status, ApprovalStatus.closed] at current
          have hsame : request.revisionUpdatedAt = page.updatedAt := by simpa using current
          exact hsame.symm
        obtain ⟨effects, rfl, -⟩ := publishPage_ok run
        refine .inr ⟨⟨requester, input, now, fresh, actor, request, page, rfl, haction,
          ht.authenticated, hmem, rfl, status, rfl, ht.present, reviewer⟩, v, ?_,
          page.patched { page.columns with isPublished := true, authorId := actor } none now,
          hvid, hvpage, ?_, ?_⟩
        · simp [PageDatabase.revised, hv]
        · simp only [PageDatabase.revised, PageRow.patched, stamped, ← hid, update_self]
        · rw [hshows page ht.present htime]
          simp [PageDatabase.reviewed, PageDatabase.revised, PageRow.patched, VersionColumns.reviewed]
    · exact .inl ⟨r', hr', rfl, hstatus⟩

/-- A publication commits exactly where the page was not published, or had another author, or
the effects of its revision say already what those of an update say. -/
theorem Consistent.publish_commits_iff {s : System} (hs : Consistent s) {requester : Requester}
    {input : TransitionInput} {now : Time} {fresh : Fresh} {actor : Int} {request : ApprovalRequest} {page : PageRow}
    (h : Publishable requester input s actor request page) :
    (∃ s', transitionApproval env requester input now fresh s = .ok s') ↔ page.columns.isPublished = false ∨
    page.columns.authorId ≠ actor ∨ ∀ kind, Agrees env (presentEffects page .update none) s.db.outbox kind := by
  have hid := hs.sound.ids _ _ h.present
  have hp : s.db.pages page.id = some page := by rw [hid]; exact h.present
  have hcommits : (∃ s', transitionApproval env requester input now fresh s = .ok s') ↔
      ∃ db, publishPage env page actor now fresh s.db = .ok db := by
    rw [transitionApproval_publish h]
    cases publishPage env page actor now fresh s.db <;> simp [Except.map]
  rw [hcommits]
  by_cases hchanges : page.columns.isPublished = false ∨ page.columns.authorId ≠ actor
  · obtain ⟨db, hrun, -⟩ := (publishPage_advances_iff env hs.sound now fresh hp).mpr hchanges
    exact iff_of_true ⟨db, hrun⟩ (by tauto)
  · have hsame : ({ page.columns with isPublished := true, authorId := actor } : PageColumns)
        = page.columns := by
      simp only [not_or, Bool.not_eq_false, not_not] at hchanges
      rw [← hchanges.1, ← hchanges.2]
    have hinput : presentEffects (page.patched { page.columns with
        isPublished := true, authorId := actor } none now) .update none
        = presentEffects page .update none := by
      simp [presentEffects, PageRow.patched, PageRow.location, hsame]
    have hagree := enqueue_present_iff env fresh
      ((s.db.addVersion (s.db.version page "approval-published")).putPage
        (page.patched { page.columns with isPublished := true, authorId := actor } none now))
      page .update none (hs.sound.issued page (hs.sound.stored _ _ hp)).2.1 (hs.sound.located _ _ hp) rfl
    unfold publishPage
    dsimp only
    rw [hinput, hagree]
    have hneither : ¬page.columns.isPublished = false ∧ ¬page.columns.authorId ≠ actor := not_or.mp hchanges
    constructor
    · exact fun h => .inr (.inr h)
    · rintro (h | h | h)
      · exact absurd h hneither.1
      · exact absurd h hneither.2
      · exact h

/-! ## The main result -/

/-- The runs in which every operation is regular. -/
def regularWorkflow (env : Environment) : Machine System Op := (workflow env).restrict Regular

theorem Reachable.consistent {s : System} (h : (regularWorkflow env).Reachable .empty s) : Consistent s := by
  refine h.invariant consistent_empty ?_
  intro op s hop hs
  exact hs.exec hop.1 hop.2

/-- **Safety of the approval workflow.** -/
structure WorkflowSafe (env : Environment) (s : System) : Prop where
  oneActive : ∀ r ∈ s.requests, ∀ r' ∈ s.requests, r.pageId = r'.pageId →
    r.status.closed = false → r'.status.closed = false → r = r'
  final : ∀ r ∈ s.requests, r.status.closed = true →
    ∀ s', (regularWorkflow env).Reachable s s' → ∀ r' ∈ s'.requests, r'.id = r.id → r' = r
  closedAt : ∀ r ∈ s.requests, r.closedAt.isSome = r.status.closed
  published : ∀ op s', op.run env s = .ok s' → ∀ r' ∈ s'.requests, r'.status = .published →
    (∃ r ∈ s.requests, r.id = r'.id ∧ r.status = .published) ∨ PublishedAs s s' op r'
  chained : ∀ r ∈ s.requests, Chained none (transitionsOf s r.id) (some r.status)
  publishCommits : ∀ requester input now fresh actor request page,
    Publishable requester input s actor request page →
      ((∃ s', transitionApproval env requester input now fresh s = .ok s') ↔
        page.columns.isPublished = false ∨ page.columns.authorId ≠ actor ∨
          ∀ kind, Agrees env (presentEffects page .update none) s.db.outbox kind)

theorem approval_workflow_safety {s : System} (h : (regularWorkflow env).Reachable .empty s) : WorkflowSafe env s := by
  have hs := Reachable.consistent h
  constructor
  · exact hs.alone
  · intro r hr hclosed s' hrun
    have hunique : ∀ r' ∈ s.requests, r'.id = r.id → r' = r := fun r' hr' hid =>
      inj_on_of_nodup_map hs.ids hr' hr hid
    refine (hrun.invariant (I := fun s' => r.id ∈ s'.issued ∧
      ∀ r' ∈ s'.requests, r'.id = r.id → r' = r) ⟨hs.issued r hr, hunique⟩ ?_).2
    intro op s' hop hs'
    exact exec_final hs'.1 hs'.2 hclosed hop.1 hop.2
  · exact hs.closedAt
  · intro op s' hrun r' hr' hstatus
    exact hs.published hrun hr' hstatus
  · exact hs.chained
  · intro requester input now fresh actor request page hpublish
    exact hs.publish_commits_iff hpublish

/-! ## An example -/

/-- User 7 manages the system. -/
def exampleRequester : Requester := ⟨.ok 7, true, fun _ _ => true, fun _ _ => true, fun _ _ => true, fun _ => false⟩

def exampleTransition (action : ApprovalAction) : TransitionInput :=
  ⟨js "request", action, none, js "comment", some 9⟩

/-- The published page of user 7 is submitted, and then comes this action. -/
def reviewOps (action : ApprovalAction) : List Op :=
  [.page (.create (exampleCall 1) exampleCreation),
    .submit exampleRequester ⟨1, some 1, none, []⟩ (js "request") 2,
    .transition exampleRequester (exampleTransition action) 3 (exampleFresh 3)]

def reviewedSystem (action : ApprovalAction) : System :=
  (workflow exampleEnvironment).after (reviewOps action) .empty

theorem reviewedSystem_reachable (action : ApprovalAction) (h : action ≠ .reassign) :
    (regularWorkflow exampleEnvironment).Reachable .empty (reviewedSystem action) := by
  have hvalid : (regularWorkflow exampleEnvironment).Valid (reviewOps action) .empty := by
    refine ⟨⟨⟨?_, ?_⟩, ?_⟩, ⟨?_, trivial⟩, ⟨trivial, fun heq => absurd heq h⟩, trivial⟩
    · intro page heq
      cases heq
    · intro rows heq
      cases heq
    · intro r hr
      cases hr
    · exact not_mem_nil
  exact ⟨reviewOps action, hvalid, rfl⟩

/-- A reassignment of a rejected request writes it anew, and the publication of an approved one
whose page was published by the reviewer ends in a conflict. -/
theorem closed_request_reassigned :
    (∃ r ∈ (reviewedSystem .reject).requests, r.status = .rejected ∧
      ∃ s', transitionApproval exampleEnvironment exampleRequester (exampleTransition .reassign) 5
          (exampleFresh 5) (reviewedSystem .reject) = .ok s' ∧
        ∃ r' ∈ s'.requests, r'.id = r.id ∧ r'.assigneeId ≠ r.assigneeId ∧
          r'.updatedAt ≠ r.updatedAt ∧ r'.closedAt ≠ r.closedAt) ∧
    (∃ r page, Publishable exampleRequester (exampleTransition .publish) (reviewedSystem .approve) 7 r page) ∧
    transitionApproval exampleEnvironment exampleRequester (exampleTransition .publish) 5
        (exampleFresh 5) (reviewedSystem .approve)
      = .error (Outbox.idempotencyConflict "Existing page projection effect has different immutable content") := by
  refine ⟨⟨_, mem_cons_self, rfl, _, rfl, _, mem_cons_self, rfl, ?_, ?_, ?_⟩,
    ⟨_, _, rfl, rfl, rfl, rfl, rfl, rfl, rfl, rfl, rfl⟩, rfl⟩
  · decide
  · decide
  · decide

theorem approval_workflow_safety_example : WorkflowSafe exampleEnvironment (reviewedSystem .approve) ∧
    (reviewedSystem .approve).requests.map ApprovalRequest.status = [.approved] :=
  ⟨approval_workflow_safety (reviewedSystem_reachable .approve (by decide)), rfl⟩

end TsEpistle.Pages
