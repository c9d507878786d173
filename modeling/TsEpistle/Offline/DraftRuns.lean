import TsEpistle.Library.Checked
import TsEpistle.Offline.Drafts

/-! What one transaction makes of a draft, and what a run makes of a receipt. -/

namespace TsEpistle.Offline.Drafts
open Library Library.Checked List Option

/-! ## The rows under a key -/

variable {store store' : Store}

variable {k : JsString}

theorem Store.get_key {row : DraftRow} (h : store.get k = some row) : row.key = k := by
  have hfound := find?_some h
  simpa using hfound

variable {draft : OfflineDraftEnvelope}

theorem Store.get_draft (h : store.get k = some (.envelope draft)) : draft.recordId = k := Store.get_key h

theorem Store.get_keep (p : DraftRow → Bool) (k : JsString) : (store.keep p).get k = (store.get k).filter p :=
  Table.get_filter _ store.unique k

theorem Store.get_delete (k : JsString) : (store.delete k).get k = none := by
  rw [Store.delete, Store.get_keep]
  cases hget : store.get k with
  | none => rfl
  | some row => rw [filter_some, if_neg (by simpa using Store.get_key hget)]

theorem Store.get_delete_ne {k k' : JsString} (h : k ≠ k') : (store.delete k').get k = store.get k := by
  rw [Store.delete, Store.get_keep]
  cases hget : store.get k with
  | none => rfl
  | some row => rw [filter_some, if_pos (by simpa [Store.get_key hget] using h)]

theorem Store.get_put (draft : OfflineDraftEnvelope) : (store.put draft).get draft.recordId = some (.envelope draft) := by
  have hnone : (store.delete draft.recordId).drafts.find? (fun row => row.key = draft.recordId) = none :=
    Store.get_delete _
  unfold Store.get Table.get Store.put
  rw [find?_append, hnone, none_or, find?_cons_of_pos (by simp [DraftRow.key])]

theorem Store.get_put_ne (h : k ≠ draft.recordId) : (store.put draft).get k = store.get k := by
  have hrest : (store.delete draft.recordId).get k = store.get k := Store.get_delete_ne h
  unfold Store.get Table.get at hrest ⊢
  rw [← hrest, Store.put, find?_append, find?_cons_of_neg (by simp [DraftRow.key, h.symm]), find?_nil, or_none]

variable {left right : OfflineDraftEnvelope}

theorem isSameEnvelope_eq (h : isSameEnvelope left right = true) : left = right := by
  cases left
  cases right
  simp only [isSameEnvelope, isSameSubmission, isSameKeyOwner, Bool.and_eq_true, decide_eq_true_eq] at h
  simp only [OfflineDraftEnvelope.mk.injEq]
  tauto

/-! ## Operations that succeed -/

variable {expected : Nat}

theorem assertGeneration_ok (h : assertGeneration expected store = .ok ()) :
    expected = store.info.sessionGeneration := by
  unfold assertGeneration at h
  split at h
  · cases h
  · rename_i hsame
    simpa using (not_not.mp hsame).symm

theorem putAccountingDelta_ok {delta : Int} {accountingComplete : Bool}
    (h : putAccountingDelta delta accountingComplete store = .ok store') (k : JsString) : store'.get k = store.get k := by
  unfold putAccountingDelta at h
  obtain ⟨_, -, h⟩ := bind_ok h
  obtain ⟨_, -, h⟩ := bind_ok h
  cases h
  rfl

theorem putEnvelope_ok {oldBytes : Nat} {incomplete exceeded : String}
    (h : putEnvelope draft oldBytes incomplete exceeded store = .ok store') (k : JsString) :
    store'.get k = (store.put draft).get k := by
  unfold putEnvelope at h
  obtain ⟨_, -, h⟩ := bind_ok h
  exact putAccountingDelta_ok h k

/-! ## What may become of a draft -/

structure SameOwner (left right : OfflineDraftEnvelope) : Prop where
  accountId : left.accountId = right.accountId
  authVersion : left.authVersion = right.authVersion
  keyVersion : left.keyVersion = right.keyVersion

theorem isSameKeyOwner_owner (h : isSameKeyOwner left right = true) : SameOwner left right := by
  simp only [isSameKeyOwner, Bool.and_eq_true, decide_eq_true_eq] at h
  exact ⟨h.1.1, h.1.2, h.2⟩

theorem isSameOwner_owner (h : isSameOwner left right = true) :
    left.recordId = right.recordId ∧ SameOwner left right := by
  rw [isSameOwner, Bool.and_eq_true, decide_eq_true_eq] at h
  exact ⟨h.1, isSameKeyOwner_owner h.2⟩

/-- The draft that an operation replaces, and the one that it puts in its place. -/
inductive Replaces : Operation → OfflineDraftEnvelope → OfflineDraftEnvelope → Prop
  | put {draft draft' : OfflineDraftEnvelope} {selector : Selector} {expected : Nat} (mutable : draft.submissionId = none)
      (mutable' : draft'.submissionId = none) (revision : selector.draftRevision = some (some draft.draftRevision))
      (submission : selector.submissionId = some draft.submissionId) (generation : draft.sessionGeneration = expected)
      (owner : SameOwner draft draft') (later : draft.draftRevision < draft'.draftRevision) :
      Replaces (.putDraft draft' selector expected) draft draft'
  | rewrap {draft draft' : OfflineDraftEnvelope} {expected : Nat} (receipt : draft.submissionId.isSome = true)
      (submission : draft.submissionId = draft'.submissionId) (revision : draft.draftRevision = draft'.draftRevision)
      (owner : SameOwner draft draft') (generation : draft'.sessionGeneration = expected)
      (later : draft.sessionGeneration < draft'.sessionGeneration) :
      Replaces (.rewrapSubmission draft draft' expected) draft draft'
  | recover {draft draft' : OfflineDraftEnvelope} {expected : Nat} (mutable : draft.submissionId = none)
      (mutable' : draft'.submissionId = none) (revision : draft.draftRevision = draft'.draftRevision)
      (owner : SameOwner draft draft') (generation : draft'.sessionGeneration = expected)
      (later : draft.sessionGeneration < draft'.sessionGeneration) :
      Replaces (.recoverOrdinaryDraft draft draft' expected) draft draft'
  | fork {draft draft' source : OfflineDraftEnvelope} {input : Finalization} {expected : Nat}
      (old : input.expectedSurvivingFork = some draft) (new : input.survivingFork = some draft')
      (origin : input.source = some source) (mutable : draft.submissionId = none) (mutable' : draft'.submissionId = none)
      (owner : SameOwner draft draft') (later : source.draftRevision < draft.draftRevision)
      (later' : source.draftRevision < draft'.draftRevision) :
      Replaces (.finalizeSubmission input expected) draft draft'

/-- The operations that take a draft away. A receipt is named with all of its selector. -/
inductive Removes : Operation → OfflineDraftEnvelope → Prop
  | delete {draft : OfflineDraftEnvelope} {draftRevision : Option Nat} {submissionId : Option (Option JsString)}
      {expected : Nat} (revision : ∀ named, draftRevision = some named → named = draft.draftRevision)
      (submission : ∀ named, submissionId = some named → named = draft.submissionId)
      (full : draft.submissionId.isSome = true →
        draftRevision = some draft.draftRevision ∧ submissionId = some draft.submissionId) :
      Removes (.deleteDraft draft.recordId draftRevision submissionId expected) draft
  | raw {draft : OfflineDraftEnvelope} {expected : Nat} : Removes (.deleteDraftRaw draft.recordId expected) draft
  | purge {draft : OfflineDraftEnvelope} {expected : Nat} (mutable : draft.submissionId = none) :
      Removes (.purgeAccount draft.accountId expected) draft
  | invalidate {draft : OfflineDraftEnvelope} {expected : Nat} {others : Accounting} (mutable : draft.submissionId = none) :
      Removes (.invalidateAccountSession draft.accountId expected others) draft
  | clear {draft : OfflineDraftEnvelope} {expected : Nat} {policyBytes : Option Nat} :
      Removes (.clearDeviceData expected policyBytes) draft
  | receipt {input : Finalization} {expected : Nat} : Removes (.finalizeSubmission input expected) input.receipt
  | source {draft : OfflineDraftEnvelope} {input : Finalization} {expected : Nat} (source : input.source = some draft)
      (mutable : draft.submissionId = none) : Removes (.finalizeSubmission input expected) draft

inductive Creates : Operation → OfflineDraftEnvelope → Prop
  | put {draft : OfflineDraftEnvelope} {selector : Selector} {expected : Nat}
      (revision : selector.draftRevision.getD none = none) (submission : selector.submissionId.getD none = none) :
      Creates (.putDraft draft selector expected) draft
  | fork {draft : OfflineDraftEnvelope} {input : Finalization} {expected : Nat} (new : input.survivingFork = some draft)
      (mutable : draft.submissionId = none) : Creates (.finalizeSubmission input expected) draft

/-- What an operation makes of the value under a key. -/
inductive Evolves (op : Operation) : Option DraftRow → Option DraftRow → Prop
  | kept (row : Option DraftRow) : Evolves op row row
  | replaced {draft draft' : OfflineDraftEnvelope} (h : Replaces op draft draft') :
      Evolves op (some (.envelope draft)) (some (.envelope draft'))
  | removed {draft : OfflineDraftEnvelope} (h : Removes op draft) : Evolves op (some (.envelope draft)) none
  | created {draft : OfflineDraftEnvelope} (h : Creates op draft) : Evolves op none (some (.envelope draft))
  | discarded (key : JsString) : Evolves op (some (.opaqueValue key)) none

/-! ## One transaction -/

variable {op : Operation}

theorem Evolves.put (h : Evolves op (store.get draft.recordId) (some (.envelope draft)))
    (hput : ∀ k, store'.get k = (store.put draft).get k) (k : JsString) : Evolves op (store.get k) (store'.get k) := by
  rw [hput]
  by_cases hk : k = draft.recordId
  · subst hk
    rw [Store.get_put]
    exact h
  · rw [Store.get_put_ne hk]
    exact .kept _

theorem Evolves.delete {recordId : JsString} (h : Evolves op (store.get recordId) none)
    (hdelete : ∀ k, store'.get k = (store.delete recordId).get k) (k : JsString) :
    Evolves op (store.get k) (store'.get k) := by
  rw [hdelete]
  by_cases hk : k = recordId
  · subst hk
    rw [Store.get_delete]
    exact h
  · rw [Store.get_delete_ne hk]
    exact .kept _

theorem putDraft_step {parsed : OfflineDraftEnvelope} {selector : Selector}
    (h : putDraft parsed selector expected store = .ok store') : expected = store.info.sessionGeneration ∧ ∀ k,
    Evolves (.putDraft parsed selector expected) (store.get k) (store'.get k) := by
  unfold putDraft at h
  split at h
  · cases h
  split at h
  · cases h
  obtain ⟨_, hgeneration, h⟩ := bind_ok h
  refine ⟨assertGeneration_ok hgeneration, ?_⟩
  split at h
  · cases h
  · rename_i existing hget
    split at h
    · cases h
    rename_i hsame
    split at h
    · split at h
      · cases h
        exact fun k => .kept _
      · cases h
    · rename_i hmutable
      have hnone : existing.submissionId = none := by simpa using hmutable
      unfold replaceDraft at h
      split at h
      · rename_i draftRevision submissionId hrevision hsubmission
        split at h
        · cases h
        rename_i hselector
        rw [not_or, not_not, not_not] at hselector
        split at h
        · cases h
        rename_i howner
        rw [Bool.or_eq_true, not_or, Bool.not_eq_true', Bool.not_eq_false, not_isSome_iff_eq_none] at howner
        split at h
        · cases h
        rename_i hlater
        refine fun k => Evolves.put ?_ (putEnvelope_ok h) k
        rw [hget]
        exact .replaced (.put hnone howner.2 (by rw [hrevision, hselector.1]) (by rw [hsubmission, hselector.2])
          (not_not.mp hsame) (isSameOwner_owner howner.1).2 (not_le.mp hlater))
      · cases h
  · rename_i hget
    split at h
    · cases h
    · rename_i hselector
      rw [Bool.or_eq_true, not_or, not_isSome_iff_eq_none, not_isSome_iff_eq_none] at hselector
      refine fun k => Evolves.put ?_ (putEnvelope_ok h) k
      rw [hget]
      exact .created (.put hselector.1 hselector.2)

theorem replaceExactEnvelope_step {draft draft' : OfflineDraftEnvelope}
    (h : replaceExactEnvelope draft draft' expected store = .ok store')
    (hid : draft.recordId = draft'.recordId) (hreplaces : Replaces op draft draft') :
    expected = store.info.sessionGeneration ∧ ∀ k, Evolves op (store.get k) (store'.get k) := by
  unfold replaceExactEnvelope at h
  split at h
  · cases h
  obtain ⟨_, hgeneration, h⟩ := bind_ok h
  refine ⟨assertGeneration_ok hgeneration, ?_⟩
  split at h
  · rename_i current hget
    split at h
    · rename_i hsame
      refine fun k => Evolves.put ?_ (putEnvelope_ok h) k
      rw [← hid, hget, isSameEnvelope_eq hsame]
      exact .replaced hreplaces
    · cases h
  · cases h

theorem rewrapSubmission_step {draft draft' : OfflineDraftEnvelope}
    (h : rewrapSubmission draft draft' expected store = .ok store') : expected = store.info.sessionGeneration ∧ ∀ k,
    Evolves (.rewrapSubmission draft draft' expected) (store.get k) (store'.get k) := by
  unfold rewrapSubmission at h
  split at h
  · cases h
  rename_i hchecks
  split at h
  · cases h
  rename_i hgeneration
  simp only [Bool.or_eq_true, not_or, Bool.not_eq_true', Bool.not_eq_false, decide_eq_true_eq, not_not, not_le,
    isNone_iff_eq_none] at hchecks
  obtain ⟨⟨⟨⟨⟨hreceipt, -⟩, howner⟩, hrevision⟩, hsubmission⟩, hlater⟩ := hchecks
  exact replaceExactEnvelope_step h (isSameOwner_owner howner).1
    (.rewrap (isSome_iff_ne_none.mpr hreceipt) hsubmission hrevision (isSameOwner_owner howner).2
      (not_not.mp hgeneration) hlater)

theorem recoverOrdinaryDraft_step {draft draft' : OfflineDraftEnvelope}
    (h : recoverOrdinaryDraft draft draft' expected store = .ok store') : expected = store.info.sessionGeneration ∧ ∀ k,
    Evolves (.recoverOrdinaryDraft draft draft' expected) (store.get k) (store'.get k) := by
  unfold recoverOrdinaryDraft at h
  split at h
  · cases h
  rename_i hchecks
  split at h
  · cases h
  rename_i hgeneration
  simp only [Bool.or_eq_true, not_or, Bool.not_eq_true', Bool.not_eq_false, decide_eq_true_eq, not_not, not_le,
    not_isSome_iff_eq_none] at hchecks
  obtain ⟨⟨⟨⟨hmutable, hmutable'⟩, howner⟩, hrevision⟩, hlater⟩ := hchecks
  exact replaceExactEnvelope_step h (isSameOwner_owner howner).1
    (.recover hmutable hmutable' hrevision (isSameOwner_owner howner).2 (not_not.mp hgeneration) hlater)

theorem deleteDraft_step {recordId : JsString} {draftRevision : Option Nat} {submissionId : Option (Option JsString)}
    (h : deleteDraft recordId draftRevision submissionId expected store = .ok store') :
    expected = store.info.sessionGeneration ∧ ∀ k, Evolves (.deleteDraft recordId draftRevision submissionId expected)
    (store.get k) (store'.get k) := by
  unfold deleteDraft at h
  obtain ⟨_, hgeneration, h⟩ := bind_ok h
  refine ⟨assertGeneration_ok hgeneration, ?_⟩
  split at h
  · cases h
    exact fun k => .kept _
  · cases h
  · rename_i existing hget
    split at h
    · cases h
    rename_i hselector
    rw [Bool.or_eq_true, not_or] at hselector
    split at h
    · cases h
    rename_i hfull
    refine fun k => Evolves.delete ?_ (putAccountingDelta_ok h) k
    rw [hget]
    have hrevision : ∀ named, draftRevision = some named → named = existing.draftRevision := by
      rintro named rfl
      have hsame : existing.draftRevision = named := by simpa using hselector.1
      exact hsame.symm
    have hsubmission : ∀ named, submissionId = some named → named = existing.submissionId := by
      rintro named rfl
      have hsame : existing.submissionId = named := by simpa using hselector.2
      exact hsame.symm
    obtain rfl := Store.get_draft hget
    refine .removed (.delete hrevision hsubmission fun hreceipt => ?_)
    rw [hreceipt, Bool.true_and, Bool.or_eq_true, not_or, isNone_iff_eq_none, isNone_iff_eq_none] at hfull
    obtain ⟨revision, hnamed⟩ := ne_none_iff_exists'.mp hfull.1
    obtain ⟨submission, hnamed'⟩ := ne_none_iff_exists'.mp hfull.2
    exact ⟨by rw [hnamed, hrevision revision hnamed], by rw [hnamed', hsubmission submission hnamed']⟩

theorem deleteDraftRaw_step {recordId : JsString} (h : deleteDraftRaw recordId expected store = .ok store') :
    expected = store.info.sessionGeneration ∧ ∀ k, Evolves (.deleteDraftRaw recordId expected) (store.get k)
    (store'.get k) := by
  unfold deleteDraftRaw at h
  obtain ⟨_, hgeneration, h⟩ := bind_ok h
  refine ⟨assertGeneration_ok hgeneration, ?_⟩
  split at h
  · cases h
    exact fun k => .kept _
  · rename_i key hget
    refine fun k => Evolves.delete ?_ (putAccountingDelta_ok h) k
    rw [hget]
    exact .discarded key
  · rename_i existing hget
    refine fun k => Evolves.delete ?_ (putAccountingDelta_ok h) k
    rw [hget]
    obtain rfl := Store.get_draft hget
    exact .removed .raw

/-- The drafts of an account that are taken away are ordinary. -/
theorem Evolves.ordinary {accountId : Nat}
    (hremoves : ∀ draft : OfflineDraftEnvelope, draft.accountId = accountId → draft.submissionId = none → Removes op draft)
    (h : ∀ k, store'.get k = (store.deleteOrdinary accountId).get k) (k : JsString) :
    Evolves op (store.get k) (store'.get k) := by
  rw [h, Store.deleteOrdinary, Store.get_keep]
  cases hget : store.get k with
  | none => exact .kept _
  | some row =>
    rw [filter_some]
    split
    · exact .kept _
    · rename_i hordinary
      cases row with
      | opaqueValue key => exact .discarded key
      | envelope draft =>
        simp only [isOrdinary, Bool.not_eq_true', Bool.not_eq_false, Bool.and_eq_true, decide_eq_true_eq,
          isNone_iff_eq_none] at hordinary
        exact .removed (hremoves draft hordinary.1 hordinary.2)

theorem purgeAccount_step {accountId expected : Nat} (h : purgeAccount accountId expected store = .ok store') :
    expected = store.info.sessionGeneration ∧
      ∀ k, Evolves (.purgeAccount accountId expected) (store.get k) (store'.get k) := by
  unfold purgeAccount at h
  obtain ⟨_, hgeneration, h⟩ := bind_ok h
  obtain ⟨_, -, h⟩ := bind_ok h
  refine ⟨assertGeneration_ok hgeneration, Evolves.ordinary ?_ (putAccountingDelta_ok h)⟩
  rintro draft rfl hmutable
  exact .purge hmutable

theorem invalidateAccountSession_step {accountId expected : Nat} {others : Accounting}
    (h : invalidateAccountSession accountId expected others store = .ok store') :
    expected = store.info.sessionGeneration ∧
      ∀ k, Evolves (.invalidateAccountSession accountId expected others) (store.get k) (store'.get k) := by
  unfold invalidateAccountSession at h
  obtain ⟨_, hgeneration, h⟩ := bind_ok h
  obtain ⟨_, -, h⟩ := bind_ok h
  obtain ⟨_, -, h⟩ := bind_ok h
  cases h
  refine ⟨assertGeneration_ok hgeneration, Evolves.ordinary ?_ fun k => rfl⟩
  rintro draft rfl hmutable
  exact .invalidate hmutable

theorem clearDeviceData_step {policyBytes : Option Nat} (h : clearDeviceData expected policyBytes store = .ok store') :
    expected = store.info.sessionGeneration ∧ ∀ k, Evolves (.clearDeviceData expected policyBytes) (store.get k)
    (store'.get k) := by
  unfold clearDeviceData at h
  obtain ⟨_, hgeneration, h⟩ := bind_ok h
  refine ⟨assertGeneration_ok hgeneration, fun k => ?_⟩
  split at h
  · cases h
  split at h
  · cases h
  cases h
  change Evolves _ (store.get k) none
  cases store.get k with
  | none => exact .kept _
  | some row =>
    cases row with
    | opaqueValue key => exact .discarded key
    | envelope draft => exact .removed .clear

/-! ## Finalization -/

theorem assertStored_ok {message : String} (h : assertStored message draft store = .ok ()) :
    store.get draft.recordId = some (.envelope draft) := by
  unfold assertStored at h
  split at h
  · rename_i current hget
    split at h
    · rename_i hsame
      rw [hget, isSameEnvelope_eq hsame]
    · cases h
  · cases h

theorem Store.get_deleteOptional (draft : Option OfflineDraftEnvelope) (k : JsString) :
    (store.deleteOptional draft).get k = if draft.any (fun draft => draft.recordId = k) then none else store.get k := by
  cases draft with
  | none => rfl
  | some draft =>
    by_cases hk : draft.recordId = k
    · subst hk
      simpa [Store.deleteOptional] using Store.get_delete draft.recordId
    · simpa [Store.deleteOptional, hk] using Store.get_delete_ne (Ne.symm hk)

/-- What the checks of a finalization say about its records. -/
structure Finalization.Sound (input : Finalization) : Prop where
  owner : ∀ other ∈ input.others, SameOwner input.receipt other
  source : ∀ source, input.source = some source → source.submissionId = none ∧ source.recordId ≠ input.receipt.recordId
  old : ∀ old, input.expectedSurvivingFork = some old → old.submissionId = none ∧ old.recordId ≠ input.receipt.recordId ∧
    ∀ source, input.source = some source → old.recordId ≠ source.recordId ∧ source.draftRevision < old.draftRevision
  fork : ∀ fork, input.survivingFork = some fork → fork.submissionId = none ∧ (∃ source, input.source = some source) ∧
    ∀ source, input.source = some source → source.draftRevision < fork.draftRevision
  identity : ∀ old, input.expectedSurvivingFork = some old →
    ∃ fork, input.survivingFork = some fork ∧ fork.recordId = old.recordId

theorem Finalization.check_ok {input : Finalization} (h : input.check expected = .ok ()) : input.Sound := by
  unfold Finalization.check at h
  obtain ⟨howner, h⟩ := guard_ok h
  obtain ⟨-, h⟩ := guard_ok h
  obtain ⟨hsource, h⟩ := guard_ok h
  obtain ⟨hold, h⟩ := guard_ok h
  obtain ⟨hfork, h⟩ := guard_ok h
  obtain ⟨hdistinct, h⟩ := guard_ok h
  obtain ⟨hdistinct', h⟩ := guard_ok h
  obtain ⟨-, h⟩ := guard_ok h
  obtain ⟨holder, h⟩ := guard_ok h
  obtain ⟨hkept, h⟩ := guard_ok h
  obtain ⟨horigin, h⟩ := guard_ok h
  obtain ⟨hnewer, h⟩ := guard_ok h
  obtain ⟨hidentity, -⟩ := guard_ok h
  constructor
  · intro other hother
    by_contra hnot
    refine howner (List.any_eq_true.mpr ⟨other, hother, ?_⟩)
    rw [Bool.not_eq_true', ← Bool.not_eq_true]
    exact fun hsame => hnot (isSameKeyOwner_owner hsame)
  · intro source hs
    rw [hs] at hsource hdistinct
    exact ⟨by simpa using hsource, by simpa using hdistinct⟩
  · intro old ho
    rw [ho] at hold hdistinct' holder
    refine ⟨by simpa using hold, ?_, fun source hs => ?_⟩
    · intro hsame
      exact hdistinct' (by simp [hsame])
    · rw [hs] at hdistinct' holder
      refine ⟨fun hsame => hdistinct' (by simp [hsame]), by simpa using holder⟩
  · intro fork hf
    rw [hf] at hfork horigin hnewer
    have horigin' : ∃ source, input.source = some source := by
      cases hs : input.source with
      | none =>
        rw [hs] at horigin
        exact absurd rfl horigin
      | some source => exact ⟨source, rfl⟩
    refine ⟨by simpa using hfork, horigin', fun source hs => ?_⟩
    rw [hs] at hnewer
    simpa using hnewer
  · intro old ho
    rw [ho] at hkept hidentity
    cases hf : input.survivingFork with
    | none =>
      rw [hf] at hkept
      exact absurd rfl hkept
    | some fork =>
      rw [hf] at hidentity
      exact ⟨fork, rfl, by simpa using hidentity⟩

/-- What a finalization has done: its records were as expected, and all of it is done. -/
structure Finalized (input : Finalization) (store store' : Store) : Prop where
  stored : store.get input.receipt.recordId = some (.envelope input.receipt)
  storedSource : ∀ source, input.source = some source → store.get source.recordId = some (.envelope source)
  storedFork : ∀ old, input.expectedSurvivingFork = some old → store.get old.recordId = some (.envelope old)
  receipt : store'.get input.receipt.recordId = none
  source : ∀ source, input.source = some source → store'.get source.recordId = none
  old : ∀ old, input.expectedSurvivingFork = some old → ∃ fork, input.survivingFork = some fork ∧
    fork.recordId = old.recordId
  fork : ∀ fork, input.survivingFork = some fork → store'.get fork.recordId = some (.envelope fork)
  others : ∀ k, k ≠ input.receipt.recordId → (∀ source, input.source = some source → k ≠ source.recordId) →
    (∀ fork, input.survivingFork = some fork → k ≠ fork.recordId) → store'.get k = store.get k

/-- The store of a finalization, before the fork is put into it. -/
theorem Finalization.get_apply {input : Finalization} (hsound : input.Sound)
    (hfork : ∀ fork, input.survivingFork = some fork → k ≠ fork.recordId) :
    (input.apply store).get k =
      if k = input.receipt.recordId ∨ ∃ source, input.source = some source ∧ source.recordId = k then none
      else store.get k := by
  have hput : (input.apply store).get k = (((store.delete input.receipt.recordId).deleteOptional
      input.source).deleteOptional input.expectedSurvivingFork).get k := by
    unfold Finalization.apply
    cases hf : input.survivingFork with
    | none => rfl
    | some fork => exact Store.get_put_ne (hfork fork hf)
  have hold : ¬ (input.expectedSurvivingFork.any fun old => old.recordId = k) = true := by
    intro hany
    cases ho : input.expectedSurvivingFork with
    | none =>
      rw [ho] at hany
      cases hany
    | some old =>
      rw [ho] at hany
      obtain ⟨fork, hf, hid⟩ := hsound.identity old ho
      have hk : old.recordId = k := by simpa using hany
      exact hfork fork hf (hid.trans hk).symm
  rw [hput, Store.get_deleteOptional, if_neg hold, Store.get_deleteOptional]
  by_cases hk : k = input.receipt.recordId
  · subst hk
    rw [Store.get_delete, if_pos (Or.inl rfl), ite_self]
  · rw [Store.get_delete_ne hk]
    cases hs : input.source with
    | none | some => simp [hk]

/-- A fork is put where the old one was, or where nothing was. -/
theorem assertForkFree_ok {old : Option OfflineDraftEnvelope} {fork : OfflineDraftEnvelope} {u : Unit}
    (h : assertForkFree old (some fork) store = .ok u) :
    (∃ stored, old = some stored ∧ fork.recordId = stored.recordId) ∨ store.get fork.recordId = none := by
  unfold assertForkFree at h
  dsimp only at h
  split at h
  · rename_i hfree
    rcases Bool.or_eq_true_iff.mp hfree with hold | hnone
    · cases old with
      | none => cases hold
      | some stored => exact .inl ⟨stored, rfl, by simpa using hold⟩
    · exact .inr (isNone_iff_eq_none.mp hnone)
  · cases h

theorem finalizeSubmission_step {input : Finalization}
    (h : finalizeSubmission input expected store = .ok store') :
    expected = store.info.sessionGeneration ∧
      (∀ k, Evolves (.finalizeSubmission input expected) (store.get k) (store'.get k)) ∧ Finalized input store store' := by
  unfold finalizeSubmission at h
  obtain ⟨_, hcheck, h⟩ := bind_ok h
  obtain ⟨_, hgeneration, h⟩ := bind_ok h
  obtain ⟨_, hreceipt, h⟩ := bind_ok h
  obtain ⟨_, hsource, h⟩ := bind_ok h
  obtain ⟨_, hold, h⟩ := bind_ok h
  obtain ⟨_, hfree, h⟩ := bind_ok h
  obtain ⟨_, -, h⟩ := bind_ok h
  have hsound := Finalization.check_ok hcheck
  have hget : ∀ k, store'.get k = (input.apply store).get k := putAccountingDelta_ok h
  have hstored := assertStored_ok hreceipt
  have hstoredSource : ∀ source, input.source = some source → store.get source.recordId = some (.envelope source) := by
    intro source hs
    rw [hs] at hsource
    exact assertStored_ok hsource
  have hstoredFork : ∀ old, input.expectedSurvivingFork = some old → store.get old.recordId = some (.envelope old) := by
    intro old ho
    rw [ho] at hold
    exact assertStored_ok hold
  have hplace : ∀ fork, input.survivingFork = some fork →
      (∃ old, input.expectedSurvivingFork = some old ∧ fork.recordId = old.recordId) ∨ store.get fork.recordId = none := by
    intro fork hf
    rw [hf] at hfree
    exact assertForkFree_ok hfree
  have hput : ∀ fork, input.survivingFork = some fork → store'.get fork.recordId = some (.envelope fork) := by
    intro fork hf
    rw [hget, Finalization.apply, hf]
    exact Store.get_put fork
  have hreceiptFork : ∀ fork, input.survivingFork = some fork → input.receipt.recordId ≠ fork.recordId := by
    intro fork hf hsame
    rcases hplace fork hf with ⟨old, ho, hid⟩ | hnone
    · exact (hsound.old old ho).2.1 (hid.symm.trans hsame.symm)
    · rw [← hsame, hstored] at hnone
      cases hnone
  have hsourceFork : ∀ source, input.source = some source → ∀ fork, input.survivingFork = some fork →
      source.recordId ≠ fork.recordId := by
    intro source hs fork hf hsame
    rcases hplace fork hf with ⟨old, ho, hid⟩ | hnone
    · exact ((hsound.old old ho).2.2 source hs).1 (hid.symm.trans hsame.symm)
    · rw [← hsame, hstoredSource source hs] at hnone
      cases hnone
  refine ⟨assertGeneration_ok hgeneration, fun k => ?_, ?_⟩
  · by_cases hk : ∃ fork, input.survivingFork = some fork ∧ k = fork.recordId
    · obtain ⟨fork, hf, rfl⟩ := hk
      obtain ⟨hmutable, ⟨source, hs⟩, hnewer⟩ := hsound.fork fork hf
      rw [hput fork hf]
      rcases hplace fork hf with ⟨old, ho, hid⟩ | hnone
      · rw [hid, hstoredFork old ho]
        have hsameOld := hsound.owner old (by simp [Finalization.others, ho])
        have hsameFork := hsound.owner fork (by simp [Finalization.others, hf])
        exact .replaced (.fork ho hf hs (hsound.old old ho).1 hmutable
          ⟨hsameOld.accountId.symm.trans hsameFork.accountId, hsameOld.authVersion.symm.trans hsameFork.authVersion,
            hsameOld.keyVersion.symm.trans hsameFork.keyVersion⟩ ((hsound.old old ho).2.2 source hs).2 (hnewer source hs))
      · rw [hnone]
        exact .created (.fork hf hmutable)
    · rw [hget, Finalization.get_apply hsound fun fork hf hsame => hk ⟨fork, hf, hsame⟩]
      split
      · rename_i hgone
        rcases hgone with rfl | ⟨source, hs, rfl⟩
        · rw [hstored]
          exact .removed .receipt
        · rw [hstoredSource source hs]
          exact .removed (.source hs (hsound.source source hs).1)
      · exact .kept _
  · exact {
      stored := hstored
      storedSource := hstoredSource
      storedFork := hstoredFork
      receipt := by rw [hget, Finalization.get_apply hsound hreceiptFork, if_pos (Or.inl rfl)]
      source := fun source hs => by
        rw [hget, Finalization.get_apply hsound (hsourceFork source hs), if_pos (Or.inr ⟨source, hs, rfl⟩)]
      old := hsound.identity
      fork := hput
      others := fun k hreceipt hsource hfork => by
        rw [hget, Finalization.get_apply hsound hfork, if_neg]
        rintro (hsame | ⟨source, hs, hsame⟩)
        · exact hreceipt hsame
        · exact hsource source hs hsame.symm }

/-! ## Runs -/

/-- One transaction of a run: it fails and changes nothing, or it asked for the generation that is current, and each
draft evolves as the operation says. -/
inductive Step (op : Operation) (store : Store) : Store → Prop
  | failed {error : OfflineStorageError} (h : op.run store = .error error) : Step op store store
  | done {store' : Store} (h : op.run store = .ok store') (generation : op.expected = store.info.sessionGeneration)
      (evolves : ∀ k, Evolves op (store.get k) (store'.get k))
      (finalized : ∀ input expected, op = .finalizeSubmission input expected → Finalized input store store') :
      Step op store store'

theorem run_step (h : op.run store = .ok store') : op.expected = store.info.sessionGeneration ∧
    (∀ k, Evolves op (store.get k) (store'.get k)) ∧
    ∀ input expected, op = .finalizeSubmission input expected → Finalized input store store' := by
  cases op with
  | putDraft envelope selector expected => exact ⟨(putDraft_step h).1, (putDraft_step h).2, fun _ _ hop => by cases hop⟩
  | rewrapSubmission envelope replacement expected =>
    exact ⟨(rewrapSubmission_step h).1, (rewrapSubmission_step h).2, fun _ _ hop => by cases hop⟩
  | recoverOrdinaryDraft envelope replacement expected =>
    exact ⟨(recoverOrdinaryDraft_step h).1, (recoverOrdinaryDraft_step h).2, fun _ _ hop => by cases hop⟩
  | deleteDraft recordId draftRevision submissionId expected =>
    exact ⟨(deleteDraft_step h).1, (deleteDraft_step h).2, fun _ _ hop => by cases hop⟩
  | deleteDraftRaw recordId expected =>
    exact ⟨(deleteDraftRaw_step h).1, (deleteDraftRaw_step h).2, fun _ _ hop => by cases hop⟩
  | purgeAccount accountId expected =>
    exact ⟨(purgeAccount_step h).1, (purgeAccount_step h).2, fun _ _ hop => by cases hop⟩
  | invalidateAccountSession accountId expected others =>
    exact ⟨(invalidateAccountSession_step h).1, (invalidateAccountSession_step h).2, fun _ _ hop => by cases hop⟩
  | clearDeviceData expected policyBytes =>
    exact ⟨(clearDeviceData_step h).1, (clearDeviceData_step h).2, fun _ _ hop => by cases hop⟩
  | finalizeSubmission input expected =>
    obtain ⟨hgeneration, hevolves, hfinalized⟩ := finalizeSubmission_step h
    refine ⟨hgeneration, hevolves, fun _ _ hop => ?_⟩
    cases hop
    exact hfinalized

theorem exec_step (op : Operation) (store : Store) : Step op store (drafts.exec op store) := by
  change Step op store ((op.run store).toOption.getD store)
  cases hrun : op.run store with
  | error error => exact .failed hrun
  | ok store' =>
    obtain ⟨hgeneration, hevolves, hfinalized⟩ := run_step hrun
    exact .done hrun hgeneration hevolves hfinalized

/-- The same submission, and the same record unless it is of a later generation. -/
structure SameSubmission (receipt current : OfflineDraftEnvelope) : Prop where
  recordId : receipt.recordId = current.recordId
  owner : SameOwner receipt current
  draftRevision : receipt.draftRevision = current.draftRevision
  submissionId : receipt.submissionId = current.submissionId
  generation : receipt = current ∨ receipt.sessionGeneration < current.sessionGeneration

theorem SameSubmission.refl (receipt : OfflineDraftEnvelope) : SameSubmission receipt receipt :=
  ⟨rfl, ⟨rfl, rfl, rfl⟩, rfl, rfl, .inl rfl⟩

theorem SameSubmission.trans {first second third : OfflineDraftEnvelope} (h : SameSubmission first second)
    (h' : SameSubmission second third) : SameSubmission first third where
  recordId := h.recordId.trans h'.recordId
  owner := ⟨h.owner.accountId.trans h'.owner.accountId, h.owner.authVersion.trans h'.owner.authVersion,
    h.owner.keyVersion.trans h'.owner.keyVersion⟩
  draftRevision := h.draftRevision.trans h'.draftRevision
  submissionId := h.submissionId.trans h'.submissionId
  generation := by
    rcases h.generation with rfl | hlater
    · exact h'.generation
    · rcases h'.generation with rfl | hlater'
      · exact .inr hlater
      · exact .inr (hlater.trans hlater')

/-- In one transaction a receipt is removed, or stays the same submission. -/
theorem Step.receipt (h : Step op store store') {receipt : OfflineDraftEnvelope}
    (hget : store.get k = some (.envelope receipt)) (hreceipt : receipt.submissionId.isSome = true) :
    Removes op receipt ∨ ∃ current, store'.get k = some (.envelope current) ∧ SameSubmission receipt current := by
  cases h with
  | failed h => exact .inr ⟨receipt, hget, .refl receipt⟩
  | done h generation evolves finalized =>
    have hevolves := evolves k
    rw [hget] at hevolves
    generalize hafter : store'.get k = row at hevolves
    cases hevolves with
    | kept => exact .inr ⟨receipt, rfl, .refl receipt⟩
    | removed hremoves => exact .inl hremoves
    | @replaced _ current hreplaces =>
      have hid : receipt.recordId = current.recordId := (Store.get_draft hget).trans (Store.get_draft hafter).symm
      cases hreplaces with
      | rewrap _ submission revision owner _ later =>
        exact .inr ⟨current, rfl, hid, owner, revision, submission, .inr later⟩
      | put mutable =>
        rw [mutable] at hreceipt
        cases hreceipt
      | recover mutable =>
        rw [mutable] at hreceipt
        cases hreceipt
      | fork _ _ _ mutable =>
        rw [mutable] at hreceipt
        cases hreceipt

theorem receipt_survives (ops : List Operation) {receipt : OfflineDraftEnvelope}
    (hget : store.get k = some (.envelope receipt)) (hreceipt : receipt.submissionId.isSome = true) :
    (∃ op ∈ ops, ∃ current, SameSubmission receipt current ∧ Removes op current) ∨
      ∃ current, (drafts.after ops store).get k = some (.envelope current) ∧ SameSubmission receipt current := by
  induction ops generalizing store receipt with
  | nil => exact .inr ⟨receipt, hget, .refl receipt⟩
  | cons op ops ih =>
    rcases (exec_step op store).receipt hget hreceipt with hremoves | ⟨current, hcurrent, hsame⟩
    · exact .inl ⟨op, mem_cons_self, receipt, .refl receipt, hremoves⟩
    · rw [Machine.after_cons]
      rcases ih hcurrent (hsame.submissionId ▸ hreceipt) with ⟨op', hop', last, hlast, hremoves⟩ | ⟨last, hlast, hsame'⟩
      · exact .inl ⟨op', mem_cons_of_mem _ hop', last, hsame.trans hlast, hremoves⟩
      · exact .inr ⟨last, hlast, hsame.trans hsame'⟩

/-- **Drafts.** In every run of the tabs each transaction fails and changes nothing or does all of what it stands for,
and a receipt stays the same submission until an operation that names it takes it away. -/
theorem drafts_no_lost_update (store : Store) (ops : List Operation) :
    (∀ before op rest, ops = before ++ op :: rest →
      Step op (drafts.after before store) (drafts.after (before ++ [op]) store)) ∧
    ∀ k receipt, store.get k = some (.envelope receipt) → receipt.submissionId.isSome = true →
      (∃ op ∈ ops, ∃ current, SameSubmission receipt current ∧ Removes op current) ∨
        ∃ current, (drafts.after ops store).get k = some (.envelope current) ∧ SameSubmission receipt current := by
  refine ⟨fun before op rest _ => ?_, fun k receipt hget hreceipt => receipt_survives ops hget hreceipt⟩
  rw [Machine.after_append, Machine.after_cons, Machine.after_nil]
  exact exec_step op (drafts.after before store)

/-! ## A draft that is recovered -/

/-- A draft of the first generation on a device of the second. -/
def oldDraft : OfflineDraftEnvelope := ⟨[97], 1, 1, 1, 1, 1, none, [], [1]⟩

def newDraft : OfflineDraftEnvelope := { oldDraft with sessionGeneration := 2, ciphertext := [2] }

def submitted : OfflineDraftEnvelope := { newDraft with recordId := [98], submissionId := some [115] }

def device : Store where
  info := ⟨2, 1000, 0, 0, true⟩
  drafts := [.envelope oldDraft, .envelope submitted]
  unique := by decide

theorem drafts_no_lost_update_example :
    Step (.recoverOrdinaryDraft oldDraft newDraft 2) (drafts.after [] device)
      (drafts.after ([] ++ [.recoverOrdinaryDraft oldDraft newDraft 2]) device) ∧
    ((∃ op ∈ [Operation.recoverOrdinaryDraft oldDraft newDraft 2], ∃ current, SameSubmission submitted current ∧
        Removes op current) ∨
      ∃ current, (drafts.after [.recoverOrdinaryDraft oldDraft newDraft 2] device).get [98] = some (.envelope current) ∧
        SameSubmission submitted current) :=
  ⟨(drafts_no_lost_update device [.recoverOrdinaryDraft oldDraft newDraft 2]).1 [] _ [] rfl,
    (drafts_no_lost_update device [.recoverOrdinaryDraft oldDraft newDraft 2]).2 [98] submitted (by decide) rfl⟩

def oldFork : OfflineDraftEnvelope := { newDraft with recordId := [99], draftRevision := 5 }

def newFork : OfflineDraftEnvelope := { oldFork with draftRevision := 4, ciphertext := [4] }

/-- The source of the submission, frozen at its third revision. -/
def frozen : OfflineDraftEnvelope := { newDraft with draftRevision := 3 }

def forked : Store where
  info := ⟨2, 1000, 0, 0, true⟩
  drafts := [.envelope frozen, .envelope submitted, .envelope oldFork]
  unique := by decide

/-- The revision of a draft that is recovered stays, and a new fork may have a smaller one than the old fork. -/
theorem recovered_revision : (¬ ∀ (op : Operation) (store store' : Store) (k : JsString)
    (draft draft' : OfflineDraftEnvelope), op.run store = .ok store' → store.get k = some (.envelope draft) →
    draft.submissionId = none → store'.get k = some (.envelope draft') → draft' ≠ draft →
    draft.draftRevision < draft'.draftRevision) ∧
    forked.get [99] = some (.envelope oldFork) ∧ newFork.draftRevision < oldFork.draftRevision ∧
    ((Operation.finalizeSubmission ⟨submitted, some frozen, some oldFork, some newFork⟩ 2).run forked).toOption.map
      (·.get [99]) = some (some (.envelope newFork)) := by
  refine ⟨?_, by decide +kernel⟩
  intro h
  have hget : device.get [97] = some (.envelope oldDraft) := by decide
  have hrun : ((Operation.recoverOrdinaryDraft oldDraft newDraft 2).run device).toOption.map (·.get [97])
      = some (some (.envelope newDraft)) := by decide +kernel
  obtain ⟨store', hsome, hnew⟩ := map_eq_some_iff.mp hrun
  cases hresult : (Operation.recoverOrdinaryDraft oldDraft newDraft 2).run device with
  | error error =>
    rw [hresult] at hsome
    cases hsome
  | ok result =>
    rw [hresult] at hsome
    cases hsome
    exact absurd (h _ device store' [97] oldDraft newDraft hresult hget rfl hnew (by decide)) (by decide)

end TsEpistle.Offline.Drafts
