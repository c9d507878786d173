import TsEpistle.Federation.Attempts
import TsEpistle.Library.Checked

/-! An attempt is answered once, to the browser that it was issued to, and with what was issued. The table
has a place for every attempt that may be issued, and no more. -/

namespace TsEpistle.Federation
open Library Checked List Option

variable {P : Type} {env : Env P} {s : System P} {db : Database} {row : FederatedLoginRow}
  {attempts : List FederatedLoginRow} {pruned : List JsString} {input : FederatedLoginConsumeInput} {now : Int}
  {found : Lookup} {result : Option (FederatedLoginConsumed P)}

/-! ## What the operations did -/

theorem text_ok {value read : JsString} {name : String} {maximum : Nat} (h : text value name maximum = .ok read) :
    read = value :=
  (Except.ok.inj (guard_ok h).2).symm

/-- A check that answers with what it was given. -/
theorem optional_ok {α : Type} {check : α → Except Failure α} (hcheck : ∀ a b, check a = .ok b → b = a)
    {value read : Option α} (h : optional check value = .ok read) : read = value := by
  cases value with
  | none => exact (Except.ok.inj h).symm
  | some value =>
    obtain ⟨checked, hchecked, rfl⟩ := map_ok h
    rw [hcheck value checked hchecked]

theorem issuedRow_ok {input : FederatedLoginIssueInput P} {state attemptId : JsString}
    (h : issuedRow env input now state attemptId = .ok row) : row.id = attemptId ∧
    row.issuedAt = input.issuedAt.getD now ∧ row.slot = (input.providerKey, input.protocol, input.sessionId) := by
  obtain ⟨sessionId, hsessionId, h⟩ := bind_ok h
  obtain ⟨providerKey, hproviderKey, h⟩ := bind_ok h
  obtain ⟨providerRevision, -, h⟩ := bind_ok h
  obtain ⟨payload, -, h⟩ := bind_ok h
  obtain ⟨browserNonceHash, -, h⟩ := bind_ok h
  obtain rfl := text_ok hsessionId
  obtain rfl := text_ok hproviderKey
  obtain rfl := Except.ok.inj h
  exact ⟨rfl, rfl, rfl⟩

theorem insertAttempt_ok (h : insertAttempt db row pruned = .ok attempts) :
    attempts = kept row pruned db.attempts ++ [row] ∧
      aliveOf row.sessionId row.issuedAt (kept row pruned db.attempts) < sessionLimit ∧
      alive row.issuedAt (kept row pruned db.attempts) < globalLimit ∧
      ∀ stored ∈ kept row pruned db.attempts, conflicts stored row = false := by
  obtain ⟨-, h⟩ := guard_ok h
  obtain ⟨hsession, h⟩ := guard_ok h
  obtain ⟨hglobal, h⟩ := guard_ok h
  obtain ⟨hconflict, h⟩ := guard_ok h
  refine ⟨(Except.ok.inj h).symm, by omega, by omega, fun stored hstored => ?_⟩
  by_contra hne
  rw [Bool.not_eq_false] at hne
  exact hconflict (List.any_eq_true.mpr ⟨stored, hstored, hne⟩)

theorem issue_ok {input : FederatedLoginIssueInput P} {state attemptId : JsString} {result : FederatedLoginIssueResult}
    (h : issue env input now state attemptId pruned db = .ok (attempts, row, result)) :
    issuedRow env input now state attemptId = .ok row ∧ insertAttempt db row pruned = .ok attempts := by
  obtain ⟨row', hrow, h⟩ := bind_ok h
  obtain ⟨attempts', hinsert, h⟩ := bind_ok h
  obtain ⟨rfl, rfl, -⟩ : attempts' = attempts ∧ row' = row ∧ _ = result := by simpa using Except.ok.inj h
  exact ⟨hrow, hinsert⟩

theorem lookup_ok (h : lookup env input = .ok (some found)) :
    found = ⟨input.providerKey, input.protocol, input.providerRevision, input.sessionId, input.state.map env.sha256,
      input.requestId.map env.sha256, input.browserNonceHash⟩ ∧
      (input.state.isSome = true ∨ input.requestId.isSome = true) := by
  obtain ⟨providerKey, hproviderKey, h⟩ := bind_ok h
  obtain ⟨providerRevision, hproviderRevision, h⟩ := bind_ok h
  obtain ⟨sessionId, hsessionId, h⟩ := bind_ok h
  obtain ⟨state, hstate, h⟩ := bind_ok h
  obtain ⟨requestId, hrequestId, h⟩ := bind_ok h
  obtain rfl := text_ok hproviderKey
  obtain rfl := text_ok hproviderRevision
  obtain rfl := optional_ok (fun _ _ => text_ok) hsessionId
  obtain rfl := optional_ok (fun _ _ => text_ok) hstate
  obtain rfl := optional_ok (fun _ _ => text_ok) hrequestId
  split at h
  · cases h
  next hgiven =>
    obtain ⟨browserNonceHash, hbrowserNonceHash, h⟩ := bind_ok h
    obtain rfl := optional_ok (fun _ _ h => (Except.ok.inj (guard_ok h).2).symm) hbrowserNonceHash
    obtain rfl := Option.some.inj (Except.ok.inj h)
    refine ⟨rfl, ?_⟩
    cases hstate : input.state <;> cases hrequest : input.requestId <;> simp_all

/-- What a `consume` can do to the table: nothing, or it deletes the row that it has found, whose browser
has asked. -/
theorem consume_cases (h : consume env input now db = .ok (attempts, result)) :
    (attempts = db.attempts ∧ result = none) ∨
      ∃ found row, lookup env input = .ok (some found) ∧ row ∈ db.attempts ∧ found.selects row = true ∧
        found.bindingMatches row = true ∧ attempts = deleteRow row db.attempts ∧
        (result = none ∨ (isSessionLive db row.sessionId now = true ∧
          result = answer env found row (providerIsCurrent db found.providerKey found.providerRevision) now)) := by
  obtain ⟨found, hfound, h⟩ := bind_ok h
  cases found with
  | none =>
    obtain ⟨rfl, rfl⟩ := Prod.mk.inj (Except.ok.inj h)
    exact .inl ⟨rfl, rfl⟩
  | some found =>
    have hrow := Except.ok.inj h
    unfold consumeRow at hrow
    split at hrow
    · obtain ⟨rfl, rfl⟩ := Prod.mk.inj hrow
      exact .inl ⟨rfl, rfl⟩
    next row hread =>
      have hmem := mem_of_find?_eq_some hread
      have hselects := find?_some hread
      split at hrow
      · obtain ⟨rfl, rfl⟩ := Prod.mk.inj hrow
        exact .inl ⟨rfl, rfl⟩
      next hbinding =>
        have hbinding : found.bindingMatches row = true := by simpa using hbinding
        split at hrow
        · obtain ⟨rfl, rfl⟩ := Prod.mk.inj hrow
          exact .inr ⟨found, row, hfound, hmem, hselects, hbinding, rfl, .inl rfl⟩
        next hlive =>
          obtain ⟨rfl, rfl⟩ := Prod.mk.inj hrow
          exact .inr ⟨found, row, hfound, hmem, hselects, hbinding, rfl, .inr ⟨by simpa using hlive, rfl⟩⟩

/-- The answer for a row tells what the row has. -/
theorem answer_ok {current : Bool}
    {consumed : FederatedLoginConsumed P} (h : answer env found row current now = some consumed) :
    current = true ∧ row.providerRevision = found.providerRevision ∧ now < row.expiresAt ∧
      ∃ payload, env.parsePayload found.protocol row.payload = some payload ∧ consumed =
        ⟨row.id, row.providerKey, found.protocol, row.providerRevision, row.sessionId, row.issuedAt, row.expiresAt,
          payload⟩ := by
  unfold answer at h
  dsimp only at h
  split at h
  · cases h
  next hchecks =>
    simp only [Bool.or_eq_true, Bool.not_eq_true', decide_eq_true_eq, not_or, Bool.not_eq_false,
      Bool.and_eq_true] at hchecks
    obtain ⟨⟨-, hcurrent, hrevision⟩, hexpiry⟩ := hchecks
    obtain ⟨payload, hpayload, rfl⟩ := map_eq_some_iff.mp h
    exact ⟨hcurrent, hrevision, by omega, payload, hpayload, rfl⟩

/-! ## The invariant -/

/-- The caller has what the attempt was issued with: its state, its request or both, and its browser. -/
structure Holds (env : Env P) (input : FederatedLoginConsumeInput) (row : FederatedLoginRow) : Prop where
  provider : input.providerKey = row.providerKey
  protocol : input.protocol = row.protocol
  given : input.state.isSome = true ∨ input.requestId.isSome = true
  state : ∀ state, input.state = some state → env.sha256 state = row.stateHash
  request : ∀ requestId, input.requestId = some requestId → row.requestIdHash = some (env.sha256 requestId)
  session : row.browserNonceHash = none → input.sessionId = some row.sessionId
  browser : ∀ hash, row.browserNonceHash = some hash → input.browserNonceHash = some hash ∧
    ∀ sessionId, input.sessionId = some sessionId → sessionId = row.sessionId

structure Justified (env : Env P) (consumption : Consumption P) (row : FederatedLoginRow) : Prop where
  holds : Holds env consumption.input row
  revision : consumption.input.providerRevision = row.providerRevision
  time : consumption.now < row.expiresAt
  live : ∃ session ∈ consumption.sessions, session.sid = row.sessionId ∧ consumption.now < session.expired
  current : ∃ provider ∈ consumption.authentication, provider.key = row.providerKey ∧
    provider.adminRevision = row.providerRevision ∧ provider.isEnabled = true

structure Sound (env : Env P) (s : System P) : Prop where
  ids : (s.issued.map (·.id)).Nodup
  stored : ∀ row ∈ s.db.attempts, row ∈ s.issued
  apart : s.db.attempts.Pairwise fun row other => conflicts row other = false
  answered : ∀ consumption ∈ s.consumed, ∃ row ∈ s.issued, Justified env consumption row ∧ ∃ payload,
    env.parsePayload row.protocol row.payload = some payload ∧ consumption.answer =
      ⟨row.id, row.providerKey, row.protocol, row.providerRevision, row.sessionId, row.issuedAt, row.expiresAt, payload⟩
  gone : ∀ consumption ∈ s.consumed, ∀ row ∈ s.db.attempts, row.id ≠ consumption.answer.attemptId
  once : (s.consumed.map (·.answer.attemptId)).Nodup
  bounded : s.db.attempts.length ≤ globalLimit

theorem sound_start (db : Database) : Sound env (.start db) := by
  constructor <;> simp [System.start]

theorem Sound.ids_apart (hs : Sound env s) : (s.db.attempts.map (·.id)).Nodup := by
  refine pairwise_map.mpr (hs.apart.imp fun hne => ?_)
  simp only [conflicts, Bool.or_eq_false_iff, decide_eq_false_iff_not] at hne
  exact hne.1.1.1

theorem Sound.slots_apart (hs : Sound env s) : (s.db.attempts.map FederatedLoginRow.slot).Nodup := by
  refine pairwise_map.mpr (hs.apart.imp fun hne => ?_)
  simp only [conflicts, Bool.or_eq_false_iff, decide_eq_false_iff_not] at hne
  exact hne.2

/-- Attempts go, and nothing is told. -/
theorem Sound.shrink (hs : Sound env s) (attempts : List FederatedLoginRow) (h : attempts.Sublist s.db.attempts) :
    Sound env (s.withAttempts attempts) where
  ids := hs.ids
  stored row hrow := hs.stored row (h.subset hrow)
  apart := hs.apart.sublist h
  answered := hs.answered
  gone consumption hconsumption row hrow := hs.gone consumption hconsumption row (h.subset hrow)
  once := hs.once
  bounded := h.length_le.trans hs.bounded

/-! ## `issue` -/

theorem kept_sublist (row : FederatedLoginRow) (pruned : List JsString) (attempts : List FederatedLoginRow) :
    (kept row pruned attempts).Sublist attempts :=
  filter_sublist.trans filter_sublist

/-- A full batch makes room; a smaller one leaves what is alive. -/
theorem kept_length (hids : (attempts.map (·.id)).Nodup) (hpruned : Prunes attempts row.issuedAt pruned)
    (hbounded : attempts.length ≤ globalLimit) (halive : alive row.issuedAt (kept row pruned attempts) < globalLimit) :
    (kept row pruned attempts).length < globalLimit := by
  obtain ⟨batch, rest, hperm, hlength, -, rfl⟩ := hpruned
  by_cases hfull : batch.length < pruneBatch
  · have hrest : rest = [] := by
      rw [length_append] at hlength
      exact length_eq_zero_iff.mp (by omega)
    subst hrest
    rw [append_nil] at hperm
    refine lt_of_eq_of_lt ?_ halive
    refine (countP_eq_length.mpr fun stored hstored => ?_).symm
    rw [decide_eq_true_eq]
    by_contra hexpired
    obtain ⟨hstored, -⟩ := mem_filter.mp hstored
    obtain ⟨hstored, hkept⟩ := mem_filter.mp hstored
    have hbatch : stored ∈ batch := hperm.mem_iff.mpr (mem_filter.mpr ⟨hstored, by simpa using hexpired⟩)
    rw [contains_iff_mem.mpr (List.mem_map_of_mem hbatch)] at hkept
    cases hkept
  · have hnodup : batch.Nodup := by
      have hattempts : attempts.Nodup := Nodup.of_map _ hids
      exact (nodup_append.mp (hperm.nodup_iff.mpr (hattempts.filter _))).1
    have hsub : batch ⊆ attempts.filter fun stored => (batch.map (·.id)).contains stored.id := by
      intro stored hstored
      have hexpired := hperm.mem_iff.mp (mem_append_left rest hstored)
      exact mem_filter.mpr ⟨mem_of_mem_filter hexpired, contains_iff_mem.mpr (List.mem_map_of_mem hstored)⟩
    have hbatch := (subperm_of_subset hnodup hsub).length_le
    have hsplit := length_eq_length_filter_add (l := attempts) fun stored =>
      (batch.map (·.id)).contains stored.id
    have hfirst : (kept row (batch.map (·.id)) attempts).length ≤
        (attempts.filter fun stored => !(batch.map (·.id)).contains stored.id).length := length_filter_le _ _
    have hpositive : 0 < pruneBatch := by decide
    omega

theorem Sound.issue (hs : Sound env s) {input : FederatedLoginIssueInput P} {state attemptId : JsString}
    (hop : enabled (.issue input now state attemptId pruned) s) :
    Sound env (exec env (.issue input now state attemptId pruned) s) := by
  simp only [exec]
  split
  · exact hs
  next attempts row result hissue =>
    obtain ⟨hfresh, hpruned⟩ := hop
    obtain ⟨hrow, hinsert⟩ := issue_ok hissue
    obtain ⟨hid, hissuedAt, -⟩ := issuedRow_ok hrow
    obtain ⟨rfl, -, halive, hconflicts⟩ := insertAttempt_ok hinsert
    rw [← hissuedAt] at hpruned
    rw [← hid] at hfresh
    have hsub := kept_sublist row pruned s.db.attempts
    have hmem : ∀ {stored : FederatedLoginRow}, stored ∈ kept row pruned s.db.attempts ++ [row] →
        stored ∈ s.db.attempts ∨ stored = row := by
      intro stored hstored
      rcases mem_append.mp hstored with hstored | hstored
      · exact .inl (hsub.subset hstored)
      · exact .inr (mem_singleton.mp hstored)
    constructor
    case ids =>
      rw [map_append, nodup_append]
      refine ⟨hs.ids, by simp, ?_⟩
      rintro id hid' other hother rfl
      rw [map_singleton, mem_singleton] at hother
      exact hfresh (hother ▸ hid')
    case stored =>
      intro stored hstored
      rcases hmem hstored with hstored | rfl
      · exact mem_append_left _ (hs.stored stored hstored)
      · exact mem_append_right _ (mem_singleton_self _)
    case apart =>
      refine pairwise_append.mpr ⟨hs.apart.sublist hsub, pairwise_singleton _ _, ?_⟩
      intro stored hstored other hother
      rw [mem_singleton.mp hother]
      exact hconflicts stored hstored
    case answered =>
      intro consumption hconsumption
      obtain ⟨stored, hstored, hrest⟩ := hs.answered consumption hconsumption
      exact ⟨stored, mem_append_left _ hstored, hrest⟩
    case gone =>
      intro consumption hconsumption stored hstored
      rcases hmem hstored with hstored | rfl
      · exact hs.gone consumption hconsumption stored hstored
      · obtain ⟨old, hold, -, payload, -, hanswer⟩ := hs.answered consumption hconsumption
        rw [hanswer]
        intro hsame
        exact hfresh (hsame ▸ List.mem_map_of_mem (f := FederatedLoginRow.id) hold)
    case once => exact hs.once
    case bounded =>
      have := kept_length hs.ids_apart hpruned hs.bounded halive
      change (kept row pruned s.db.attempts ++ [row]).length ≤ globalLimit
      rw [length_append, length_singleton]
      omega

/-! ## `consume` -/

theorem holds_of_binding (hlookup : lookup env input = .ok (some found)) (hselects : found.selects row = true)
    (hbinding : found.bindingMatches row = true) : Holds env input row := by
  obtain ⟨rfl, hgiven⟩ := lookup_ok hlookup
  simp only [Lookup.selects, Bool.and_eq_true, decide_eq_true_eq, Option.all_eq_true] at hselects
  obtain ⟨⟨⟨hprovider, hprotocol⟩, hstate⟩, hrequest⟩ := hselects
  constructor
  case provider => exact hprovider.symm
  case protocol => exact hprotocol.symm
  case given => exact hgiven
  case state =>
    intro state hsome
    exact hstate _ (by rw [hsome, map_some])
  case request =>
    intro requestId hsome
    exact hrequest _ (by rw [hsome, map_some])
  case session =>
    intro hnone
    simpa [Lookup.bindingMatches, hnone] using hbinding
  case browser =>
    intro hash hsome
    simp only [Lookup.bindingMatches, hsome, Bool.and_eq_true, decide_eq_true_eq, Bool.or_eq_true,
      isNone_iff_eq_none] at hbinding
    refine ⟨hbinding.1, fun sessionId hsessionId => ?_⟩
    rcases hbinding.2 with hnone | hsame
    · rw [hnone] at hsessionId
      cases hsessionId
    · exact Option.some.inj (hsessionId.symm.trans hsame)

theorem justified_of_answer (hlookup : lookup env input = .ok (some found)) (hselects : found.selects row = true)
    (hbinding : found.bindingMatches row = true) (hlive : isSessionLive db row.sessionId now = true)
    (hcurrent : providerIsCurrent db found.providerKey found.providerRevision = true)
    (hrevision : row.providerRevision = found.providerRevision) (htime : now < row.expiresAt)
    (consumed : FederatedLoginConsumed P) :
    Justified env ⟨input, now, db.sessions, db.authentication, consumed⟩ row ∧ found.protocol = row.protocol := by
  have hholds := holds_of_binding hlookup hselects hbinding
  obtain ⟨rfl, -⟩ := lookup_ok hlookup
  simp only [providerIsCurrent, List.any_eq_true, Bool.and_eq_true, decide_eq_true_eq] at hcurrent
  obtain ⟨provider, hmem, ⟨hkey, hadmin⟩, henabled⟩ := hcurrent
  simp only [isSessionLive, List.any_eq_true, Bool.and_eq_true, decide_eq_true_eq] at hlive
  obtain ⟨session, hsession, hsid, hexpired⟩ := hlive
  exact ⟨⟨hholds, hrevision.symm, htime, ⟨session, hsession, hsid, hexpired⟩,
    provider, hmem, hkey.trans hholds.provider, hadmin.trans hrevision.symm, henabled⟩, hholds.protocol⟩

theorem Sound.consume (hs : Sound env s) (input : FederatedLoginConsumeInput)
    (now : Int) : Sound env (exec env (.consume input now) s) := by
  simp only [exec]
  split
  · exact hs
  next attempts hconsume =>
    rcases consume_cases hconsume with ⟨rfl, -⟩ | ⟨found, row, -, -, -, -, rfl, -⟩
    · exact hs
    · exact hs.shrink _ filter_sublist
  next attempts consumed hconsume =>
    rcases consume_cases hconsume with ⟨-, hnone⟩ | ⟨found, row, hlookup, hrow, hselects, hbinding, rfl, hresult⟩
    · cases hnone
    · rcases hresult with hnone | ⟨hlive, hanswer⟩
      · cases hnone
      · obtain ⟨hcurrent, hrevision, htime, payload, hparsed, rfl⟩ := answer_ok hanswer.symm
        obtain ⟨hjustified, hprotocol⟩ :=
          justified_of_answer hlookup hselects hbinding hlive hcurrent hrevision htime
            ⟨row.id, row.providerKey, found.protocol, row.providerRevision, row.sessionId, row.issuedAt, row.expiresAt,
              payload⟩
        rw [hprotocol] at hparsed
        have hshrunk := hs.shrink (deleteRow row s.db.attempts) filter_sublist
        refine ⟨hshrunk.ids, hshrunk.stored, hshrunk.apart, ?_, ?_, ?_, hshrunk.bounded⟩
        · refine forall_mem_append.mpr ⟨hs.answered, forall_mem_singleton.mpr ?_⟩
          refine ⟨row, hs.stored row hrow, hjustified, payload, hparsed, ?_⟩
          rw [← hprotocol]
        · intro consumption hconsumption stored hstored
          obtain ⟨hstored, hne⟩ := mem_filter.mp hstored
          rcases mem_append.mp hconsumption with hconsumption | hconsumption
          · exact hs.gone consumption hconsumption stored hstored
          · rw [mem_singleton.mp hconsumption]
            exact of_decide_eq_true hne
        · change ((s.consumed ++ [_]).map _).Nodup
          rw [map_append, nodup_append]
          refine ⟨hs.once, by simp, ?_⟩
          rintro id hid other hother rfl
          rw [map_singleton, mem_singleton] at hother
          obtain ⟨consumption, hconsumption, rfl⟩ := List.mem_map.mp hid
          exact hs.gone consumption hconsumption row hrow hother.symm

theorem sound_exec (op : Op P) (s : System P) (hop : enabled op s) (hs : Sound env s) : Sound env (exec env op s) := by
  cases op with
  | issue input now state attemptId pruned => exact hs.issue hop
  | consume input now => exact hs.consume input now
  | clearExpired now => exact hs.shrink _ filter_sublist
  | configure sessions authentication =>
    exact ⟨hs.ids, hs.stored, hs.apart, hs.answered, hs.gone, hs.once, hs.bounded⟩

theorem Reachable.sound (h : Reachable env s) : Sound env s := by
  obtain ⟨db, h⟩ := h
  exact h.invariant (sound_start db) sound_exec

end TsEpistle.Federation
