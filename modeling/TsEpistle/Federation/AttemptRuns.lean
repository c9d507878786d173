import TsEpistle.Federation.AttemptSafety

namespace TsEpistle.Federation
open Library List

/-! ## An example -/

def exampleEnv : Env JsString where
  serializePayload _ payload := .ok payload
  parsePayload _ text := some text
  requestId text := some text
  sha256 text := text.map UInt16.toUInt8

def exampleDb : Database := ⟨[], [⟨js "session", 100⟩], [⟨js "okta", js "1", true⟩]⟩

def exampleIssue : Op JsString :=
  .issue ⟨js "session", js "okta", .saml, js "1", js "r", none, none⟩ 0 (js "state") (js "id") []

def exampleInput : FederatedLoginConsumeInput :=
  ⟨js "okta", .saml, js "1", some (js "state"), some (js "r"), some (js "session"), none⟩

def exampleIssued : System JsString := (store exampleEnv).after [exampleIssue] (.start exampleDb)

theorem exampleIssue_enabled : enabled exampleIssue (System.start exampleDb : System JsString) :=
  ⟨not_mem_nil, [], [], Perm.refl _, rfl, fun _ hrow => (not_mem_nil hrow).elim, rfl⟩

theorem exampleIssued_reachable : Reachable exampleEnv exampleIssued :=
  ⟨exampleDb, [exampleIssue], ⟨exampleIssue_enabled, trivial⟩, rfl⟩

variable {P : Type} {env : Env P} {s : System P} {row : FederatedLoginRow} {attempts : List FederatedLoginRow}
  {input : FederatedLoginConsumeInput} {now : Int}

/-! ## One answer for an attempt -/

theorem attempts_answered_once (h : Reachable env s) :
    (s.consumed.map (·.answer.attemptId)).Nodup ∧
      ∀ consumption ∈ s.consumed, ∃ row ∈ s.issued, Justified env consumption row ∧ ∃ payload,
        env.parsePayload row.protocol row.payload = some payload ∧ consumption.answer =
          ⟨row.id, row.providerKey, row.protocol, row.providerRevision, row.sessionId, row.issuedAt, row.expiresAt,
            payload⟩ :=
  ⟨h.sound.once, h.sound.answered⟩

theorem attempts_answered_once_example : ∃ consumption,
    ((store exampleEnv).after [.consume exampleInput 1] exampleIssued).consumed = [consumption] ∧
      ∃ row, Justified exampleEnv consumption row := by
  have hone : ((store exampleEnv).after [.consume exampleInput 1] exampleIssued).consumed.length = 1 := by
    decide +kernel
  obtain ⟨consumption, hconsumption⟩ := length_eq_one_iff.mp hone
  obtain ⟨db, hreach⟩ := exampleIssued_reachable
  obtain ⟨-, hanswered⟩ :=
    attempts_answered_once ⟨db, hreach.trans ⟨[.consume exampleInput 1], ⟨trivial, trivial⟩, rfl⟩⟩
  obtain ⟨row, -, hjustified, -⟩ := hanswered consumption (by rw [hconsumption]; exact .head _)
  exact ⟨consumption, hconsumption, row, hjustified⟩

/-! ## Room for attempts -/

theorem attempts_bounded (h : Reachable env s) : s.db.attempts.length ≤ globalLimit ∧
    (s.db.attempts.map FederatedLoginRow.slot).Nodup ∧ (s.db.attempts.map (·.id)).Nodup := by
  have hs := h.sound
  exact ⟨hs.bounded, hs.slots_apart, hs.ids_apart⟩

/-- Attempts of two sessions, and a second one of the first session. -/
def exampleIssues : List (Op JsString) :=
  [exampleIssue, .issue ⟨js "other", js "okta", .saml, js "1", js "q", none, none⟩ 1 (js "b") (js "id2") [],
    .issue ⟨js "session", js "okta", .saml, js "1", js "p", none, none⟩ 2 (js "c") (js "id3") []]

theorem attempts_bounded_example :
    let s := (store exampleEnv).after exampleIssues
      (.start { exampleDb with sessions := [⟨js "session", 100⟩, ⟨js "other", 100⟩] })
    s.db.attempts.map (·.id) = [js "id2", js "id3"] ∧ s.db.attempts.length ≤ globalLimit ∧
      (s.db.attempts.map FederatedLoginRow.slot).Nodup ∧ (s.db.attempts.map (·.id)).Nodup := by
  refine ⟨by decide +kernel, attempts_bounded ⟨_, exampleIssues, ⟨?_, ?_, ?_, trivial⟩, rfl⟩⟩ <;>
    exact ⟨by decide +kernel, [], [], Perm.of_eq (by decide +kernel), rfl, fun _ hrow => (not_mem_nil hrow).elim, rfl⟩

/-! ## Who can take an attempt away -/

/-- The attempt is over, its session begins another one, or its caller uses it up. -/
def Takes (env : Env P) (row : FederatedLoginRow) : Op P → Prop
  | .issue input now _ _ _ =>
    row.expiresAt ≤ input.issuedAt.getD now ∨ row.slot = (input.providerKey, input.protocol, input.sessionId)
  | .consume input _ => Holds env input row
  | .clearExpired now => row.expiresAt ≤ now
  | .configure _ _ => False

/-- Operations that do not take the attempt away. -/
def others (env : Env P) (row : FederatedLoginRow) : Machine (System P) (Op P) :=
  (store env).restrict fun op _ => ¬Takes env row op

theorem kept_of_issue (hs : Sound env s) {row new : FederatedLoginRow}
    (hrow : row ∈ s.db.attempts) {pruned : List JsString} (hpruned : Prunes s.db.attempts new.issuedAt pruned)
    (halive : new.issuedAt < row.expiresAt) (hslot : row.slot ≠ new.slot) : row ∈ kept new pruned s.db.attempts := by
  obtain ⟨batch, rest, hperm, -, -, rfl⟩ := hpruned
  refine mem_filter.mpr ⟨mem_filter.mpr ⟨hrow, ?_⟩, by simpa using hslot⟩
  rw [Bool.not_eq_true', Bool.eq_false_iff, ne_eq, contains_iff_mem]
  intro hbatch
  obtain ⟨other, hother, hid⟩ := mem_map.mp hbatch
  obtain ⟨hstored, hexpired⟩ := mem_filter.mp (hperm.mem_iff.mp (mem_append_left rest hother))
  obtain rfl := inj_on_of_nodup_map hs.ids_apart hstored hrow hid
  exact absurd (of_decide_eq_true hexpired) (by omega)

theorem kept_of_consume (hs : Sound env s) (hrow : row ∈ s.db.attempts) (hholds : ¬Holds env input row)
    {result : Option (FederatedLoginConsumed P)}
    (hconsume : consume env input now s.db = .ok (attempts, result)) : row ∈ attempts := by
  rcases consume_cases hconsume with ⟨rfl, -⟩ | ⟨found, used, hlookup, hused, hselects, hbinding, rfl, -⟩
  · exact hrow
  · refine mem_filter.mpr ⟨hrow, ?_⟩
    rw [decide_eq_true_eq]
    intro hid
    obtain rfl := inj_on_of_nodup_map hs.ids_apart hrow hused hid
    exact hholds (holds_of_binding hlookup hselects hbinding)

theorem kept_of_exec (hs : Sound env s) (hrow : row ∈ s.db.attempts)
    {op : Op P} (hop : enabled op s) (htakes : ¬Takes env row op) : row ∈ (exec env op s).db.attempts := by
  cases op with
  | issue input now state attemptId pruned =>
    obtain ⟨hexpired, hslot⟩ := not_or.mp htakes
    simp only [exec]
    split
    · exact hrow
    next attempts new result hissue =>
      obtain ⟨hnew, hinsert⟩ := issue_ok hissue
      obtain ⟨-, hissuedAt, hnewSlot⟩ := issuedRow_ok hnew
      obtain ⟨rfl, -⟩ := insertAttempt_ok hinsert
      refine mem_append_left _ (kept_of_issue hs hrow (hissuedAt ▸ hop.2) ?_ (hnewSlot ▸ hslot))
      rw [hissuedAt]
      exact not_le.mp hexpired
  | consume input now =>
    simp only [exec]
    split
    · exact hrow
    next hconsume => exact kept_of_consume hs hrow htakes hconsume
    next hconsume => exact kept_of_consume hs hrow htakes hconsume
  | clearExpired now => exact mem_filter.mpr ⟨hrow, by simpa [Takes] using htakes⟩
  | configure sessions authentication => exact hrow

theorem attempt_kept {s s' : System P} (h : Reachable env s) (hrow : row ∈ s.db.attempts)
    (hrun : (others env row).Reachable s s') : row ∈ s'.db.attempts :=
  hrun.invariant_under (I := Sound env) (J := fun s => row ∈ s.db.attempts) h.sound
    (fun op s hop hs => sound_exec op s hop.1 hs) hrow fun _ _ hop hs hrow => kept_of_exec hs hrow hop.1 hop.2

theorem attempt_kept_example : ∃ row ∈ exampleIssued.db.attempts,
    row ∈ ((store exampleEnv).after [.clearExpired 1] exampleIssued).db.attempts := by
  have hone : exampleIssued.db.attempts.length = 1 := by decide +kernel
  have halive : exampleIssued.db.attempts.all (1 < ·.expiresAt) = true := by decide +kernel
  obtain ⟨row, hrow⟩ := length_eq_one_iff.mp hone
  have hmem : row ∈ exampleIssued.db.attempts := by rw [hrow]; exact .head _
  have htime := of_decide_eq_true (all_eq_true.mp halive row hmem)
  exact ⟨row, hmem, attempt_kept exampleIssued_reachable hmem
    ⟨[.clearExpired 1], ⟨⟨trivial, not_le.mpr htime⟩, trivial⟩, rfl⟩⟩

end TsEpistle.Federation
