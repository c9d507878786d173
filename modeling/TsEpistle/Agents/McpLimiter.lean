import TsEpistle.Library.Machine
import TsEpistle.Library.Checked

/-! The admission of requests by owner (`McpOwnerRateLimiter` of `server/agents/mcp-limiter.ts`). Times are exact. -/

namespace TsEpistle.Agents.McpLimiter
open Library List

structure OwnerWindow where
  expiresAt : ℚ
  requests : Nat
  deriving DecidableEq

/-- The numbers that the constructor lets through. -/
structure Limits where
  (limit windowMs maxOwners : Nat)
  limit_pos : 0 < limit
  windowMs_pos : 0 < windowMs
  maxOwners_pos : 0 < maxOwners

/-- The entries of the map, in the order of insertion. -/
abbrev Owners := List (Int × OwnerWindow)

def validOwner (owner : Int) : Bool := 0 < owner && owner ≤ 2 ^ 53 - 1

/-- Whole seconds, at least one. -/
def retryAfter (expiresAt now : ℚ) : Nat := max 1 ⌈(expiresAt - now) / 1000⌉₊

/-- Entries up to the first that has not expired are dropped. -/
def purge (owners : Owners) (now : ℚ) : Owners := owners.dropWhile fun entry => entry.2.expiresAt ≤ now

/-- A request in the window of its owner. -/
def request (limits : Limits) (owners : Owners) (now : ℚ) (owner : Int) (window : OwnerWindow) : Nat × Owners :=
  if limits.limit ≤ window.requests then (retryAfter window.expiresAt now, owners)
  else
    (0, owners.map fun entry =>
      if entry.1 = owner then (owner, { window with requests := window.requests + 1 }) else entry)

/-- A request of an owner without a window. -/
def requestFirst (limits : Limits) (owners : Owners) (now : ℚ) (owner : Int) : Nat × Owners :=
  let owners := purge owners now
  match owners with
  | (_, oldest) :: _ =>
    if limits.maxOwners ≤ owners.length then (retryAfter oldest.expiresAt now, owners)
    else request limits (owners ++ [(owner, ⟨now + limits.windowMs, 0⟩)]) now owner ⟨now + limits.windowMs, 0⟩
  | [] => request limits [(owner, ⟨now + limits.windowMs, 0⟩)] now owner ⟨now + limits.windowMs, 0⟩

/-- 0 admits the request; otherwise it is the number of seconds to wait. -/
def consume (limits : Limits) (owners : Owners) (now : ℚ) (owner : Int) : Except String (Nat × Owners) :=
  if !validOwner owner then .error "MCP admission requires a current owner"
  else
    match owners.lookup owner with
    | some window =>
      if window.expiresAt ≤ now then .ok (requestFirst limits (owners.filter fun entry => entry.1 ≠ owner) now owner)
      else .ok (request limits owners now owner window)
    | none => .ok (requestFirst limits owners now owner)

/-! ## Runs -/

/-- A request that was admitted, with the end of its window. -/
structure Admission where
  time : ℚ
  owner : Int
  expiresAt : ℚ

/-- The map with the time of the last call and what was admitted, the latest first. -/
structure State where
  owners : Owners
  clock : ℚ
  admitted : List Admission

def State.initial (clock : ℚ) : State := ⟨[], clock, []⟩

structure Call where
  now : ℚ
  owner : Int

/-- The end of the window of an owner. -/
def windowEnd (owners : Owners) (owner : Int) : ℚ := ((owners.lookup owner).map (·.expiresAt)).getD 0

/-- The state after a call that was answered. -/
def State.record (state : State) (call : Call) (answer : Nat × Owners) : State where
  owners := answer.2
  clock := call.now
  admitted :=
    if answer.1 = 0 then ⟨call.now, call.owner, windowEnd answer.2 call.owner⟩ :: state.admitted else state.admitted

def exec (limits : Limits) (call : Call) (state : State) : State :=
  match consume limits state.owners call.now call.owner with
  | .error _ => { state with clock := call.now }
  | .ok answer => state.record call answer

/-- The clock does not go back. -/
def limiter (limits : Limits) : Machine State Call where
  enabled call state := state.clock ≤ call.now
  exec := exec limits

/-! ## The map -/

variable {limits : Limits}

/-- Insertion order is expiry order, and no owner comes twice. -/
structure Ordered (owners : Owners) : Prop where
  expiry : owners.Pairwise fun first second => first.2.expiresAt ≤ second.2.expiresAt
  keys : (owners.map (·.1)).Nodup

theorem Ordered.sublist {owners owners' : Owners} (h : Ordered owners) (hsub : owners'.Sublist owners) :
    Ordered owners' :=
  ⟨h.expiry.sublist hsub, h.keys.sublist (hsub.map _)⟩

variable {owners : Owners} {window : OwnerWindow} {owner : Int}

theorem lookup_of_mem (h : (owners.map (·.1)).Nodup) (hmem : (owner, window) ∈ owners) :
    owners.lookup owner = some window := by
  induction owners with
  | nil => cases hmem
  | cons entry owners ih =>
    rw [map_cons, nodup_cons] at h
    rcases mem_cons.mp hmem with rfl | hmem
    · exact lookup_cons_self
    · have hne : (owner == entry.1) = false := by
        rw [beq_eq_false_iff_ne]
        intro hsame
        exact h.1 (hsame ▸ mem_map_of_mem (f := (·.1)) hmem)
      rw [lookup_cons, hne]
      exact ih h.2 hmem

theorem mem_of_lookup (h : owners.lookup owner = some window) : (owner, window) ∈ owners := by
  induction owners with
  | nil => cases h
  | cons entry owners ih =>
    rw [lookup_cons] at h
    by_cases hsame : owner = entry.1
    · subst hsame
      rw [beq_self_eq_true] at h
      cases h
      exact mem_cons_self
    · rw [beq_eq_false_iff_ne.mpr hsame] at h
      exact mem_cons_of_mem _ (ih h)

variable {now : ℚ}

theorem mem_purge {entry : Int × OwnerWindow} (hmem : entry ∈ owners) (h : now < entry.2.expiresAt) :
    entry ∈ purge owners now := by
  induction owners with
  | nil => cases hmem
  | cons first owners ih =>
    unfold purge at ih ⊢
    by_cases hexpired : first.2.expiresAt ≤ now
    · rw [dropWhile_cons_of_pos (by simpa using hexpired)]
      rcases mem_cons.mp hmem with rfl | hmem
      · exact absurd hexpired (not_le.mpr h)
      · exact ih hmem
    · rwa [dropWhile_cons_of_neg (by simpa using hexpired)]

theorem purge_sublist (owners : Owners) (now : ℚ) : (purge owners now).Sublist owners := dropWhile_sublist _

/-! ## Single calls -/

/-- The requests of an owner that were admitted in the window with a given end. -/
def admissions (admitted : List Admission) (owner : Int) (expiresAt : ℚ) : Nat :=
  (admitted.filter fun admission => admission.owner = owner ∧ admission.expiresAt = expiresAt).length

/-- The map agrees with what was admitted. -/
structure Kept (limits : Limits) (state : State) : Prop where
  ordered : Ordered state.owners
  size : state.owners.length ≤ limits.maxOwners
  recent : ∀ entry ∈ state.owners, entry.2.expiresAt ≤ state.clock + (limits.windowMs : ℚ)
  counted : ∀ entry ∈ state.owners, entry.2.requests = admissions state.admitted entry.1 entry.2.expiresAt
  bounded : ∀ owner expiresAt, admissions state.admitted owner expiresAt ≤ limits.limit
  placed : ∀ admission ∈ state.admitted, admission.time < admission.expiresAt
    ∧ admission.expiresAt ≤ admission.time + (limits.windowMs : ℚ) ∧ admission.time ≤ state.clock
  apart : state.admitted.Pairwise fun later earlier => later.owner = earlier.owner →
    later.expiresAt = earlier.expiresAt ∨ earlier.expiresAt + (limits.windowMs : ℚ) ≤ later.expiresAt
  windows : ∀ admission ∈ state.admitted, ∀ entry ∈ state.owners, admission.owner = entry.1 →
    entry.2.expiresAt = admission.expiresAt ∨ admission.expiresAt + (limits.windowMs : ℚ) ≤ entry.2.expiresAt
  active : ∀ admission ∈ state.admitted, state.clock < admission.expiresAt →
    ∃ entry ∈ state.owners, entry.1 = admission.owner ∧ entry.2.expiresAt = admission.expiresAt

/-- Windows that have not expired stay, and count on. -/
def Preserved (now : ℚ) (owners owners' : Owners) : Prop :=
  ∀ entry ∈ owners, now < entry.2.expiresAt →
    ∃ window, (entry.1, window) ∈ owners' ∧ window.expiresAt = entry.2.expiresAt ∧ entry.2.requests ≤ window.requests

theorem Kept.initial (clock : ℚ) : Kept limits (State.initial clock) where
  ordered := ⟨Pairwise.nil, nodup_nil⟩
  size := Nat.zero_le _
  recent := nofun
  counted := nofun
  bounded _ _ := Nat.zero_le _
  placed := nofun
  apart := Pairwise.nil
  windows := nofun
  active := nofun

variable {state : State}

/-- Time passes, and some windows that have expired go. -/
theorem Kept.drop (h : Kept limits state) (hnow : state.clock ≤ now)
    (hsub : owners.Sublist state.owners)
    (hactive : ∀ entry ∈ state.owners, now < entry.2.expiresAt → entry ∈ owners) :
    Kept limits { state with owners := owners, clock := now } where
  ordered := h.ordered.sublist hsub
  size := hsub.length_le.trans h.size
  recent entry hentry := (h.recent entry (hsub.subset hentry)).trans (by
    change state.clock + _ ≤ now + _
    linarith)
  counted entry hentry := h.counted entry (hsub.subset hentry)
  bounded := h.bounded
  placed admission hadmission := by
    obtain ⟨hbefore, hend, htime⟩ := h.placed admission hadmission
    exact ⟨hbefore, hend, htime.trans hnow⟩
  apart := h.apart
  windows admission hadmission entry hentry := h.windows admission hadmission entry (hsub.subset hentry)
  active admission hadmission hlater := by
    obtain ⟨entry, hentry, howner, hend⟩ := h.active admission hadmission (lt_of_le_of_lt hnow hlater)
    refine ⟨entry, hactive entry hentry ?_, howner, hend⟩
    rw [hend]
    exact hlater

theorem Kept.purged (h : Kept limits state) (hnow : state.clock ≤ now) :
    Kept limits { state with owners := purge state.owners now, clock := now } :=
  h.drop hnow (purge_sublist _ _) fun _ hentry hlater => mem_purge hentry hlater

/-- An owner without an active window gets one. -/
theorem Kept.insert (h : Kept limits state) (hnew : owner ∉ state.owners.map (·.1))
    (hroom : state.owners.length < limits.maxOwners) :
    Kept limits { state with owners := state.owners ++ [(owner, ⟨state.clock + limits.windowMs, 0⟩)] } := by
  have hpos : (0 : ℚ) < limits.windowMs := by exact_mod_cast limits.windowMs_pos
  have hexpired : ∀ admission ∈ state.admitted, admission.owner = owner → admission.expiresAt ≤ state.clock := by
    intro admission hadmission howner
    by_contra hlater
    obtain ⟨entry, hentry, hsame, -⟩ := h.active admission hadmission (not_le.mp hlater)
    exact hnew (howner ▸ hsame ▸ mem_map_of_mem hentry)
  exact
    { ordered := by
        refine ⟨pairwise_append.mpr ⟨h.ordered.expiry, pairwise_singleton _ _, ?_⟩, ?_⟩
        · intro entry hentry other hother
          rw [mem_singleton.mp hother]
          exact h.recent entry hentry
        · rw [map_append, nodup_append]
          refine ⟨h.ordered.keys, nodup_singleton _, ?_⟩
          intro key hkey other hother hsame
          rw [map_singleton, mem_singleton] at hother
          subst hother
          exact hnew (hsame ▸ hkey)
      size := by
        rw [length_append, length_singleton]
        exact hroom
      recent := by
        refine forall_mem_append.mpr ⟨h.recent, ?_⟩
        exact forall_mem_singleton.mpr le_rfl
      counted := by
        refine forall_mem_append.mpr ⟨h.counted, forall_mem_singleton.mpr ?_⟩
        symm
        rw [admissions, length_eq_zero_iff, filter_eq_nil_iff]
        intro admission hadmission hsame
        simp only [decide_eq_true_eq] at hsame
        have hbefore := hexpired admission hadmission hsame.1
        rw [hsame.2] at hbefore
        linarith
      bounded := h.bounded
      placed := h.placed
      apart := h.apart
      windows := by
        intro admission hadmission
        refine forall_mem_append.mpr ⟨h.windows admission hadmission, forall_mem_singleton.mpr ?_⟩
        intro howner
        have hbefore := hexpired admission hadmission howner
        refine .inr ?_
        change admission.expiresAt + _ ≤ state.clock + _
        linarith
      active := by
        intro admission hadmission hlater
        obtain ⟨entry, hentry, hsame⟩ := h.active admission hadmission hlater
        exact ⟨entry, mem_append_left _ hentry, hsame⟩ }

theorem same_window (h : (owners.map (·.1)).Nodup) (hmem : (owner, window) ∈ owners) {entry : Int × OwnerWindow}
    (hentry : entry ∈ owners) (hsame : entry.1 = owner) : entry.2 = window := by
  have hlookup := lookup_of_mem h hmem
  rw [← hsame, lookup_of_mem h (show (entry.1, entry.2) ∈ owners from hentry)] at hlookup
  exact Option.some.inj hlookup

/-- The entry of an owner, replaced. -/
def replace (owners : Owners) (owner : Int) (window : OwnerWindow) : Owners :=
  owners.map fun entry => if entry.1 = owner then (owner, window) else entry

theorem mem_replace (hmem : (owner, window) ∈ owners) (window' : OwnerWindow) (entry : Int × OwnerWindow) :
    entry ∈ replace owners owner window' ↔ entry = (owner, window') ∨ entry ∈ owners ∧ entry.1 ≠ owner := by
  unfold replace
  rw [mem_map]
  constructor
  · rintro ⟨other, hother, rfl⟩
    by_cases hsame : other.1 = owner
    · exact .inl (if_pos hsame)
    · rw [if_neg hsame]
      exact .inr ⟨hother, hsame⟩
  · rintro (rfl | ⟨hentry, hne⟩)
    · exact ⟨_, hmem, if_pos rfl⟩
    · exact ⟨entry, hentry, if_neg hne⟩

theorem replace_keys (owners : Owners) (owner : Int) (window : OwnerWindow) :
    (replace owners owner window).map (·.1) = owners.map (·.1) := by
  unfold replace
  rw [map_map]
  refine map_congr_left fun entry _ => ?_
  by_cases hsame : entry.1 = owner
  · exact (congrArg Prod.fst (if_pos hsame)).trans hsame.symm
  · exact congrArg Prod.fst (if_neg hsame)

theorem admissions_cons (admission : Admission) (admitted : List Admission) (owner : Int) (expiresAt : ℚ) :
    admissions (admission :: admitted) owner expiresAt = admissions admitted owner expiresAt
      + if admission.owner = owner ∧ admission.expiresAt = expiresAt then 1 else 0 := by
  unfold admissions
  by_cases hsame : admission.owner = owner ∧ admission.expiresAt = expiresAt
  · rw [filter_cons_of_pos (by simpa using hsame), if_pos hsame, length_cons]
  · rw [filter_cons_of_neg (by simpa using hsame), if_neg hsame, Nat.add_zero]

/-- A request in a window with room. -/
theorem Kept.admit (h : Kept limits state) (hmem : (owner, window) ∈ state.owners)
    (hactive : state.clock < window.expiresAt) (hroom : window.requests < limits.limit) :
    Kept limits
      { owners := replace state.owners owner { window with requests := window.requests + 1 }
        clock := state.clock
        admitted := ⟨state.clock, owner, window.expiresAt⟩ :: state.admitted } := by
  have hentries {entry : Int × OwnerWindow} := mem_replace hmem { window with requests := window.requests + 1 } entry
  have hcounted := h.counted _ hmem
  have hends : ∀ entry ∈ replace state.owners owner { window with requests := window.requests + 1 },
      ∃ other ∈ state.owners, other.1 = entry.1 ∧ other.2.expiresAt = entry.2.expiresAt := by
    intro entry hentry
    rcases hentries.mp hentry with rfl | ⟨hentry, -⟩
    · exact ⟨_, hmem, rfl, rfl⟩
    · exact ⟨entry, hentry, rfl, rfl⟩
  exact
    { ordered := by
        refine ⟨?_, by rw [replace_keys]; exact h.ordered.keys⟩
        unfold replace
        rw [pairwise_map]
        have hend : ∀ entry ∈ state.owners, (if entry.1 = owner then
            (owner, { window with requests := window.requests + 1 }) else entry).2.expiresAt = entry.2.expiresAt := by
          intro entry hentry
          by_cases hsame : entry.1 = owner
          · rw [if_pos hsame, same_window h.ordered.keys hmem hentry hsame]
          · rw [if_neg hsame]
        exact h.ordered.expiry.imp_of_mem fun hfirst hsecond hle => by rw [hend _ hfirst, hend _ hsecond]; exact hle
      size := by
        unfold replace
        rw [length_map]
        exact h.size
      recent := by
        intro entry hentry
        obtain ⟨other, hother, -, hend⟩ := hends entry hentry
        exact hend ▸ h.recent other hother
      counted := by
        intro entry hentry
        rw [admissions_cons]
        rcases hentries.mp hentry with rfl | ⟨hentry, hne⟩
        · rw [if_pos ⟨rfl, rfl⟩]
          exact congrArg (· + 1) hcounted
        · rw [if_neg fun hsame => hne hsame.1.symm, h.counted entry hentry, Nat.add_zero]
      bounded := by
        intro other expiresAt
        rw [admissions_cons]
        by_cases hsame : owner = other ∧ window.expiresAt = expiresAt
        · rw [if_pos hsame, ← hsame.1, ← hsame.2]
          change window.requests = _ at hcounted
          rw [← hcounted]
          exact hroom
        · rw [if_neg hsame, Nat.add_zero]
          exact h.bounded other expiresAt
      placed := forall_mem_cons.mpr ⟨⟨hactive, h.recent _ hmem, le_rfl⟩, h.placed⟩
      apart := pairwise_cons.mpr ⟨fun earlier hearlier hsame =>
        h.windows earlier hearlier _ hmem hsame.symm, h.apart⟩
      windows := by
        intro admission hadmission entry hentry howner
        obtain ⟨other, hother, hsame, hend⟩ := hends entry hentry
        rw [← hend]
        rcases mem_cons.mp hadmission with rfl | hadmission
        · exact .inl (congrArg OwnerWindow.expiresAt (same_window h.ordered.keys hmem hother (hsame.trans howner.symm)))
        · exact h.windows admission hadmission other hother (howner.trans hsame.symm)
      active := by
        intro admission hadmission hlater
        rcases mem_cons.mp hadmission with rfl | hadmission
        · exact ⟨_, hentries.mpr (.inl rfl), rfl, rfl⟩
        · obtain ⟨entry, hentry, howner, hend⟩ := h.active admission hadmission hlater
          by_cases hsame : entry.1 = owner
          · refine ⟨_, hentries.mpr (.inl rfl), hsame.symm.trans howner, ?_⟩
            rw [← hend, same_window h.ordered.keys hmem hentry hsame]
          · exact ⟨entry, hentries.mpr (.inr ⟨hentry, hsame⟩), howner, hend⟩ }

/-! ## Calls -/

theorem retryAfter_ne_zero (expiresAt now : ℚ) : retryAfter expiresAt now ≠ 0 :=
  Nat.ne_of_gt (lt_of_lt_of_le Nat.one_pos (le_max_left _ _))

theorem retryAfter_expired {expiresAt now later : ℚ} (h : now + 1000 * retryAfter expiresAt now ≤ later) :
    expiresAt ≤ later := by
  have hceil : (expiresAt - now) / 1000 ≤ retryAfter expiresAt now :=
    (Nat.le_ceil _).trans (by exact_mod_cast le_max_right _ _)
  linarith

theorem request_admits (h : window.requests < limits.limit) (owners : Owners) (now : ℚ)
    (owner : Int) : request limits owners now owner window =
      (0, replace owners owner { window with requests := window.requests + 1 }) :=
  if_neg (not_le.mpr h)

theorem windowEnd_of_mem (h : (owners.map (·.1)).Nodup) (hmem : (owner, window) ∈ owners) :
    windowEnd owners owner = window.expiresAt := by
  unfold windowEnd
  rw [lookup_of_mem h hmem]
  rfl

theorem Kept.requested (h : Kept limits state) (hmem : (owner, window) ∈ state.owners)
    (hactive : state.clock < window.expiresAt) :
    Kept limits (state.record ⟨state.clock, owner⟩ (request limits state.owners state.clock owner window)) := by
  by_cases hfull : limits.limit ≤ window.requests
  · unfold request State.record
    rw [if_pos hfull, if_neg (retryAfter_ne_zero _ _)]
    exact h
  · have hkept := h.admit hmem hactive (not_le.mp hfull)
    rw [request_admits (not_le.mp hfull)]
    unfold State.record
    rw [if_pos rfl, windowEnd_of_mem hkept.ordered.keys ((mem_replace hmem _ _).mpr (.inl rfl))]
    exact hkept

theorem request_preserved (hkeys : (owners.map (·.1)).Nodup) (hmem : (owner, window) ∈ owners) :
    Preserved now owners (request limits owners now owner window).2 := by
  intro entry hentry _
  by_cases hfull : limits.limit ≤ window.requests
  · unfold request
    rw [if_pos hfull]
    exact ⟨entry.2, hentry, rfl, le_rfl⟩
  · rw [request_admits (not_le.mp hfull)]
    by_cases hsame : entry.1 = owner
    · refine ⟨{ window with requests := window.requests + 1 }, ?_, ?_, ?_⟩
      · exact hsame ▸ (mem_replace hmem _ _).mpr (.inl rfl)
      · rw [same_window hkeys hmem hentry hsame]
      · rw [same_window hkeys hmem hentry hsame]
        exact Nat.le_succ _
    · exact ⟨entry.2, (mem_replace hmem _ _).mpr (.inr ⟨hentry, hsame⟩), rfl, le_rfl⟩

/-- The map has room once what has expired is gone. -/
theorem requestFirst_room (h : (purge owners now).length < limits.maxOwners) (owner : Int) :
    requestFirst limits owners now owner =
      request limits (purge owners now ++ [(owner, ⟨now + limits.windowMs, 0⟩)]) now owner
        ⟨now + limits.windowMs, 0⟩ := by
  unfold requestFirst
  cases hpurge : purge owners now with
  | nil => rfl
  | cons oldest rest =>
    rw [hpurge] at h
    exact if_neg (not_le.mpr h)

theorem requestFirst_full (h : limits.maxOwners ≤ (purge owners now).length) (owner : Int) :
    ∃ oldest rest, purge owners now = oldest :: rest
      ∧ requestFirst limits owners now owner = (retryAfter oldest.2.expiresAt now, purge owners now) := by
  unfold requestFirst
  cases hpurge : purge owners now with
  | nil =>
    rw [hpurge] at h
    exact absurd h (not_le.mpr limits.maxOwners_pos)
  | cons oldest rest =>
    rw [hpurge] at h
    exact ⟨oldest, rest, rfl, if_pos h⟩

theorem Kept.requestedFirst (h : Kept limits ⟨owners, now, state.admitted⟩) (hnew : owner ∉ owners.map (·.1)) :
    Kept limits (state.record ⟨now, owner⟩ (requestFirst limits owners now owner)) := by
  have hpurged : Kept limits ⟨purge owners now, now, state.admitted⟩ := h.purged le_rfl
  rcases lt_or_ge (purge owners now).length limits.maxOwners with hroom | hfull
  · rw [requestFirst_room hroom]
    have hinserted := hpurged.insert (fun hold => hnew ((purge_sublist owners now).map _ |>.subset hold)) hroom
    refine hinserted.requested (mem_append_right _ (mem_singleton_self _)) ?_
    exact lt_add_of_pos_right _ (by exact_mod_cast limits.windowMs_pos)
  · obtain ⟨oldest, rest, -, hanswer⟩ := requestFirst_full hfull owner
    rw [hanswer]
    unfold State.record
    rw [if_neg (retryAfter_ne_zero _ _)]
    exact hpurged

theorem Preserved.trans {first second third : Owners} (h : Preserved now first second)
    (h' : Preserved now second third) : Preserved now first third := by
  intro entry hentry hactive
  obtain ⟨window, hwindow, hend, hcount⟩ := h entry hentry hactive
  obtain ⟨window', hwindow', hend', hcount'⟩ := h' _ hwindow (hend ▸ hactive)
  exact ⟨window', hwindow', hend'.trans hend, hcount.trans hcount'⟩

theorem Preserved.of_subset {owners owners' : Owners}
    (h : ∀ entry ∈ owners, now < entry.2.expiresAt → entry ∈ owners') : Preserved now owners owners' :=
  fun entry hentry hactive => ⟨entry.2, h entry hentry hactive, rfl, le_rfl⟩

theorem requestFirst_preserved (h : Ordered owners) (hnew : owner ∉ owners.map (·.1)) :
    Preserved now owners (requestFirst limits owners now owner).2 := by
  have hpurged : Preserved now owners (purge owners now) := .of_subset fun _ hentry hactive => mem_purge hentry hactive
  rcases lt_or_ge (purge owners now).length limits.maxOwners with hroom | hfull
  · rw [requestFirst_room hroom]
    have hinserted : Preserved now (purge owners now)
        (purge owners now ++ [(owner, ⟨now + limits.windowMs, 0⟩)]) :=
      .of_subset fun _ hentry _ => mem_append_left _ hentry
    refine (hpurged.trans hinserted).trans (request_preserved ?_ (mem_append_right _ (mem_singleton_self _)))
    rw [map_append]
    refine nodup_append.mpr ⟨(h.sublist (purge_sublist owners now)).keys, nodup_singleton _, ?_⟩
    intro key hkey other hother hsame
    rw [map_singleton, mem_singleton] at hother
    subst hother
    exact hnew (((purge_sublist owners now).map _).subset (hsame ▸ hkey))
  · obtain ⟨oldest, rest, -, hanswer⟩ := requestFirst_full hfull owner
    rw [hanswer]
    exact hpurged

/-- What a call that is not turned down answers, from the windows without the caller's when it has expired. -/
theorem consume_cases (hkeys : (owners.map (·.1)).Nodup) {answer : Nat × Owners}
    (h : consume limits owners now owner = .ok answer) :
    validOwner owner = true
    ∧ ((∃ window, (owner, window) ∈ owners ∧ now < window.expiresAt
        ∧ answer = request limits owners now owner window)
      ∨ ∃ owners', owners'.Sublist owners ∧ owner ∉ owners'.map (·.1)
        ∧ (∀ entry ∈ owners, now < entry.2.expiresAt → entry ∈ owners')
        ∧ answer = requestFirst limits owners' now owner) := by
  unfold consume at h
  cases hvalid : validOwner owner with
  | false =>
    rw [hvalid] at h
    exact nomatch h
  | true =>
    refine ⟨rfl, ?_⟩
    rw [hvalid] at h
    simp only [Bool.not_true, Bool.false_eq_true, if_false] at h
    cases hlookup : owners.lookup owner with
    | none =>
      rw [hlookup] at h
      refine .inr ⟨owners, Sublist.refl _, ?_, fun _ hentry _ => hentry, (Except.ok.inj h).symm⟩
      intro hmem
      obtain ⟨entry, hentry, rfl⟩ := mem_map.mp hmem
      have hfound := lookup_of_mem hkeys (show (entry.1, entry.2) ∈ owners from hentry)
      rw [hlookup] at hfound
      cases hfound
    | some window =>
      have hmem := mem_of_lookup hlookup
      rw [hlookup] at h
      dsimp only at h
      by_cases hexpired : window.expiresAt ≤ now
      · rw [if_pos hexpired] at h
        refine .inr ⟨_, filter_sublist, ?_, ?_, (Except.ok.inj h).symm⟩
        · intro hmem
          obtain ⟨entry, hentry, rfl⟩ := mem_map.mp hmem
          simpa using (mem_filter.mp hentry).2
        · intro entry hentry hactive
          refine mem_filter.mpr ⟨hentry, decide_eq_true fun hsame => ?_⟩
          rw [same_window hkeys hmem hentry hsame] at hactive
          exact absurd hexpired (not_le.mpr hactive)
      · rw [if_neg hexpired] at h
        exact .inl ⟨window, hmem, not_le.mp hexpired, (Except.ok.inj h).symm⟩

theorem Kept.exec (h : Kept limits state) {call : Call} (hclock : state.clock ≤ call.now) :
    Kept limits (exec limits call state) := by
  have hlater {owners : Owners} (hsub : owners.Sublist state.owners) := h.drop hclock hsub
  unfold McpLimiter.exec
  cases hanswer : consume limits state.owners call.now call.owner with
  | error _ => exact hlater (Sublist.refl _) fun _ hentry _ => hentry
  | ok answer =>
    obtain ⟨-, ⟨window, hmem, hactive, rfl⟩ | ⟨owners, hsub, hnew, hkept, rfl⟩⟩ := consume_cases h.ordered.keys hanswer
    · exact (hlater (Sublist.refl _) fun _ hentry _ => hentry).requested hmem hactive
    · exact (hlater hsub hkept).requestedFirst hnew

theorem consume_preserved (h : Ordered owners) {answer : Nat × Owners}
    (hanswer : consume limits owners now owner = .ok answer) : Preserved now owners answer.2 := by
  obtain ⟨-, ⟨window, hmem, -, rfl⟩ | ⟨owners', hsub, hnew, hkept, rfl⟩⟩ := consume_cases h.keys hanswer
  · exact request_preserved h.keys hmem
  · exact (Preserved.of_subset hkept).trans (requestFirst_preserved (h.sublist hsub) hnew)

theorem requestFirst_admits (h : (purge owners now).length < limits.maxOwners) (owner : Int) :
    ∃ owners', requestFirst limits owners now owner = (0, owners') := by
  rw [requestFirst_room h, request_admits limits.limit_pos]
  exact ⟨_, rfl⟩

/-- What is refused is let in when the time that was named is over. -/
theorem consume_retry (h : Ordered owners) (hsize : owners.length ≤ limits.maxOwners) {answer : Nat × Owners}
    (hanswer : consume limits owners now owner = .ok answer) (hrefused : answer.1 ≠ 0) {later : ℚ}
    (hlater : now + 1000 * answer.1 ≤ later) : ∃ owners', consume limits answer.2 later owner = .ok (0, owners') := by
  obtain ⟨hvalid, ⟨window, hmem, hactive, rfl⟩ | ⟨owners', hsub, hnew, hkept, rfl⟩⟩ := consume_cases h.keys hanswer
  · have hfull : limits.limit ≤ window.requests := by
      by_contra hroom
      rw [request_admits (not_le.mp hroom)] at hrefused
      exact hrefused rfl
    have hrequest : request limits owners now owner window = (retryAfter window.expiresAt now, owners) := if_pos hfull
    rw [hrequest] at hlater ⊢
    have hexpired := retryAfter_expired hlater
    have hroom : (purge (owners.filter fun entry => entry.1 ≠ owner) later).length < limits.maxOwners := by
      refine lt_of_le_of_lt (purge_sublist _ _).length_le (lt_of_lt_of_le ?_ hsize)
      exact length_filter_lt_length_iff_exists.mpr ⟨_, hmem, by simp⟩
    obtain ⟨owners', hadmits⟩ := requestFirst_admits hroom owner
    refine ⟨owners', ?_⟩
    unfold consume
    rw [hvalid, lookup_of_mem h.keys hmem]
    simp only [Bool.not_true, Bool.false_eq_true, if_false]
    rw [if_pos hexpired, hadmits]
  · have hordered := h.sublist hsub
    rcases lt_or_ge (purge owners' now).length limits.maxOwners with hroom | hfull
    · obtain ⟨_, hadmits⟩ := requestFirst_admits hroom owner
      rw [hadmits] at hrefused
      exact absurd rfl hrefused
    obtain ⟨oldest, rest, hpurge, hrequest⟩ := requestFirst_full hfull owner
    rw [hrequest] at hlater ⊢
    have hexpired := retryAfter_expired hlater
    have hroom : (purge (purge owners' now) later).length < limits.maxOwners := by
      have hshorter : (purge (oldest :: rest) later).length < (oldest :: rest).length := by
        unfold purge
        rw [dropWhile_cons_of_pos (by simpa using hexpired)]
        exact Nat.lt_succ_of_le (dropWhile_sublist _).length_le
      rw [hpurge]
      refine lt_of_lt_of_le hshorter (le_trans ?_ hsize)
      rw [← hpurge]
      exact ((purge_sublist owners' now).trans hsub).length_le
    obtain ⟨owners'', hadmits⟩ := requestFirst_admits hroom owner
    have hlookup : (purge owners' now).lookup owner = none := by
      rw [Option.eq_none_iff_forall_ne_some]
      intro window hfound
      have hkey := mem_map_of_mem (f := (·.1)) (mem_of_lookup hfound)
      exact hnew (((purge_sublist owners' now).map _).subset hkey)
    refine ⟨owners'', ?_⟩
    unfold consume
    rw [hvalid]
    simp only [Bool.not_true, Bool.false_eq_true, if_false]
    rw [hlookup, hadmits]

/-! ## Runs of calls -/

/-- The requests of an owner that were admitted from `start` on for the length of a window. -/
def admittedWithin (limits : Limits) (admitted : List Admission) (owner : Int) (start : ℚ) : List Admission :=
  admitted.filter fun admission =>
    admission.owner = owner ∧ start ≤ admission.time ∧ admission.time ≤ start + limits.windowMs

/-- Such an interval meets two windows of the owner at most. -/
theorem admittedWithin_le (h : Kept limits state) (owner : Int) (start : ℚ) :
    (admittedWithin limits state.admitted owner start).length ≤ 2 * limits.limit := by
  have hpos : (0 : ℚ) < limits.windowMs := by exact_mod_cast limits.windowMs_pos
  generalize hwithin : admittedWithin limits state.admitted owner start = within
  have hsub : within.Sublist state.admitted := hwithin ▸ filter_sublist
  have hplace : ∀ admission ∈ within, admission.owner = owner ∧ start < admission.expiresAt
      ∧ admission.expiresAt ≤ start + 2 * limits.windowMs := by
    intro admission hadmission
    obtain ⟨hbefore, hend, -⟩ := h.placed admission (hsub.subset hadmission)
    rw [← hwithin] at hadmission
    obtain ⟨howner, hfrom, huntil⟩ := of_decide_eq_true (mem_filter.mp hadmission).2
    exact ⟨howner, lt_of_le_of_lt hfrom hbefore, by linarith⟩
  have hcount : ∀ (part : List Admission) (expiresAt : ℚ), part.Sublist within →
      (∀ admission ∈ part, admission.expiresAt = expiresAt) → part.length ≤ limits.limit := by
    intro part expiresAt hpart hend
    refine le_trans ?_ (h.bounded owner expiresAt)
    have hall : part.filter (fun admission => admission.owner = owner ∧ admission.expiresAt = expiresAt) = part :=
      filter_eq_self.mpr fun admission hadmission =>
        decide_eq_true ⟨(hplace admission (hpart.subset hadmission)).1, hend admission hadmission⟩
    rw [← hall]
    exact ((hpart.trans hsub).filter _).length_le
  have hapart := h.apart.sublist hsub
  cases within with
  | nil => exact Nat.zero_le _
  | cons last earlier =>
    obtain ⟨howner, hstart, hend⟩ := hplace last mem_cons_self
    have hfirst := (pairwise_cons.mp hapart).1
    have hold : ∀ admission ∈ earlier, admission.expiresAt ≠ last.expiresAt →
        admission.expiresAt ≤ start + limits.windowMs := by
      intro admission hadmission hne
      have hgap := (hfirst admission hadmission
        (howner.trans (hplace admission (mem_cons_of_mem _ hadmission)).1.symm)).resolve_left hne.symm
      linarith
    have hsame := hcount ((last :: earlier).filter fun admission => admission.expiresAt = last.expiresAt)
      last.expiresAt filter_sublist fun admission hadmission =>
        of_decide_eq_true (mem_filter.mp hadmission).2
    have hother : ((last :: earlier).filter fun admission => !decide (admission.expiresAt = last.expiresAt)).length
        ≤ limits.limit := by
      generalize hrest : (last :: earlier).filter (fun admission => !decide (admission.expiresAt = last.expiresAt))
        = rest
      have hrestsub : rest.Sublist (last :: earlier) := hrest ▸ filter_sublist
      have hlow : ∀ admission ∈ rest, admission.expiresAt ≤ start + limits.windowMs := by
        intro admission hadmission
        rw [← hrest] at hadmission
        obtain ⟨hmem, hne⟩ := mem_filter.mp hadmission
        have hne : admission.expiresAt ≠ last.expiresAt := by simpa using hne
        exact hold admission ((mem_cons.mp hmem).resolve_left fun heq => hne (heq ▸ rfl)) hne
      cases rest with
      | nil => exact Nat.zero_le _
      | cons first rest =>
        refine hcount _ first.expiresAt hrestsub (forall_mem_cons.mpr ⟨rfl, ?_⟩)
        intro admission hadmission
        have hadmission' := mem_cons_of_mem first hadmission
        have hplaced := hplace _ (hrestsub.subset hadmission')
        have howners := (hplace _ (hrestsub.subset mem_cons_self)).1.trans hplaced.1.symm
        rcases (pairwise_cons.mp (hapart.sublist hrestsub)).1 admission hadmission howners with heq | hgap
        · exact heq.symm
        · have := hlow first mem_cons_self
          linarith
    have hsplit := length_eq_length_filter_add (l := last :: earlier)
      (fun admission => decide (admission.expiresAt = last.expiresAt))
    omega

theorem mcp_admission_bounded (limits : Limits) (clock : ℚ) {state : State}
    (hreach : (limiter limits).Reachable (State.initial clock) state) :
    (state.owners.Pairwise (fun first second => first.2.expiresAt ≤ second.2.expiresAt)
      ∧ (state.owners.map (·.1)).Nodup ∧ state.owners.length ≤ limits.maxOwners)
    ∧ (∀ owner expiresAt, admissions state.admitted owner expiresAt ≤ limits.limit)
    ∧ (∀ owner start, (admittedWithin limits state.admitted owner start).length ≤ 2 * limits.limit)
    ∧ ∀ call : Call, state.clock ≤ call.now → ∀ answer,
        consume limits state.owners call.now call.owner = .ok answer →
          Preserved call.now state.owners answer.2
          ∧ (answer.1 ≠ 0 → ∀ later, call.now + 1000 * answer.1 ≤ later →
              ∃ owners, consume limits answer.2 later call.owner = .ok (0, owners)) := by
  have hkept : Kept limits state := hreach.invariant (Kept.initial clock) fun _ _ henabled h => h.exec henabled
  refine ⟨⟨hkept.ordered.expiry, hkept.ordered.keys, hkept.size⟩, hkept.bounded, admittedWithin_le hkept, ?_⟩
  intro call hclock answer hanswer
  exact ⟨consume_preserved hkept.ordered hanswer, fun hrefused later hlater =>
    consume_retry hkept.ordered hkept.size hanswer hrefused hlater⟩

def exampleLimits : Limits := ⟨1, 1000, 1, by decide, by decide, by decide⟩

/-- The second request is refused for a second. -/
theorem mcp_admission_bounded_example : ∃ state, (limiter exampleLimits).Reachable (State.initial 0) state ∧
    state.admitted.length = 1 ∧ consume exampleLimits state.owners 10 7 = .ok (1, state.owners) ∧ ∃ owners,
    consume exampleLimits state.owners 1010 7 = .ok (0, owners) := by
  have hfirst : State.clock (State.initial 0) ≤ Call.now ⟨0, 7⟩ := le_refl (0 : ℚ)
  have hreach := (Machine.Reachable.refl (M := limiter exampleLimits) (State.initial 0)).step hfirst
  have howners : ((limiter exampleLimits).exec ⟨0, 7⟩ (State.initial 0)).owners = [(7, ⟨1000, 1⟩)] := by
    decide +kernel
  have hclock : ((limiter exampleLimits).exec ⟨0, 7⟩ (State.initial 0)).clock ≤ Call.now ⟨10, 7⟩ := by
    decide +kernel
  have hrefused : consume exampleLimits [(7, ⟨1000, 1⟩)] 10 7 = .ok (1, [(7, ⟨1000, 1⟩)]) := by
    decide +kernel
  have hkept := (mcp_admission_bounded exampleLimits 0 hreach).2.2.2 ⟨10, 7⟩ hclock
  rw [howners] at hkept
  refine ⟨_, hreach, by decide +kernel, howners ▸ hrefused, ?_⟩
  rw [howners]
  exact (hkept _ hrefused).2 (by decide) 1010 (by norm_num)

end TsEpistle.Agents.McpLimiter
