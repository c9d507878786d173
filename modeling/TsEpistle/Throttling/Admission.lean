import TsEpistle.Throttling.Limiter

/-! Throttling. No call is admitted while a block recorded before it began is in
force. The number of admitted calls is bounded by the free attempts and the
elapsed block periods as long as no call counts an attempt beyond the free ones
while a refused call still has to write its block. -/

namespace TsEpistle.Throttling
open Library List

variable {s : State}

/-! ## Rows -/

theorem begins_mono {row : Option RateLimitRow} {now now' : Time} (h : begins row now = true)
    (hle : now ≤ now') : begins row now' = true := by
  cases row with
  | none => rfl
  | some row =>
    cases hexpire : row.expire with
    | none => simp [begins, RateLimitRow.expired, hexpire] at h
    | some expire =>
      simp only [begins, RateLimitRow.expired, hexpire, Option.all_some, Option.any_some, decide_eq_true_eq] at h ⊢
      exact h.trans hle

theorem upsert_begun {row : Option RateLimitRow} {now : Time} (h : begins row now = true) {points msDuration : Nat}
    (hpos : 0 < msDuration) : upsert row points msDuration false now = ⟨points, some (now + msDuration)⟩ := by
  cases row with
  | none => simp [upsert, hpos]
  | some row =>
    have hexpired : row.expired now = true := h
    simp [upsert, hpos, hexpired]

theorem upsert_kept {row : Option RateLimitRow} {now : Time} (h : begins row now = false) (points msDuration : Nat) :
    ∃ old ∈ row, upsert row points msDuration false now = { old with points := old.points + points } := by
  cases row with
  | none => cases h
  | some row =>
    have hexpired : row.expired now = false := h
    exact ⟨row, rfl, by simp [upsert, hexpired]⟩

theorem waitSeconds_pos {k w : Nat} (h : waitSeconds k = some w) : 0 < w := by
  simp only [waitSeconds] at h
  split at h
  · cases h
  · split at h
    · cases h
    · cases h
      have hall : ∀ i, 0 < WAIT_SECONDS.getD i (60 * 60) := by
        intro i
        rw [getD_eq_getElem?_getD]
        cases hi : WAIT_SECONDS[i]? with
        | none => decide
        | some w =>
          have hmem : ∀ w ∈ WAIT_SECONDS, 0 < w := by decide
          exact hmem w (mem_of_getElem? hi)
      exact hall _

/-- The attempts with an odd number are refused, from the seventh on. -/
theorem waitSeconds_isSome_iff (k : Nat) : (waitSeconds k).isSome = true ↔ FREE_ATTEMPTS < k ∧ k % 2 = 1 := by
  simp only [waitSeconds, FREE_ATTEMPTS]
  by_cases hfree : k ≤ 6
  · simp [hfree]
  · by_cases hodd : (k - 6 - 1) % 2 = 1
    · simp only [hfree, hodd, if_true, if_false, Option.isSome_none, Bool.false_eq_true, false_iff]
      omega
    · simp only [hfree, hodd, if_false, Option.isSome_some, true_iff]
      omega

/-! ## Calls of the key -/

variable {call : Call}

theorem call_mem {id : Nat} (h : s.call id = some call) : call ∈ s.calls ∧ call.id = id := Table.get_mem Call.id h

theorem forall_goto {P : Call → Prop} {phase : Phase} (h : ∀ call ∈ s.calls, P call)
    (hnew : P { call with phase, since := s.clock }) : ∀ c ∈ (s.goto call phase).calls, P c := by
  intro c hc
  rcases Table.mem_replace Call.id hc with hrow | ⟨hc, -⟩
  · rw [hrow]
    exact hnew
  · exact h c hc

/-- What holds of each call while the rows change. -/
structure Call.Sound (s : State) (call : Call) : Prop where
  since : call.since ≤ s.clock
  recorded : ∀ endsAt ∈ call.recorded, endsAt ∈ s.recorded
  wait : ∀ w, call.phase = .blocking w → 0 < w
  /-- A block recorded before it began has elapsed, or is in the row that it has read. -/
  read : ∀ row, call.phase = .read row → ∀ endsAt ∈ call.recorded, endsAt ≤ s.clock
    ∨ ∃ block ∈ row, ∃ expire ∈ block.expire, endsAt ≤ expire
  passed : call.phase = .counting ∨ (∃ row, call.phase = .counted row)
    ∨ (∃ w, call.phase = .blocking w) ∨ (∃ row, call.phase = .blocked row) → ∀ endsAt ∈ call.recorded, endsAt ≤ s.clock
  admitted : ∀ time, call.phase = .answered none time → ∀ endsAt ∈ call.recorded, endsAt ≤ time

structure Recorded (s : State) : Prop where
  ids : (s.calls.map Call.id).Nodup
  /-- The row of the key is the last of its blocks. -/
  ends : ∀ endsAt ∈ s.recorded, ∃ row ∈ s.blocks, ∃ expire ∈ row.expire, endsAt ≤ expire
  calls : ∀ call ∈ s.calls, call.Sound s

theorem Call.Sound.mono {s' : State} (h : call.Sound s) (hclock : s.clock ≤ s'.clock)
    (hrecorded : ∀ endsAt ∈ s.recorded, endsAt ∈ s'.recorded) : call.Sound s' where
  since := h.since.trans hclock
  recorded := fun endsAt hends => hrecorded _ (h.recorded _ hends)
  wait := h.wait
  read := fun row hrow endsAt hends => by
    rcases h.read row hrow endsAt hends with hle | hblock
    · exact .inl (hle.trans hclock)
    · exact .inr hblock
  passed := fun hphase endsAt hends => (h.passed hphase endsAt hends).trans hclock
  admitted := h.admitted

theorem goto_ids (s : State) (call : Call) (phase : Phase) :
    (s.goto call phase).calls.map Call.id = s.calls.map Call.id :=
  Table.map_replace Call.id _ _

theorem goto_sound {phase : Phase} (hs : Recorded s)
    (hnew : ({ call with phase, since := s.clock } : Call).Sound s) :
    Recorded (s.goto call phase) where
  ids := (goto_ids s call phase).symm ▸ hs.ids
  ends := hs.ends
  calls := forall_goto (fun c hc => (hs.calls c hc).mono (Nat.le_refl _) fun _ h => h)
    (hnew.mono (Nat.le_refl _) fun _ h => h)

/-- A step after which the call has not passed its block, or has passed it before. -/
theorem Call.Sound.move (h : call.Sound s) {phase : Phase}
    (hwait : ∀ w, phase = .blocking w → 0 < w) (hread : ∀ row, phase ≠ .read row)
    (hpassed : ∀ endsAt ∈ call.recorded, (∀ answer, phase ≠ .answered (some answer) s.clock) →
      endsAt ≤ s.clock) (hanswered : ∀ answer time, phase = .answered answer time → time = s.clock) :
    ({ call with phase, since := s.clock } : Call).Sound s where
  since := Nat.le_refl _
  recorded := h.recorded
  wait := hwait
  read := fun row hrow => absurd hrow (hread row)
  passed := fun hphase endsAt hends => by
    refine hpassed endsAt hends fun answer hanswer => ?_
    simp [show phase = .answered (some answer) s.clock from hanswer] at hphase
  admitted := fun time htime endsAt hends => by
    rw [hanswered none time htime]
    refine hpassed endsAt hends fun answer hanswer => ?_
    have : phase = .answered none time := htime
    rw [this] at hanswer
    cases hanswer

theorem Recorded.statement {now : Time} (hs : Recorded s) (hcall : call ∈ s.calls)
    (hnow : now ≤ s.clock) : Recorded (statement s call now) := by
  have hsound := hs.calls call hcall
  cases hphase : call.phase with
  | reading =>
    simp only [Throttling.statement, hphase]
    refine goto_sound hs ⟨Nat.le_refl _, hsound.recorded, nofun, ?_, ?_, nofun⟩
    · intro row hrow endsAt hends
      cases hrow
      obtain ⟨block, hblock, expire, hexpire, hle⟩ := hs.ends endsAt (hsound.recorded _ hends)
      by_cases hin : now < expire
      · refine .inr ⟨block, ?_, expire, hexpire, hle⟩
        have hget : block.expire.all (fun expire => now < expire) = true := by
          rw [show block.expire = some expire from hexpire]
          simpa using hin
        rw [get, Option.mem_filter_iff]
        exact ⟨hblock, hget⟩
      · exact .inl (hle.trans ((Nat.le_of_not_lt hin).trans hnow))
    · rintro (h | ⟨_, h⟩ | ⟨_, h⟩ | ⟨_, h⟩) <;> cases h
  | counting =>
    simp only [Throttling.statement, hphase]
    have hs' : Recorded { s with
        attempts := some (upsert s.attempts 1 (ATTEMPT_LIFETIME_SECONDS * 1000) false now)
        counted := s.counted + 1 } :=
      ⟨hs.ids, hs.ends, fun c hc => (hs.calls c hc).mono (Nat.le_refl _) fun _ h => h⟩
    refine goto_sound hs' (Call.Sound.move (hs'.calls call hcall) nofun nofun ?_ nofun)
    exact fun endsAt hends _ => hsound.passed (.inl hphase) endsAt hends
  | blocking w =>
    have hpos : 0 < w * 1000 := Nat.mul_pos (hsound.wait w hphase) (by decide)
    simp only [Throttling.statement, hphase]
    generalize hrow : upsert s.blocks 1 (w * 1000) false now = row
    have hs' : Recorded { s with
        blocks := some row
        periods := if begins s.blocks now then row.expire.toList ++ s.periods else s.periods } := by
      cases hbegins : begins s.blocks now with
      | false =>
        obtain ⟨old, hold, hkept⟩ := upsert_kept hbegins 1 (w * 1000)
        refine ⟨hs.ids, ?_, fun c hc => (hs.calls c hc).mono (Nat.le_refl _) fun _ h => h⟩
        intro endsAt hends
        obtain ⟨block, hblock, expire, hexpire, hle⟩ := hs.ends endsAt hends
        refine ⟨row, rfl, expire, ?_, hle⟩
        rw [← hrow, hkept]
        rw [show s.blocks = some block from hblock] at hold
        cases hold
        exact hexpire
      | true =>
        rw [upsert_begun hbegins hpos] at hrow
        subst hrow
        have hold : ∀ endsAt ∈ s.recorded, endsAt ≤ now := by
          intro endsAt hends
          obtain ⟨block, hblock, expire, hexpire, hle⟩ := hs.ends endsAt hends
          rw [show s.blocks = some block from hblock] at hbegins
          simp only [begins, RateLimitRow.expired, show block.expire = some expire from hexpire,
            Option.all_some, Option.any_some, decide_eq_true_eq] at hbegins
          exact hle.trans hbegins
        refine ⟨hs.ids, ?_, fun c hc => (hs.calls c hc).mono (Nat.le_refl _) ?_⟩
        · intro endsAt hends
          refine ⟨_, rfl, _, rfl, ?_⟩
          have hcases : endsAt = now + w * 1000 ∨ endsAt ∈ s.recorded := by
            simpa [State.recorded, or_assoc] using hends
          rcases hcases with rfl | hends
          · exact Nat.le_refl _
          · exact (hold endsAt hends).trans (Nat.le_add_right _ _)
        · intro endsAt hends
          rcases mem_append.mp hends with hends | hends
          · simp [State.recorded, hends]
          · exact mem_append.mpr (.inr hends)
    refine goto_sound hs' (Call.Sound.move (hs'.calls call hcall) nofun nofun ?_ nofun)
    exact fun endsAt hends _ => hsound.passed (.inr (.inr (.inl ⟨w, hphase⟩))) endsAt hends
  | read | counted | blocked | answered => simpa [Throttling.statement, hphase] using hs

theorem Recorded.proceed (hs : Recorded s) (hcall : call ∈ s.calls) : Recorded (proceed s call) := by
  have hsound := hs.calls call hcall
  have hcounting : (∀ endsAt ∈ call.recorded, endsAt ≤ s.clock) →
      Recorded (s.goto call .counting) := fun h =>
    goto_sound hs (hsound.move nofun nofun (fun endsAt hends _ => h endsAt hends) nofun)
  cases hphase : call.phase with
  | read row =>
    cases row with
    | none =>
      simp only [Throttling.proceed, hphase, Option.map_none]
      refine hcounting fun endsAt hends => ?_
      rcases hsound.read none hphase endsAt hends with hle | ⟨block, hblock, -⟩
      · exact hle
      · cases hblock
    | some row =>
      simp only [Throttling.proceed, hphase, Option.map_some]
      split
      · refine goto_sound hs (hsound.move nofun nofun ?_ ?_)
        · exact fun endsAt hends hnone => absurd rfl (hnone _)
        · exact fun answer time h => by cases h; rfl
      · rename_i hnext
        refine hcounting fun endsAt hends => ?_
        rcases hsound.read (some row) hphase endsAt hends with hle | ⟨block, hblock, hin⟩
        · exact hle
        · cases hblock
          obtain ⟨expire, hexpire, hle⟩ := hin
          rw [getRateLimiterRes, show row.expire = some expire from hexpire] at hnext
          have helapsed : expire ≤ s.clock := by simpa using hnext
          exact hle.trans helapsed
  | counted row =>
    have hpassed := hsound.passed (.inr (.inl ⟨row, hphase⟩))
    simp only [Throttling.proceed, hphase]
    split
    · refine goto_sound hs (hsound.move nofun nofun (fun endsAt hends _ => hpassed endsAt hends) ?_)
      exact fun answer time h => by cases h; rfl
    · rename_i w hwait
      refine goto_sound hs (hsound.move ?_ nofun (fun endsAt hends _ => hpassed endsAt hends) nofun)
      exact fun _ h => by cases h; exact waitSeconds_pos hwait
  | blocked row =>
    simp only [Throttling.proceed, hphase]
    refine goto_sound hs (hsound.move nofun nofun ?_ ?_)
    · exact fun endsAt hends hnone => absurd rfl (hnone _)
    · exact fun answer time h => by cases h; rfl
  | reading | counting | blocking | answered => simpa [Throttling.proceed, hphase] using hs

theorem Recorded.exec {op : Op} (hs : Recorded s) (hop : enabled op s) : Recorded (exec op s) := by
  cases op with
  | begin id =>
    have hfresh : id ∉ s.calls.map Call.id := by
      intro hmem
      obtain ⟨call, hcall, rfl⟩ := List.mem_map.mp hmem
      have hfound := (Table.get_eq_some_iff Call.id hs.ids).mpr ⟨hcall, rfl⟩
      have hnone : s.call call.id = none := hop
      rw [State.call, hfound] at hnone
      cases hnone
    refine ⟨?_, hs.ends, ?_⟩
    · simp only [Throttling.exec, map_append, map_cons, map_nil]
      exact nodup_append'.mpr ⟨hs.ids, nodup_singleton _, by simpa using hfresh⟩
    · intro call hcall
      rcases mem_append.mp hcall with hcall | hcall
      · exact (hs.calls call hcall).mono (Nat.le_refl _) fun _ h => h
      · obtain rfl := mem_singleton.mp hcall
        refine ⟨Nat.le_refl _, fun _ h => h, nofun, nofun, ?_, nofun⟩
        rintro (h | ⟨_, h⟩ | ⟨_, h⟩ | ⟨_, h⟩) <;> cases h
  | statement id now =>
    obtain ⟨call, hcall, -, hnow⟩ := hop
    have hcall' : s.call id = some call := hcall
    simp only [Throttling.exec, hcall', Option.elim_some]
    exact hs.statement (call_mem hcall').1 hnow
  | proceed id =>
    obtain ⟨call, hcall⟩ := Option.isSome_iff_exists.mp hop
    simp only [Throttling.exec, hcall, Option.elim_some]
    exact hs.proceed (call_mem hcall).1
  | tick ms =>
    exact ⟨hs.ids, hs.ends, fun call hcall =>
      (hs.calls call hcall).mono (Nat.le_add_right _ _) fun _ h => h⟩

theorem Recorded.initial (clock : Time) (attempts : Option RateLimitRow)
    (inherited : Option (Nat × Time)) : Recorded (.initial clock attempts inherited) where
  ids := by simp [State.initial]
  ends := by
    intro endsAt hends
    cases inherited with
    | none => simp [State.recorded, State.initial] at hends
    | some block =>
      obtain rfl : endsAt = block.2 := by simpa [State.recorded, State.initial] using hends
      exact ⟨_, rfl, _, rfl, Nat.le_refl _⟩
  calls := by simp [State.initial]

/-! ## Counting attempts -/

/-- The statement that counts an attempt begins the lifetime of the attempts if it is
the first, and finds it running otherwise. -/
def OneLifetime (op : Op) (s : State) : Prop :=
  match op with
  | .statement id now => ∀ call ∈ s.call id, call.phase = .counting → (begins s.attempts now = true ↔ s.counted = 0)
  | _ => True

/-- A refused call that has not written its block yet. -/
def Call.owes (call : Call) : Bool :=
  match call.phase with
  | .counted row => (waitSeconds row.points).isSome
  | .blocking _ => true
  | _ => false

/-- A call that is admitted, or will be. -/
def Call.passes (call : Call) : Bool :=
  match call.phase with
  | .counted row => (waitSeconds row.points).isNone
  | .answered none _ => true
  | _ => false

/-- Where an attempt beyond the free ones is counted, no refused call has yet to write
its block, and no block is in force. -/
def Sequential (op : Op) (s : State) : Prop :=
  match op with
  | .statement id _ => ∀ call ∈ s.call id, call.phase = .counting → FREE_ATTEMPTS ≤ s.counted →
      (∀ call ∈ s.calls, call.owes = false) ∧ begins s.blocks s.clock = true
  | _ => True

/-- The refused ones among the first `k` attempts. -/
def refused (k : Nat) : Nat := (k - 5) / 2

theorem refused_succ (k : Nat) :
    refused (k + 1) = refused k + (if (waitSeconds (k + 1)).isSome then 1 else 0) := by
  by_cases hsome : (waitSeconds (k + 1)).isSome = true
  · have := (waitSeconds_isSome_iff (k + 1)).mp hsome
    simp only [hsome, if_true, refused, FREE_ATTEMPTS] at this ⊢
    omega
  · have heven : ¬(FREE_ATTEMPTS < k + 1 ∧ (k + 1) % 2 = 1) :=
      mt (waitSeconds_isSome_iff (k + 1)).mpr hsome
    rw [FREE_ATTEMPTS] at heven
    simp only [hsome, refused, Bool.false_eq_true, if_false]
    omega

structure Throttled (s : State) : Prop where
  recorded : Recorded s
  points : 0 < s.counted → ∃ row ∈ s.attempts, row.points = s.counted
  passing : s.calls.countP Call.passes + refused s.counted = s.counted
  owing : s.calls.countP Call.owes + s.periods.length = refused s.counted
  alone : s.calls.countP Call.owes ≤ 1
  free : ∀ call ∈ s.calls, call.owes = true → begins s.blocks call.since = true
  bounded : s.counted ≤ FREE_ATTEMPTS + refused s.counted + s.elapsed

theorem countP_goto (phase : Phase) (p : Call → Bool) (hs : Recorded s)
    (hcall : s.call call.id = some call) :
    (s.goto call phase).calls.countP p + (if p call then 1 else 0)
      = s.calls.countP p + (if p { call with phase, since := s.clock } then 1 else 0) :=
  Table.countP_replace Call.id p hs.ids hcall

theorem elapsed_mono {s' : State} (hclock : s.clock ≤ s'.clock) (hperiods : s.periods <:+ s'.periods) :
    s.elapsed ≤ s'.elapsed := by
  refine Nat.le_trans ?_ hperiods.sublist.countP_le
  exact countP_mono_left fun endsAt _ h => by
    have hle : endsAt ≤ s.clock := by simpa using h
    simpa using hle.trans hclock

theorem all_elapsed (hs : Recorded s) (h : begins s.blocks s.clock = true) : s.elapsed = s.periods.length := by
  refine countP_eq_length.mpr fun endsAt hends => ?_
  obtain ⟨row, hrow, expire, hexpire, hle⟩ := hs.ends endsAt (mem_append_left _ hends)
  rw [show s.blocks = some row from hrow] at h
  simp only [begins, RateLimitRow.expired, show row.expire = some expire from hexpire,
    Option.all_some, Option.any_some, decide_eq_true_eq] at h
  simpa using hle.trans h

/-- A step of one call that neither counts an attempt nor writes a block. -/
theorem Throttled.move {phase : Phase} (hs : Throttled s) (hcall : s.call call.id = some call)
    (hrecorded : Recorded (s.goto call phase)) (howes : ({ call with phase, since := s.clock } : Call).owes = call.owes)
    (hpasses : ({ call with phase, since := s.clock } : Call).passes = call.passes) :
    Throttled (s.goto call phase) := by
  have hmem := (call_mem hcall).1
  have howing : (s.goto call phase).calls.countP Call.owes = s.calls.countP Call.owes := by
    have := countP_goto phase Call.owes hs.recorded hcall
    rw [howes] at this
    omega
  have hpassing : (s.goto call phase).calls.countP Call.passes = s.calls.countP Call.passes := by
    have := countP_goto phase Call.passes hs.recorded hcall
    rw [hpasses] at this
    omega
  refine ⟨hrecorded, hs.points, ?_, ?_, ?_, forall_goto hs.free ?_, hs.bounded⟩
  · rw [hpassing]
    exact hs.passing
  · rw [howing]
    exact hs.owing
  · rw [howing]
    exact hs.alone
  · intro h
    rw [howes] at h
    exact begins_mono (hs.free call hmem h) (hs.recorded.calls call hmem).since

/-- The count of an attempt. -/
theorem Throttled.count {now : Time} (hs : Throttled s) (hcall : s.call call.id = some call)
    (hphase : call.phase = .counting) (hnow : now ≤ s.clock) (hlifetime : begins s.attempts now = true ↔ s.counted = 0)
    (hsequential : FREE_ATTEMPTS ≤ s.counted → (∀ call ∈ s.calls, call.owes = false) ∧ begins s.blocks s.clock = true) :
    Throttled (statement s call now) := by
  have hmem := (call_mem hcall).1
  have hrecorded : Recorded (statement s call now) := hs.recorded.statement hmem hnow
  simp only [statement, hphase] at hrecorded ⊢
  generalize hrow : upsert s.attempts 1 (ATTEMPT_LIFETIME_SECONDS * 1000) false now = row at hrecorded ⊢
  have hpoints : row.points = s.counted + 1 := by
    rcases Nat.eq_zero_or_pos s.counted with hzero | hpos
    · rw [upsert_begun (hlifetime.mpr hzero) (by decide)] at hrow
      rw [← hrow, hzero]
    · have hrunning : begins s.attempts now = false := by
        rw [Bool.eq_false_iff]
        exact fun h => Nat.ne_of_gt hpos (hlifetime.mp h)
      obtain ⟨old, hold, hkept⟩ := upsert_kept hrunning 1 (ATTEMPT_LIFETIME_SECONDS * 1000)
      obtain ⟨old', hold', hcounted⟩ := hs.points hpos
      rw [show s.attempts = some old from hold] at hold'
      cases hold'
      rw [← hrow, hkept, ← hcounted]
  have hnone : s.calls.countP Call.owes = 0 := by
    by_cases hfree : FREE_ATTEMPTS ≤ s.counted
    · exact countP_eq_zero.mpr fun c hc => by simp [(hsequential hfree).1 c hc]
    · have := hs.owing
      rw [FREE_ATTEMPTS] at hfree
      rw [refused] at this
      omega
  have hsucc := refused_succ s.counted
  have howing := countP_goto (.counted row) Call.owes hs.recorded hcall
  have hpassing := countP_goto (.counted row) Call.passes hs.recorded hcall
  simp only [Call.owes, hphase, hpoints, Bool.false_eq_true, if_false] at howing
  simp only [Call.passes, hphase, hpoints, Bool.false_eq_true, if_false] at hpassing
  have hbefore := hs.owing
  have hpassed := hs.passing
  refine ⟨hrecorded, fun _ => ⟨row, rfl, hpoints⟩, ?_, ?_, ?_, ?_, ?_⟩
  · change (s.goto call (.counted row)).calls.countP Call.passes + refused (s.counted + 1) = s.counted + 1
    rw [hsucc]
    cases hsome : waitSeconds (s.counted + 1) with
    | none =>
      simp only [hsome, Option.isNone_none, Option.isSome_none, if_true, Bool.false_eq_true, if_false] at hpassing ⊢
      omega
    | some w =>
      simp only [hsome, Option.isNone_some, Option.isSome_some, if_true, Bool.false_eq_true, if_false] at hpassing ⊢
      omega
  · change (s.goto call (.counted row)).calls.countP Call.owes + s.periods.length = refused (s.counted + 1)
    omega
  · change (s.goto call (.counted row)).calls.countP Call.owes ≤ 1
    split at howing <;> omega
  · refine forall_goto (fun c hc howes => ?_) fun howes => ?_
    · rw [countP_eq_zero] at hnone
      exact absurd howes (hnone c hc)
    · have hsome : (waitSeconds (s.counted + 1)).isSome = true := by
        simpa [Call.owes, hpoints] using howes
      have hbeyond := ((waitSeconds_isSome_iff (s.counted + 1)).mp hsome).1
      exact (hsequential (Nat.le_of_lt_succ hbeyond)).2
  · change s.counted + 1 ≤ FREE_ATTEMPTS + refused (s.counted + 1) + s.elapsed
    by_cases hfree : FREE_ATTEMPTS ≤ s.counted
    · rw [all_elapsed hs.recorded (hsequential hfree).2]
      rw [hnone] at hbefore
      simp only [FREE_ATTEMPTS, refused] at hfree hbefore ⊢
      omega
    · rw [FREE_ATTEMPTS] at hfree ⊢
      omega

/-- A refused call writes its block, and a block period begins. -/
theorem Throttled.block {now : Time} {w : Nat} (hs : Throttled s)
    (hcall : s.call call.id = some call) (hphase : call.phase = .blocking w)
    (hsince : call.since ≤ now) (hnow : now ≤ s.clock) : Throttled (statement s call now) := by
  have hmem := (call_mem hcall).1
  have howes : call.owes = true := by simp [Call.owes, hphase]
  have hbegins := begins_mono (hs.free call hmem howes) hsince
  have hpos : 0 < w * 1000 := Nat.mul_pos ((hs.recorded.calls call hmem).wait w hphase) (by decide)
  have hrecorded : Recorded (statement s call now) := hs.recorded.statement hmem hnow
  simp only [statement, hphase, hbegins, if_true, upsert_begun hbegins hpos, Option.toList_some]
    at hrecorded ⊢
  generalize (⟨1, some (now + w * 1000)⟩ : RateLimitRow) = row at hrecorded ⊢
  have howing := countP_goto (.blocked row) Call.owes hs.recorded hcall
  have hpassing := countP_goto (.blocked row) Call.passes hs.recorded hcall
  simp only [Call.owes, hphase, if_true, Bool.false_eq_true, if_false] at howing
  simp only [Call.passes, hphase, Bool.false_eq_true, if_false] at hpassing
  have hbefore := hs.owing
  have hpassed := hs.passing
  have halone := hs.alone
  have hnone : (s.goto call (.blocked row)).calls.countP Call.owes = 0 := by omega
  refine ⟨hrecorded, hs.points, ?_, ?_, Nat.le_trans (Nat.le_of_eq hnone) (Nat.zero_le _), ?_, ?_⟩
  · change (s.goto call (.blocked row)).calls.countP Call.passes + refused s.counted = s.counted
    omega
  · change (s.goto call (.blocked row)).calls.countP Call.owes
      + ([now + w * 1000] ++ s.periods).length = refused s.counted
    rw [length_append, length_singleton]
    omega
  · intro c hc hcowes
    rw [countP_eq_zero] at hnone
    exact absurd hcowes (hnone c hc)
  · have hmono : s.elapsed ≤ State.elapsed ({ s with
        blocks := some row, periods := [now + w * 1000] ++ s.periods }.goto call (.blocked row)) :=
      elapsed_mono (Nat.le_refl _) (suffix_append _ _)
    have := hs.bounded
    change s.counted ≤ FREE_ATTEMPTS + refused s.counted + _
    omega

theorem Throttled.statement {now : Time} (hs : Throttled s) (hcall : s.call call.id = some call)
    (hsince : call.since ≤ now) (hnow : now ≤ s.clock)
    (hlifetime : call.phase = .counting → (begins s.attempts now = true ↔ s.counted = 0))
    (hsequential : call.phase = .counting → FREE_ATTEMPTS ≤ s.counted →
      (∀ call ∈ s.calls, call.owes = false) ∧ begins s.blocks s.clock = true) :
    Throttled (statement s call now) := by
  have hrecorded : Recorded (Throttling.statement s call now) := hs.recorded.statement (call_mem hcall).1 hnow
  cases hphase : call.phase with
  | reading =>
    simp only [Throttling.statement, hphase] at hrecorded ⊢
    exact hs.move hcall hrecorded (by simp [Call.owes, hphase]) (by simp [Call.passes, hphase])
  | counting => exact hs.count hcall hphase hnow (hlifetime hphase) (hsequential hphase)
  | blocking w => exact hs.block hcall hphase hsince hnow
  | read | counted | blocked | answered => simpa [Throttling.statement, hphase] using hs

theorem Throttled.proceed (hs : Throttled s) (hcall : s.call call.id = some call) : Throttled (proceed s call) := by
  have hrecorded := hs.recorded.proceed (call_mem hcall).1
  cases hphase : call.phase with
  | read row =>
    simp only [Throttling.proceed, hphase] at hrecorded ⊢
    split
    · simp only [*] at hrecorded
      exact hs.move hcall hrecorded (by simp [Call.owes, hphase]) (by simp [Call.passes, hphase])
    · simp only [*] at hrecorded
      split
      · rename_i hnext
        rw [if_pos hnext] at hrecorded
        exact hs.move hcall hrecorded (by simp [Call.owes, hphase]) (by simp [Call.passes, hphase])
      · rename_i hnext
        rw [if_neg hnext] at hrecorded
        exact hs.move hcall hrecorded (by simp [Call.owes, hphase]) (by simp [Call.passes, hphase])
  | counted row =>
    simp only [Throttling.proceed, hphase, getRateLimiterRes] at hrecorded ⊢
    cases hwait : waitSeconds row.points with
    | none | some =>
      simp only [hwait] at hrecorded ⊢
      exact hs.move hcall hrecorded (by simp [Call.owes, hphase, hwait])
        (by simp [Call.passes, hphase, hwait])
  | blocked row =>
    simp only [Throttling.proceed, hphase] at hrecorded ⊢
    exact hs.move hcall hrecorded (by simp [Call.owes, hphase]) (by simp [Call.passes, hphase])
  | reading | counting | blocking | answered => simpa [Throttling.proceed, hphase] using hs

theorem Throttled.exec {op : Op} (hs : Throttled s) (hop : enabled op s)
    (hlifetime : OneLifetime op s) (hsequential : Sequential op s) : Throttled (exec op s) := by
  have hrecorded := hs.recorded.exec hop
  cases op with
  | begin id =>
    refine ⟨hrecorded, hs.points, ?_, ?_, ?_, ?_, hs.bounded⟩
    · simpa [Throttling.exec, Call.passes] using hs.passing
    · simpa [Throttling.exec, Call.owes] using hs.owing
    · simpa [Throttling.exec, Call.owes] using hs.alone
    · refine forall_mem_append.mpr ⟨hs.free, forall_mem_singleton.mpr ?_⟩
      intro howes
      cases howes
  | statement id now =>
    obtain ⟨call, hcall, hsince, hnow⟩ := hop
    have hfound : s.call id = some call := hcall
    obtain rfl := (call_mem hfound).2
    simp only [Throttling.exec, hfound, Option.elim_some]
    exact hs.statement hfound hsince hnow (hlifetime call hcall) (hsequential call hcall)
  | proceed id =>
    obtain ⟨call, hfound⟩ := Option.isSome_iff_exists.mp hop
    obtain rfl := (call_mem hfound).2
    simp only [Throttling.exec, hfound, Option.elim_some]
    exact hs.proceed hfound
  | tick ms =>
    refine ⟨hrecorded, hs.points, hs.passing, hs.owing, hs.alone, hs.free, ?_⟩
    have hmono : s.elapsed ≤ (Throttling.exec (.tick ms) s).elapsed :=
      elapsed_mono (Nat.le_add_right _ _) (suffix_refl _)
    exact hs.bounded.trans (Nat.add_le_add_left hmono _)

theorem Throttled.initial (clock : Time) (attempts : Option RateLimitRow)
    (inherited : Option (Nat × Time)) : Throttled (.initial clock attempts inherited) where
  recorded := .initial clock attempts inherited
  points := nofun
  passing := by simp [State.initial, refused]
  owing := by simp [State.initial, refused]
  alone := Nat.zero_le _
  free := nofun
  bounded := Nat.zero_le _

theorem Throttled.admitted_le (hs : Throttled s) : s.admitted ≤ FREE_ATTEMPTS + s.elapsed := by
  have hle : s.admitted ≤ s.calls.countP Call.passes := by
    refine countP_mono_left fun call _ h => ?_
    cases hphase : call.phase with
    | answered retryAfter time =>
      cases retryAfter with
      | none => simp [Call.passes, hphase]
      | some _ => simp [hphase] at h
    | _ => simp [hphase] at h
  have hpassing := hs.passing
  have hbounded := hs.bounded
  omega

/-! ## Runs -/

/-- **Throttling.** A call is admitted only when every block recorded before it began has
elapsed. In one lifetime of the attempts, where no attempt beyond the free ones is counted
before the block of the last refused call has been written and has elapsed, the admitted calls
are at most the free ones and one for each elapsed block. -/
theorem throttling {clock : Time} {attempts : Option RateLimitRow} {inherited : Option (Nat × Time)} :
    (limiter.Reachable (.initial clock attempts inherited) s →
      ∀ call ∈ s.calls, ∀ time, call.phase = .answered none time → ∀ endsAt ∈ call.recorded, endsAt ≤ time)
    ∧ (((limiter.restrict OneLifetime).restrict Sequential).Reachable
        (.initial clock attempts inherited) s →
      s.admitted ≤ FREE_ATTEMPTS + s.elapsed) := by
  constructor
  · intro h
    have hs : Recorded s := h.invariant (.initial clock attempts inherited) fun _ _ hop hs => hs.exec hop
    exact fun call hcall => (hs.calls call hcall).admitted
  · intro h
    have hs : Throttled s := h.invariant (.initial clock attempts inherited)
      fun _ _ hop hs => hs.exec hop.1.1 hop.1.2 hop.2
    exact hs.admitted_le

instance (op : Op) (s : State) : Decidable (OneLifetime op s) :=
  match op with
  | .statement id now => inferInstanceAs (Decidable (∀ call ∈ s.call id, call.phase = .counting →
      (begins s.attempts now = true ↔ s.counted = 0)))
  | .begin _ | .proceed _ | .tick _ => .isTrue trivial

instance (op : Op) (s : State) : Decidable (Sequential op s) :=
  match op with
  | .statement id _ => inferInstanceAs (Decidable (∀ call ∈ s.call id, call.phase = .counting →
      FREE_ATTEMPTS ≤ s.counted →
      (∀ call ∈ s.calls, call.owes = false) ∧ begins s.blocks s.clock = true))
  | .begin _ | .proceed _ | .tick _ => .isTrue trivial

instance (op : Op) (s : State) : Decidable (limiter.enabled op s) :=
  inferInstanceAs (Decidable (enabled op s))

instance (op : Op) (s : State) : Decidable ((limiter.restrict OneLifetime).enabled op s) :=
  inferInstanceAs (Decidable (_ ∧ _))

instance (op : Op) (s : State) :
    Decidable (((limiter.restrict OneLifetime).restrict Sequential).enabled op s) :=
  inferInstanceAs (Decidable (_ ∧ _))

/-- A call that runs alone at the time `now`; a refused one takes two more steps. -/
def callOps (id : Nat) (now : Time) : List Op :=
  [.begin id, .statement id now, .proceed id, .statement id now, .proceed id]

def freeCalls : List Op := [1, 2, 3, 4, 5, 6].flatMap fun id => callOps id 0

/-- The seventh call is refused, and the eighth is admitted after the block. -/
def exampleOps : List Op :=
  freeCalls ++ callOps 7 0 ++ [.statement 7 0, .proceed 7, .tick 300000] ++ callOps 8 300000

def exampleStart : State := .initial 0 none none

theorem throttling_example :
    (∀ call ∈ (limiter.after exampleOps exampleStart).calls, ∀ time,
      call.phase = .answered none time → ∀ endsAt ∈ call.recorded, endsAt ≤ time)
    ∧ (limiter.after exampleOps exampleStart).admitted
      ≤ FREE_ATTEMPTS + (limiter.after exampleOps exampleStart).elapsed :=
  ⟨throttling.1 ⟨exampleOps, by decide, rfl⟩, throttling.2 ⟨exampleOps, by decide, rfl⟩⟩

/-- Two calls find no block; the first is refused, and the second has the next number. -/
def parallelOps : List Op :=
  freeCalls ++ [.begin 7, .begin 8, .statement 7 0, .statement 8 0, .proceed 7, .proceed 8,
    .statement 7 0, .statement 8 0, .proceed 8]

theorem parallel_call_admitted : (limiter.restrict OneLifetime).Valid parallelOps exampleStart ∧
    (limiter.after parallelOps exampleStart).admitted = FREE_ATTEMPTS + 1 ∧
    (limiter.after parallelOps exampleStart).elapsed = 0 := by
  decide

end TsEpistle.Throttling
