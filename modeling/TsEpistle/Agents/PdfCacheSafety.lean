import TsEpistle.Agents.PdfCacheBuilds

/-! The PDF cache never pulls a leased file away: what holds after every call of every run in which directories can be
removed and the cleanups of builds do not reject, and what a cleanup that rejects leaves. -/

namespace TsEpistle.Agents.PdfCache
open Library Work List

variable {κ : Type} [DecidableEq κ] {config : Config κ} {small : Prop} {live : List (Lease κ)}
  {directory : AList fun _ : Name κ => Folder}

/-! ## Leases -/

/-- The parts go on from page to page, and the files were what they say. -/
structure Fine (config : Config κ) (lease : Lease κ) : Prop where
  tiles : tilesFrom lease.pageCount 1 lease.parts = some (lease.pageCount + 1)
  files : ∀ part ∈ lease.parts, partMatches config lease.folder part = true

/-- The pages of the parts, one after the other. -/
def pagesOf (parts : List Part) : List Nat :=
  parts.flatMap fun part => List.range' part.startPage (part.endPage + 1 - part.startPage)

theorem pagesOf_tiles {pageCount next last : Nat} {parts : List Part} (h : tilesFrom pageCount next parts = some last) :
    next ≤ last ∧ pagesOf parts = List.range' next (last - next) := by
  induction parts generalizing next with
  | nil =>
    cases h
    exact ⟨Nat.le_refl _, by simp [pagesOf]⟩
  | cons part parts ih =>
    unfold tilesFrom at h
    split at h
    · cases h
    · next hpart =>
      simp only [Bool.or_eq_true, decide_eq_true_eq, not_or, not_not, Nat.not_lt, ne_eq] at hpart
      obtain ⟨⟨hstart, hend⟩, -⟩ := hpart
      obtain ⟨hle, hpages⟩ := ih h
      refine ⟨by omega, ?_⟩
      change List.range' _ _ ++ pagesOf parts = _
      rw [hpages, hstart]
      have hjoin := range'_append_1 (s := next) (m := part.endPage + 1 - next) (n := last - (part.endPage + 1))
      rw [show next + (part.endPage + 1 - next) = part.endPage + 1 by omega] at hjoin
      rw [hjoin]
      congr 1
      omega

theorem leads_takeLease (entry : Entry κ) : Leads (Usable config small live entry) (takeLease config entry)
    (fun lease world => Sound config small (live ++ [lease]) world ∧ Fine config lease ∧ lease.released = false)
    (Sound config small live) := by
  have hsteady : Steady (Usable config small live entry) := Usable.steady
  unfold takeLease
  refine ((leads_throwIfAborted hsteady).weaken (fun _ h => h) (fun _ _ h => h) fun _ h => h.sound).bind fun _ => ?_
  refine (leads_ask hsteady).bind fun answer => ?_
  let leased (world : World κ) : World κ := world.update entry.serial fun entry =>
    { entry with leases := entry.leases + 1, manifest := { entry.manifest with usedAt := answer.now } }
  refine Leads.bind (Q := fun _ world => ∃ before, Usable config small live entry before ∧ world = leased before)
    (leads_modify fun world h => ⟨world, h.1, rfl⟩) fun _ => ?_
  refine leads_get_bind fun world => leads_pure ?_
  rintro _ ⟨⟨before, h, rfl⟩, rfl⟩
  cases hlookup : before.directory.lookup (.entry entry.key) with
  | none =>
    have hfiles := h.files
    rw [hlookup] at hfiles
    exact Bool.noConfusion hfiles
  | some folder =>
    have hfiles := h.files
    rw [hlookup] at hfiles
    simp only [filesMatch, Bool.and_eq_true, decide_eq_true_eq, all_eq_true] at hfiles
    have hfolder : ((leased before).directory.lookup (.entry entry.key)).getD ⟨[], none, false⟩ = folder := by
      change (before.directory.lookup (.entry entry.key)).getD _ = folder
      rw [hlookup]
      rfl
    refine ⟨Core.leased h.sound h.mapped rfl rfl ?_ answer.now, ⟨hfiles.1, ?_⟩, rfl⟩
    · rw [hlookup, hfolder]
    · rw [hfolder]
      exact hfiles.2

/-! ## Calls -/

theorem Ready.steady : Steady (Ready config directory live) := by
  rintro world n (h | h)
  · exact .inl (Sound.steady _ n h)
  · exact .inr (Unloaded.steady _ n h)

theorem leads_sweep (hclean : Clean config.oracle) (filter : Option Filter) : Leads (Ready config directory live)
    (sweep config filter) (fun _ => Ready config directory live) (Ready config directory live) := by
  refine (leads_load hclean).bind fun _ => leads_get_bind fun start => ?_
  refine (leads_filter hclean filter start).bind fun _ => ?_
  exact (leads_sweepEntries hclean).weaken (fun _ h => h) (fun _ _ h => .inl h) fun _ h => h

theorem leads_acquire (hclean : Clean config.oracle) (source : AgentPdfCacheSource) (accepted : Bool)
    (build : Option PreparedAgentPdf) :
    Leads (Ready config directory live) (acquire config source accepted build)
      (fun lease world => Sound config (directory = ∅) (live ++ [lease]) world ∧ Fine config lease
        ∧ lease.released = false)
      (Ready config directory live) := by
  have hsound : Steady (Sound config (directory = ∅) live) := Sound.steady
  unfold acquire
  refine (leads_throwIfAborted Ready.steady).bind fun _ => leads_ite (fun _ => leads_throw fun _ h => h) fun _ => ?_
  refine (leads_load hclean).bind fun _ => ?_
  refine Leads.weaken (P := Sound config (directory = ∅) live) (E := Sound config (directory = ∅) live) ?_
    (fun _ h => h) (fun _ _ h => h) fun _ h => .inl h
  refine (leads_sweepEntries hclean).bind fun _ => (leads_authorize hsound source).bind fun _ => ?_
  refine (leads_currentEntry hclean (config.keyFor source)).bind fun current => ?_
  cases current with
  | none => exact (leads_store hclean source build).bind leads_takeLease
  | some entry => exact leads_ite (fun _ => leads_throw fun _ h => h.sound) fun _ => leads_takeLease entry

variable {lease : Lease κ}

/-- What a lease that comes back leaves: with the last one an entry goes that is retired or expired. -/
theorem leads_release {E : World κ → Prop} (hclean : Clean config.oracle) {start : World κ}
    (hstart : Sound config small (lease :: live) start) :
    Leads (fun world => world = start) (release config lease) (fun _ world => Sound config small live world
      ∧ ((∀ other ∈ live, other.serial ≠ lease.serial) → ∀ entry ∈ start.mapped, entry.serial = lease.serial →
        (entry.retiring = true ∨ entry.manifest.createdAt + config.ttlMs ≤ (config.oracle start.asked).now) →
          (∀ other ∈ world.mapped, other.key ≠ lease.key) ∧ Name.entry lease.key ∉ world.directory)) E := by
  have hafter := Core.unleased hstart
  obtain ⟨held, hheld, hserial, hkey⟩ := hstart.held lease mem_cons_self
  let change (entry : Entry κ) : Entry κ := { entry with leases := entry.leases - 1 }
  let after : World κ := start.update lease.serial change
  have hmapped : change held ∈ after.mapped := by
    have hlist : after.mapped = _ := mapped_update start lease.serial fun _ => rfl
    rw [hlist]
    exact mem_map.mpr ⟨held, hheld, if_pos hserial⟩
  unfold release
  refine Leads.bind (Q := fun _ world => world = after) (leads_modify fun world h => h ▸ rfl) fun _ => ?_
  refine leads_get_bind fun world => ?_
  by_cases hworld : world = after
  swap
  · exact fun _ h => (hworld (h.2.symm.trans h.1)).elim
  subst hworld
  split
  · next hfind =>
    exact absurd (decide_eq_true hserial) (find?_eq_none.mp hfind (change held) (mem_mapped.mp hmapped).1)
  · next leased hfind =>
    have hleased : leased = change held := by
      have heq : leased.serial = lease.serial := by simpa using find?_some hfind
      exact inj_on_of_nodup_map hafter.serials (mem_of_find?_eq_some hfind) (mem_mapped.mp hmapped).1
        (heq.trans hserial.symm)
    subst hleased
    -- the entry that the lease was of is the one that may go
    have hsame : ∀ entry ∈ start.mapped, entry.serial = lease.serial → entry = held :=
      fun entry hentry heq => hstart.eq_of_serial hheld hentry (heq.trans hserial.symm)
    refine Leads.bind ((leads_ask_next after).weaken (fun _ h => h.1) (fun _ _ h => h) fun _ h => h) fun answer => ?_
    refine leads_ite (fun _ => ?_) fun hkeep => leads_pure ?_
    · refine leads_remove hclean (fun _ n h => ⟨Sound.steady _ n h.1, h.2⟩) ?_
      rintro _ ⟨rfl, rfl⟩
      refine ⟨Core.removed (hafter.asked _) hmapped fun serial heq => ?_, fun hlast entry hentry heq _ => ?_⟩
      · rw [← Option.some.inj heq]
        exact hserial.symm
      · have hnone : (change held).leases = 0 := by
          rw [hafter.counted _ hmapped, countP_eq_zero.mpr fun other hother heq => ?_]
          · rfl
          · exact hlast other hother ((of_decide_eq_true heq).trans hserial)
        rw [← hkey]
        exact gone_removed hnone
    · rintro _ ⟨rfl, rfl⟩
      simp only [Bool.or_eq_true, decide_eq_true_eq, not_or] at hkeep
      refine ⟨?_, fun _ entry hentry heq hgone => ?_⟩
      · refine (hafter.asked _).unskip fun entry hentry heq hretiring => hkeep.1 ?_
        rwa [hafter.eq_of_serial hmapped hentry (heq.trans hserial.symm)] at hretiring
      · rw [hsame entry hentry heq] at hgone
        exact (hgone.elim hkeep.1 hkeep.2).elim

/-! ## Runs -/

/-- The leases that have not come back. -/
def State.out (state : State κ) : List (Lease κ) := state.leases.filter fun lease => !lease.released

variable {state : State κ}

theorem State.mem_out : lease ∈ state.out ↔ lease ∈ state.leases ∧ lease.released = false := by
  simp [State.out]

omit [DecidableEq κ] in
/-- A lease that comes back is no longer out. -/
theorem live_set {leases : List (Lease κ)} {index : Nat} (hlease : leases[index]? = some lease)
    (hreleased : lease.released = false) :
    (leases.filter fun lease => !lease.released).Perm
      (lease :: (leases.set index { lease with released := true }).filter fun lease => !lease.released) := by
  induction leases generalizing index with
  | nil => cases hlease
  | cons first leases ih =>
    cases index with
    | zero =>
      cases hlease
      simp [hreleased]
    | succ index =>
      have hrest := ih hlease
      rw [set_cons_succ]
      cases hfirst : first.released with
      | true => simpa [hfirst] using hrest
      | false =>
        simp only [filter_cons, hfirst, Bool.not_false, if_true]
        exact (hrest.cons first).trans (Perm.swap lease first _)

structure Safe (config : Config κ) (directory : AList fun _ : Name κ => Folder) (state : State κ) : Prop where
  ready : Ready config directory state.out state.world
  fine : ∀ lease ∈ state.leases, Fine config lease

theorem Ready.oracle {world : World κ} (h : Ready config directory live world) (oracle : Nat → Answer) :
    Ready { config with oracle := oracle } directory live world :=
  h.imp_left fun h => Core.oracle h oracle

omit [DecidableEq κ] in
theorem Fine.oracle (h : Fine config lease) (oracle : Nat → Answer) : Fine { config with oracle := oracle } lease :=
  ⟨h.tiles, h.files⟩

theorem Safe.oracle (h : Safe config directory state) (oracle : Nat → Answer) :
    Safe { config with oracle := oracle } directory state :=
  ⟨h.ready.oracle oracle, fun lease hlease => (h.fine lease hlease).oracle oracle⟩

/-- A lease that is out tells that the directory has been read. -/
theorem Safe.sound (h : Safe config directory state) (hlease : lease ∈ state.out) :
    Sound config (directory = ∅) state.out state.world := by
  rcases h.ready with h | h
  · exact h
  · rw [h.live] at hlease
    exact (not_mem_nil hlease).elim

/-- What a call of `cleanup` does when it is the first one of its lease. -/
theorem Safe.cleanup (hclean : Clean config.oracle) (h : Safe config directory state) {index : Nat}
    (hlease : state.leases[index]? = some lease) (hreleased : lease.released = false) :
    Sound config (directory = ∅) (exec config (.cleanup index) state).out (exec config (.cleanup index) state).world
      ∧ ((∀ other ∈ (exec config (.cleanup index) state).out, other.serial ≠ lease.serial) →
        ∀ entry ∈ state.world.mapped, entry.serial = lease.serial →
          (entry.retiring = true ∨ entry.manifest.createdAt + config.ttlMs ≤ (config.oracle state.world.asked).now) →
            (∀ other ∈ (exec config (.cleanup index) state).world.mapped, other.key ≠ lease.key)
            ∧ Name.entry lease.key ∉ (exec config (.cleanup index) state).world.directory) := by
  have hexec : exec config (.cleanup index) state = ⟨((release config lease).run.run state.world).2,
      state.leases.set index { lease with released := true }⟩ := by
    simp only [exec, hlease, hreleased]
    rfl
  have hsound := h.sound (State.mem_out.mpr ⟨mem_of_getElem? hlease, hreleased⟩)
  have hstart : Sound config (directory = ∅) _ state.world := Core.perm hsound (live_set hlease hreleased)
  have hends := leads_release (E := fun _ => False) hclean hstart state.world rfl
  rw [hexec]
  revert hends
  match (release config lease).run.run state.world with
  | (.ok (), world) => exact id
  | (.error _, world) => exact False.elim

theorem Safe.exec (hclean : Clean config.oracle) (h : Safe config directory state)
    (operation : Operation) : Safe config directory (exec config operation state) := by
  cases operation with
  | acquire source accepted build =>
    have hends := leads_acquire hclean source accepted build state.world h.ready
    simp only [PdfCache.exec]
    revert hends
    match (acquire config source accepted build).run.run state.world with
    | (.ok lease, world) =>
      rintro ⟨hsound, hfine, hreleased⟩
      refine ⟨.inl ?_, fun other hother => ?_⟩
      · have hout : State.out ⟨world, state.leases ++ [lease]⟩ = state.out ++ [lease] := by
          simp [State.out, hreleased]
        rw [hout]
        exact hsound
      · rcases mem_append.mp hother with hother | hother
        · exact h.fine other hother
        · rw [mem_singleton.mp hother]
          exact hfine
    | (.error _, world) => exact fun hready => ⟨hready, h.fine⟩
  | cleanup index =>
    cases hlease : state.leases[index]? with
    | none =>
      simp only [PdfCache.exec, hlease]
      exact h
    | some lease =>
      cases hreleased : lease.released with
      | true =>
        simp only [PdfCache.exec, hlease, hreleased, if_true]
        exact h
      | false =>
        refine ⟨.inl (h.cleanup hclean hlease hreleased).1, fun other hother => ?_⟩
        simp only [PdfCache.exec, hlease, hreleased, Bool.false_eq_true, if_false] at hother
        rcases mem_or_eq_of_mem_set hother with hother | rfl
        · exact h.fine other hother
        · have hfine := h.fine lease (mem_of_getElem? hlease)
          exact ⟨hfine.tiles, hfine.files⟩
  | sweep filter =>
    have hends := leads_sweep hclean filter state.world h.ready
    refine ⟨?_, h.fine⟩
    simp only [PdfCache.exec]
    revert hends
    match (sweep config filter).run.run state.world with
    | (.ok (), world) => exact id
    | (.error _, world) => exact id

/-- What the cache promises. -/
structure Protected (config : Config κ) (directory : AList fun _ : Name κ => Folder) (state : State κ) : Prop where
  /-- What a lease was of stays until it comes back. -/
  kept : ∀ lease ∈ state.leases, lease.released = false →
    state.world.directory.lookup (.entry lease.key) = some lease.folder
  /-- The parts of a lease are its pages, and the digests of their files are theirs. -/
  complete : ∀ lease ∈ state.leases, pagesOf lease.parts = List.range' 1 lease.pageCount
    ∧ ∀ part ∈ lease.parts, ∃ file, lease.folder.files.lookup part.filename = some file
      ∧ file.content.length = part.byteLength ∧ config.digest file.content = part.sha256
  /-- The budgets. -/
  bounded : directory = ∅ → Bounded config state.world
  /-- There are directories for the entries and no others. -/
  agree : state.world.loaded = true ∨ directory = ∅ →
    ∀ name, name ∈ state.world.directory ↔ ∃ entry ∈ state.world.mapped, name = .entry entry.key
  /-- What has been retired waits for leases. -/
  retired : ∀ entry ∈ state.world.mapped, entry.retiring = true →
    ∃ lease ∈ state.leases, lease.released = false ∧ lease.serial = entry.serial
  /-- With its last lease an entry goes that is retired or expired. -/
  gone : ∀ index lease, state.leases[index]? = some lease → lease.released = false → ∀ oracle, Clean oracle →
    let next := exec { config with oracle := oracle } (.cleanup index) state
    (∀ other ∈ next.leases, other.released = false → other.serial ≠ lease.serial) →
      ∀ entry ∈ state.world.mapped, entry.serial = lease.serial →
        (entry.retiring = true ∨ entry.manifest.createdAt + config.ttlMs ≤ (oracle state.world.asked).now) →
          (∀ other ∈ next.world.mapped, other.key ≠ lease.key) ∧ Name.entry lease.key ∉ next.world.directory

omit [DecidableEq κ] in
theorem Fine.complete (h : Fine config lease) : pagesOf lease.parts = List.range' 1 lease.pageCount
    ∧ ∀ part ∈ lease.parts, ∃ file, lease.folder.files.lookup part.filename = some file
      ∧ file.content.length = part.byteLength ∧ config.digest file.content = part.sha256 := by
  refine ⟨?_, fun part hpart => ?_⟩
  · have hpages := (pagesOf_tiles h.tiles).2
    rwa [Nat.add_sub_cancel] at hpages
  · have hfile := h.files part hpart
    unfold partMatches at hfile
    split at hfile
    · cases hfile
    · next file hlookup =>
      simp only [Bool.and_eq_true, decide_eq_true_eq] at hfile
      exact ⟨file, hlookup, hfile.1.2, hfile.2⟩

theorem Safe.protected (h : Safe config directory state) : Protected config directory state where
  kept lease hlease hreleased := by
    have hout := State.mem_out.mpr ⟨hlease, hreleased⟩
    exact Core.kept (h.sound hout) lease hout
  complete lease hlease := (h.fine lease hlease).complete
  bounded hempty := by
    rcases h.ready with h | h
    · exact Core.bounded h hempty
    · rw [Bounded, World.mapped, h.objects]
      exact ⟨Nat.zero_le _, fun _ => Nat.zero_le _⟩
  agree hloaded name := by
    rcases h.ready with h | h
    · exact Core.agree h name id
    · rcases hloaded with hloaded | hempty
      · exact absurd hloaded (Bool.eq_false_iff.mp h.flag)
      · rw [h.directory, hempty, World.mapped, h.objects]
        refine ⟨fun hmem => (AList.notMem_empty name hmem).elim, ?_⟩
        rintro ⟨entry, hentry, -⟩
        exact (not_mem_nil hentry).elim
  retired entry hentry hretiring := by
    rcases h.ready with h | h
    · have hleases := (Core.retired h entry hentry hretiring).resolve_right fun hnone =>
        Option.some_ne_none _ hnone.symm
      rw [Core.counted h entry hentry] at hleases
      have hcount : 0 < state.out.countP (·.serial = entry.serial) := by omega
      obtain ⟨lease, hlease, hserial⟩ := countP_pos_iff.mp hcount
      obtain ⟨hmem, hreleased⟩ := State.mem_out.mp hlease
      exact ⟨lease, hmem, hreleased, of_decide_eq_true hserial⟩
    · rw [World.mapped, h.objects] at hentry
      exact (not_mem_nil hentry).elim
  gone index lease hlease hreleased oracle hclean := by
    intro next hlast entry hentry hserial hgone
    refine ((h.oracle oracle).cleanup hclean hlease hreleased).2 (fun other hother => ?_) entry hentry hserial hgone
    obtain ⟨hmem, hother⟩ := State.mem_out.mp hother
    exact hlast other hmem hother

/-- In every run of calls in which directories can be removed and cleanups of builds do not reject, the cache keeps
what it promises. -/
theorem leases_protected {state : State κ}
    (h : ((cache config).restrict fun call _ => Clean call.2).Reachable (State.initial directory) state) :
    Protected config directory state := by
  have hstart : Safe config directory (State.initial directory) := by
    refine ⟨.inr ⟨rfl, rfl, rfl, rfl⟩, fun _ hlease => ?_⟩
    exact (not_mem_nil hlease).elim
  refine (h.invariant hstart fun call state hcall hsafe => ?_).protected
  exact ((hsafe.oracle call.2).exec hcall.2 call.1).oracle config.oracle

/-- Sources are their own keys, and contents their own digests. -/
def exampleConfig : Config AgentPdfCacheSource where
  keyFor := id
  digest content := content.map UInt8.toUInt16
  globalBytes := 2 * 1024 ^ 3
  ownerBytes := 1024 ^ 3
  ttlMs := 6 * 3600000
  oracle _ := ⟨0, true, false, true, true, true⟩

/-- Nothing fails at this time. -/
def exampleAnswers (now : ℚ) (_ : Nat) : Answer := ⟨now, true, false, true, true, true⟩

/-- The call is aborted before the first part is copied, and the cleanup of the build rejects. -/
def rejectingAnswers (n : Nat) : Answer := ⟨0, true, n = 9, true, true, false⟩

def exampleSource : AgentPdfCacheSource := ⟨js "source", js "session", 7, js "digest", 3⟩

def exampleBuild : PreparedAgentPdf := ⟨3, [⟨[1, 2], 1, 2, 2⟩, ⟨[3], 3, 3, 1⟩]⟩

/-- A source is acquired twice, and a lease comes back when the entry has expired. -/
def exampleCalls : List (Operation × (Nat → Answer)) :=
  [(.acquire exampleSource true (some exampleBuild), exampleAnswers 0),
    (.acquire exampleSource true none, exampleAnswers 1), (.cleanup 0, exampleAnswers (7 * 3600000))]

theorem leases_protected_example : Protected exampleConfig ∅ ((cache exampleConfig).after exampleCalls (.initial ∅)) ∧
    ((cache exampleConfig).after exampleCalls (.initial ∅)).leases.map (·.released) = [true, false] :=
  ⟨leases_protected ⟨exampleCalls, ⟨⟨trivial, fun _ => ⟨rfl, rfl⟩⟩, ⟨trivial, fun _ => ⟨rfl, rfl⟩⟩,
    ⟨trivial, fun _ => ⟨rfl, rfl⟩⟩, trivial⟩, rfl⟩, by decide +kernel⟩

/-- The directory of the build stays when its cleanup rejects. -/
theorem rejected_cleanup_leaves_directory : ∃ state : State AgentPdfCacheSource,
    (cache exampleConfig).Reachable (.initial ∅) state ∧ Name.pending exampleSource ∈ state.world.directory := by
  refine ⟨_, ⟨[(.acquire exampleSource true (some exampleBuild), rejectingAnswers)], ⟨trivial, trivial⟩, rfl⟩, ?_⟩
  rw [← AList.lookup_isSome]
  decide +kernel

end TsEpistle.Agents.PdfCache
