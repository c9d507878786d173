import TsEpistle.Agents.PdfCacheCalls

/-! What acquiring and releasing files of the PDF cache keep: the parts of a build are in a directory of their own until
they are complete, and a lease is taken of files that have been checked. -/

namespace TsEpistle.Agents.PdfCache
open Library Work List

variable {κ : Type} [DecidableEq κ] {config : Config κ} {small : Prop} {live : List (Lease κ)} {world : World κ}

/-! ## The files of an entry -/

/-- An entry whose files have been checked. -/
structure Usable (config : Config κ) (small : Prop) (live : List (Lease κ)) (entry : Entry κ) (world : World κ) :
    Prop where
  sound : Sound config small live world
  mapped : entry ∈ world.mapped
  files : filesMatch config entry.manifest (world.directory.lookup (.entry entry.key)) = true

theorem Usable.steady {entry : Entry κ} : Steady (Usable config small live entry) :=
  fun _ n h => ⟨Core.asked h.sound n, h.mapped, h.files⟩

/-- What `currentEntry` answers. -/
def Current (config : Config κ) (small : Prop) (live : List (Lease κ)) (key : κ) :
    Option (Entry κ) → World κ → Prop
  | none => Ahead config small live (some key) []
  | some entry => Usable config small live entry

theorem leads_currentEntry (hclean : Clean config.oracle) (key : κ) : Leads (Sound config small live)
    (currentEntry config key) (Current config small live key) (Sound config small live) := by
  refine leads_get_bind fun start => ?_
  split
  · next hfind =>
    refine leads_pure ?_
    rintro world ⟨h, rfl⟩
    have habsent := find?_eq_none.mp hfind
    exact h.alone fun entry hentry heq => habsent entry hentry (decide_eq_true (Option.some.inj heq).symm)
  · next entry hfind =>
    let found (world : World κ) : Prop := Sound config small live world ∧ entry ∈ world.mapped
    have hfound : Steady found := fun _ n h => ⟨Sound.steady _ n h.1, h.2⟩
    have hvalid : Leads found (validFiles config entry) _ (Sound config small live) := leads_validFiles hfound entry
    refine (hvalid.weaken ?_ (fun _ _ h => h) fun _ h => h).bind fun valid => ?_
    · rintro world ⟨h, rfl⟩
      exact ⟨h, mem_of_find?_eq_some hfind⟩
    · refine leads_ite (fun hvalid => leads_pure fun world h => ⟨h.1.1, h.1.2, (h.2 hvalid).1⟩) fun _ => ?_
      have hkey : entry.key = key := by simpa using find?_some hfind
      let gone (world : World κ) : Prop :=
        Sound config small live world ∧ (entry.leases = 0 → ∀ other ∈ world.mapped, other.key ≠ entry.key)
      have hgone : Steady gone := fun _ n h => ⟨Sound.steady _ n h.1, h.2⟩
      refine Leads.bind (leads_remove hclean hgone fun world h => ?_) fun _ => ?_
      · refine ⟨Core.removed h.1.1 h.1.2 fun _ hnone => (Option.some_ne_none _ hnone.symm).elim,
        fun hleases other hother => ?_⟩
        exact (key_of_mem_removed hother).1.resolve_left (not_not.mpr hleases)
      · refine leads_ite (fun _ => leads_throw fun _ h => h.1) fun hleases => leads_pure fun world h => ?_
        refine h.1.alone fun other hother heq => ?_
        exact h.2 (not_not.mp hleases) other hother ((Option.some.inj heq).symm.trans hkey.symm)

/-! ## A build -/

def Waiting (key : κ) (name : Name κ) : Prop := name = .pending key

def Working (key : κ) (name : Name κ) : Prop := name = .pending key ∨ name = .entry key

/-- The directory of a build is being filled, and there is room for it. -/
structure Filling (config : Config κ) (small : Prop) (live : List (Lease κ)) (key : κ) (ownerId : Nat)
    (published : Bool) (world : World κ) : Prop where
  core : Core config small none true (Working key) live world
  global : fitsGlobal config world = true
  owner : fitsOwner config world ownerId = true
  place : Name.entry key ∈ world.directory ↔ published = true

variable {key : κ} {ownerId : Nat} {published : Bool}

theorem Filling.steady : Steady (Filling config small live key ownerId published) :=
  fun _ n h => ⟨h.core.asked n, h.global, h.owner, h.place⟩

/-- What an error leaves is the directory that the build has for itself. -/
theorem Filling.waiting (h : Filling config small live key ownerId false world) :
    Core config small none true (Waiting key) live world := by
  refine h.core.narrow (fun _ => .inl) fun name hname hother => ?_
  rw [hname.resolve_left hother, h.place]
  exact Bool.false_ne_true

theorem Filling.redirect (h : Filling config small live key ownerId false world)
    {directory : AList fun _ : Name κ => Folder}
    (hother : ∀ name, name ≠ .pending key → directory.lookup name = world.directory.lookup name) :
    Filling config small live key ownerId false { world with directory := directory } := by
  refine ⟨h.core.redirect fun name hname => hother name fun heq => hname (.inl heq), h.global, h.owner, ?_⟩
  refine Iff.trans ?_ h.place
  rw [← AList.lookup_isSome, ← AList.lookup_isSome, hother _ (by simp)]

theorem Filling.write (h : Filling config small live key ownerId false world) (change : Folder → Folder) :
    Filling config small live key ownerId false (world.write (.pending key) change) := by
  unfold World.write
  split
  · exact h
  · exact h.redirect fun name hname => AList.lookup_insert_ne hname

theorem Filling.publish (h : Filling config small live key ownerId false world) (folder : Folder) :
    Filling config small live key ownerId true { world with
      directory := (world.directory.erase (.pending key)).insert (.entry key) folder } := by
  refine ⟨h.core.redirect fun name hname => ?_, h.global, h.owner, ?_⟩
  · have hne : name ≠ .pending key ∧ name ≠ .entry key := not_or.mp hname
    rw [AList.lookup_insert_ne hne.2, AList.lookup_erase_ne hne.1]
  · exact ⟨fun _ => rfl, fun _ => (AList.mem_insert _).mpr (.inl rfl)⟩

/-- A directory that was not valid goes again. -/
theorem Filling.unpublish (h : Filling config small live key ownerId true world) :
    Filling config small live key ownerId false { world with directory := world.directory.erase (.entry key) } := by
  refine ⟨h.core.redirect fun name hname => ?_, h.global, h.owner, ?_⟩
  · exact AList.lookup_erase_ne fun heq => hname (.inr heq)
  · exact ⟨fun hmem => ((AList.mem_erase.mp hmem).1 rfl).elim, fun hfalse => (Bool.false_ne_true hfalse).elim⟩

/-- The entry of a build keeps to the budgets. -/
theorem Filling.bounded {manifest : Manifest}
    (h : Filling config small live key manifest.source.ownerId published world)
    (hbytes : (world.entry key manifest).bytes ≤ ENTRY_BYTES) (hold : Bounded config world) :
    Bounded config (world.insert (world.entry key manifest)) := by
  have hnew : ∀ other ∈ world.mapped, other.key ≠ (world.entry key manifest).key :=
    fun other hother heq => h.core.apart other hother (.inr (congrArg Name.entry heq))
  have hglobal : totalBytes world.mapped + ENTRY_BYTES ≤ config.globalBytes := of_decide_eq_true h.global
  have howner : ownerBytes world.mapped manifest.source.ownerId + ENTRY_BYTES ≤ config.ownerBytes :=
    of_decide_eq_true h.owner
  have hadd : ∀ entries : List (Entry κ), ∀ entry : Entry κ,
      totalBytes (entries ++ [entry]) = totalBytes entries + entry.bytes := by
    intro entries entry
    simp [totalBytes]
  have hmapped : (world.insert (world.entry key manifest)).mapped = world.mapped ++ [world.entry key manifest] :=
    (mapped_insert rfl hnew).1
  refine ⟨?_, fun other => ?_⟩
  · rw [hmapped, hadd]
    omega
  · unfold ownerBytes at howner ⊢
    rw [hmapped, filter_append]
    by_cases hother : manifest.source.ownerId = other
    · subst hother
      have hin : decide ((world.entry key manifest).manifest.source.ownerId = manifest.source.ownerId) = true :=
        decide_eq_true rfl
      rw [filter_singleton, hin, cond_true, hadd]
      omega
    · have hout : decide ((world.entry key manifest).manifest.source.ownerId = other) = false :=
        decide_eq_false hother
      rw [filter_singleton, hout, cond_false, append_nil]
      exact hold.2 other

theorem leads_copyParts (index : Nat) (parts : List PreparedPart) :
    Leads (Filling config small live key ownerId false) (copyParts config key index parts)
      (fun _ => Filling config small live key ownerId false) (Filling config small live key ownerId false) := by
  have hsteady : Steady (Filling config small live key ownerId false) := Filling.steady
  induction parts generalizing index with
  | nil => exact leads_pure fun _ h => h
  | cons part parts ih =>
    refine (leads_throwIfAborted hsteady).bind fun _ => (leads_fileOperation hsteady).bind fun _ => ?_
    refine (leads_modify fun _ h => h.write _).bind fun _ => (leads_fileOperation hsteady).bind fun _ => ?_
    refine (leads_modify fun _ h => h.write _).bind fun _ => (leads_fileOperation hsteady).bind fun _ => ?_
    exact (ih (index + 1)).bind fun _ => leads_pure fun _ h => h

theorem leads_publishFolder : Leads (Filling config small live key ownerId false) (publishFolder key)
    (fun _ => Filling config small live key ownerId true) (Filling config small live key ownerId false) := by
  refine leads_get_bind fun start => ?_
  split
  · refine leads_set ?_
    rintro world ⟨h, rfl⟩
    exact h.publish _
  · exact leads_throw fun _ h => h.1

/-- A new entry, while the directory that its build had is still worked on. -/
structure Stored (config : Config κ) (small : Prop) (live : List (Lease κ)) (key : κ) (entry : Entry κ)
    (world : World κ) : Prop where
  core : Core config small none true (Waiting key) live world
  mapped : entry ∈ world.mapped
  files : filesMatch config entry.manifest (world.directory.lookup (.entry entry.key)) = true

theorem Filling.stored {manifest : Manifest} (h : Filling config small live key manifest.source.ownerId true world)
    (hbytes : (world.entry key manifest).bytes ≤ ENTRY_BYTES)
    (hfiles : filesMatch config manifest (world.directory.lookup (.entry key)) = true) :
    Stored config small live key (world.entry key manifest) (world.insert (world.entry key manifest)) := by
  have hnew : ∀ other ∈ world.mapped, other.key ≠ (world.entry key manifest).key :=
    fun other hother heq => h.core.apart other hother (.inr (congrArg Name.entry heq))
  refine ⟨?_, ?_, hfiles⟩
  · refine h.core.insert (h.place.mpr rfl) (.inr rfl) (fun name => ?_) fun hsmall =>
      h.bounded hbytes (h.core.bounded hsmall)
    constructor
    · rintro rfl
      exact ⟨.inl rfl, by simp⟩
    · exact fun hname => hname.1.resolve_right hname.2
  · rw [(mapped_insert rfl hnew).1]
    exact mem_append_right _ (mem_singleton_self _)

/-- Room for one more entry of a key. -/
structure Room (config : Config κ) (small : Prop) (live : List (Lease κ)) (key : κ) (ownerId : Nat)
    (world : World κ) : Prop where
  absent : Ahead config small live (some key) [] world
  global : fitsGlobal config world = true
  owner : fitsOwner config world ownerId = true

theorem Room.steady : Steady (Room config small live key ownerId) :=
  fun _ n h => ⟨Ahead.steady _ n h.absent, h.global, h.owner⟩

theorem Room.filling (h : Room config small live key ownerId world) :
    Filling config small live key ownerId false world := by
  have hnone : Name.entry key ∉ world.directory := by
    rw [h.absent.sound.agree (.entry key) id]
    rintro ⟨entry, hentry, heq⟩
    exact h.absent.absent entry hentry (congrArg some (Name.entry.inj heq))
  refine ⟨?_, h.global, h.owner, fun hmem => (hnone hmem).elim, fun hfalse => (Bool.false_ne_true hfalse).elim⟩
  refine h.absent.sound.widen (fun _ => False.elim) fun entry hentry hname => ?_
  rcases hname with hname | hname
  · cases hname
  · exact h.absent.absent entry hentry (congrArg some (Name.entry.inj hname).symm)

theorem leads_fill (hclean : Clean config.oracle) (source : AgentPdfCacheSource) (prepared : PreparedAgentPdf) :
    Leads (Room config small live key source.ownerId) (fill config source key prepared)
      (Stored config small live key) (Core config small none true (Waiting key) live) := by
  have hsteady : Steady (Filling config small live key source.ownerId false) := Filling.steady
  -- an error before the entry is in the map leaves the directory of the build at most
  refine Leads.weaken (P := Filling config small live key source.ownerId false)
    (E := Filling config small live key source.ownerId false) ?_ (fun _ h => h.filling) (fun _ _ h => h)
    fun _ h => h.waiting
  unfold fill
  have hfirst : Leads _ (rm config (·.succeeds) (.pending key)) _ _ := leads_rm_first hsteady fun world h =>
    h.redirect fun name hname => AList.lookup_erase_ne hname
  refine hfirst.bind fun _ => ?_
  refine (leads_fileOperation hsteady).bind fun _ => ?_
  refine Leads.bind (Q := fun _ => Filling config small live key source.ownerId false) ?_ fun _ => ?_
  · exact leads_modify fun world h => h.redirect fun name hname => AList.lookup_insert_ne hname
  refine (leads_copyParts 0 prepared.parts).bind fun parts => ?_
  refine (leads_ask hsteady).bind fun created => ?_
  refine Leads.weaken (P := Filling config small live key source.ownerId false) ?_ (fun _ h => h.1)
    (fun _ _ h => h) fun _ h => h
  refine (leads_ask hsteady).bind fun used => ?_
  refine Leads.weaken (P := Filling config small live key source.ownerId false) ?_ (fun _ h => h.1)
    (fun _ _ h => h) fun _ h => h
  dsimp only
  refine leads_ite (fun _ => leads_throw fun _ h => h) fun _ => ?_
  refine (leads_authorize hsteady source).bind fun _ => (leads_throwIfAborted hsteady).bind fun _ => ?_
  refine (leads_fileOperation hsteady).bind fun _ => ?_
  refine Leads.bind (Q := fun _ => Filling config small live key source.ownerId false) ?_ fun _ => ?_
  · exact leads_modify fun _ h => h.write _
  refine (leads_fileOperation hsteady).bind fun _ => leads_publishFolder.bind fun _ => ?_
  refine leads_get_bind fun start => ?_
  let manifest : Manifest := ⟨source, created.now, used.now, prepared.pageCount, parts⟩
  let published (world : World κ) : Prop :=
    Filling config small live key source.ownerId true world ∧ world.entry key manifest = start.entry key manifest
  have hpublished : Steady published := fun _ n h => ⟨Filling.steady _ n h.1, h.2⟩
  refine ((leads_validFiles hpublished (start.entry key manifest)).weaken ?_ (fun _ _ h => h) fun _ h => h).bind
    fun valid => ?_
  · rintro world ⟨h, rfl⟩
    exact ⟨h, rfl⟩
  refine leads_ite (fun _ => ?_) fun hvalid => ?_
  · refine (leads_rm hclean hsteady fun world h => h.1.1.unpublish).bind fun _ => leads_throw fun _ h => h
  · refine Leads.bind (Q := fun _ => Stored config small live key (start.entry key manifest)) ?_ fun _ =>
      leads_pure fun _ h => h
    refine leads_modify fun world h => ?_
    obtain ⟨hfiles, hbytes⟩ := h.2 (by simpa using hvalid)
    rw [← h.1.2] at hfiles hbytes ⊢
    exact h.1.1.stored hbytes hfiles

/-- The directory of a build goes. -/
theorem Core.settled (h : Core config small none true (Waiting key) live world) :
    Sound config small live { world with directory := world.directory.erase (.pending key) } := by
  have hredirect := h.redirect fun name (hname : ¬ Waiting key name) => AList.lookup_erase_ne hname
  refine hredirect.narrow (fun _ => False.elim) fun name hname _ hmem => ?_
  exact (AList.mem_erase.mp hmem).1 hname

theorem leads_settle (hclean : Clean config.oracle) {P Q E : World κ → Prop} (hP : Steady P) (hQ : Steady Q)
    (h : ∀ world, P world → Q { world with directory := world.directory.erase (.pending key) }) :
    Leads P (settle config key) (fun _ => Q) E := by
  refine (leads_ask hP).bind fun answer => ?_
  refine leads_ite (fun hcleaned => ?_) fun _ => leads_rm hclean hQ fun world hworld => h world hworld.1
  refine leads_throw ?_
  rintro world ⟨-, n, rfl⟩
  rw [(hclean n).2] at hcleaned
  exact Bool.noConfusion hcleaned

theorem leads_store (hclean : Clean config.oracle) (source : AgentPdfCacheSource) (build : Option PreparedAgentPdf) :
    Leads (Ahead config small live (some key) []) (store config source key build) (Usable config small live)
      (Sound config small live) := by
  refine leads_get_bind fun start => ?_
  refine Leads.bind (Q := fun _ => Ahead config small live (some key) []) ?_ fun _ => ?_
  · refine (leads_evict hclean source.ownerId _).weaken ?_ (fun _ _ h => h) fun _ h => h
    rintro world ⟨h, rfl⟩
    exact h.sound.ahead (mergeSort_perm _ _) h.absent
  refine leads_get_bind fun world => leads_ite (fun _ => leads_throw fun _ h => h.1.sound) fun hfits => ?_
  have hroom : Steady (Room config small live key source.ownerId) := Room.steady
  refine Leads.weaken (P := Room config small live key source.ownerId) ?_ ?_ (fun _ _ h => h) fun _ h => h
  · refine ((leads_throwIfAborted hroom).weaken (fun _ h => h) (fun _ _ h => h) fun _ h => h.absent.sound).bind
      fun _ => ?_
    cases build with
    | none => exact leads_throw fun _ h => h.absent.sound
    | some prepared =>
      refine (leads_fill hclean source prepared).ensure (fun entry => ?_) ?_
      · refine leads_settle hclean (fun _ n h => ⟨h.core.asked n, h.mapped, h.files⟩) Usable.steady fun world h => ?_
        refine ⟨h.core.settled, h.mapped, ?_⟩
        rw [AList.lookup_erase_ne (by simp)]
        exact h.files
      · exact leads_settle hclean (fun _ n h => h.asked n) Sound.steady fun _ h => h.settled
  · rintro world ⟨h, rfl⟩
    simp only [Bool.or_eq_true, Bool.not_eq_true', not_or, Bool.not_eq_false] at hfits
    exact ⟨h, hfits.1, hfits.2⟩

end TsEpistle.Agents.PdfCache
