import TsEpistle.Agents.PdfCacheEntries

/-! What the parts of a call of the PDF cache keep, when no directory refuses to be removed and no cleanup of a build
rejects. -/

namespace TsEpistle.Agents.PdfCache
open Library Work List

variable {κ : Type} [DecidableEq κ] {config : Config κ} {α : Type}

/-! ## Questions -/

/-- What does not depend on the number of questions. -/
def Steady (P : World κ → Prop) : Prop := ∀ world n, P world → P { world with asked := n }

/-- Directories can be removed, at the latest when it is tried again, and cleanups do not reject. -/
def Clean (oracle : Nat → Answer) : Prop := ∀ n, (oracle n).removed = true ∧ (oracle n).cleaned = true

section
variable {P Q E : World κ → Prop} {R : α → World κ → Prop}

theorem leads_ite {c : Prop} [Decidable c] {x y : Call κ α} (hx : c → Leads P x R E) (hy : ¬ c → Leads P y R E) :
    Leads P (if c then x else y) R E := by
  split
  · next h => exact hx h
  · next h => exact hy h

theorem leads_ask (hP : Steady P) :
    Leads P (ask config) (fun answer world => P world ∧ ∃ n, answer = config.oracle n) E :=
  fun world h => show P _ ∧ _ from ⟨hP _ _ h, world.asked, rfl⟩

/-- The answer to the next question. -/
theorem leads_ask_next (start : World κ) : Leads (fun world => world = start) (ask config)
    (fun answer world => answer = config.oracle start.asked ∧ world = { start with asked := start.asked + 1 }) E := by
  rintro world rfl
  exact show _ ∧ _ from ⟨rfl, rfl⟩

/-- An answer may end the call. -/
theorem leads_check (hP : Steady P) (refuses : Answer → Bool) (error : Failure) :
    Leads P (do let answer ← ask config; if refuses answer then throw error : Call κ Unit) (fun _ => P) P := by
  refine (leads_ask hP).bind fun answer => leads_ite (fun _ => ?_) fun _ => ?_
  · exact leads_throw fun _ h => h.1
  · exact leads_pure fun _ h => h.1

theorem leads_fileOperation (hP : Steady P) : Leads P (fileOperation config) (fun _ => P) P :=
  leads_check hP (fun answer => !answer.succeeds) _

theorem leads_throwIfAborted (hP : Steady P) : Leads P (throwIfAborted config) (fun _ => P) P :=
  leads_check hP (·.aborted) _

theorem leads_authorize (hP : Steady P) (source : AgentPdfCacheSource) :
    Leads P (authorize config source) (fun _ => P) P :=
  leads_check hP (fun answer => !answer.authorized) _

theorem leads_rm (hclean : Clean config.oracle) {name : Name κ} (hQ : Steady Q)
    (h : ∀ world, P world → Q { world with directory := world.directory.erase name }) :
    Leads P (rm config (·.removed) name) (fun _ => Q) E := by
  intro world hworld
  have hrun : (rm config (·.removed) name).run.run world
      = (.ok (), { world with asked := world.asked + 1, directory := world.directory.erase name }) := by
    have hremoved := (hclean world.asked).1
    unfold rm
    rw [run_bind]
    change (if !(config.oracle world.asked).removed then _ else _ : Call κ Unit).run.run _ = _
    rw [hremoved]
    rfl
  rw [hrun]
  exact hQ _ _ (h world hworld)

/-- An `rm` after which there is another one may fail. -/
theorem leads_rm_first {name : Name κ} (hP : Steady P)
    (h : ∀ world, P world → Q { world with directory := world.directory.erase name }) :
    Leads P (rm config (·.succeeds) name) (fun _ => Q) P := by
  refine (leads_ask hP).bind fun answer => leads_ite (fun _ => leads_throw fun _ h => h.1) fun _ => ?_
  exact leads_modify fun world hworld => h world hworld.1

theorem leads_remove (hclean : Clean config.oracle) {entry : Entry κ} (hQ : Steady Q)
    (h : ∀ world, P world → Q (removed world entry)) : Leads P (remove config entry) (fun _ => Q) E := by
  by_cases hleases : entry.leases ≠ 0
  · unfold remove
    rw [if_pos hleases]
    refine (leads_modify (Q := fun _ => Q) fun world hworld => ?_).bind fun _ => leads_pure fun _ h => h
    have := h world hworld
    rwa [removed, if_pos hleases] at this
  · unfold remove
    rw [if_neg hleases]
    let before (world : World κ) : Prop :=
      ∃ start, P start ∧ world = start.update entry.serial fun entry => { entry with retiring := true }
    let after (world : World κ) : Prop := Q (world.unmap entry.key)
    refine (leads_modify (Q := fun _ => before) fun world hworld => ⟨world, hworld, rfl⟩).bind fun _ => ?_
    refine (leads_rm hclean (Q := after) (fun world n hworld => hQ _ n hworld) ?_).bind fun _ => ?_
    · rintro _ ⟨world, hworld, rfl⟩
      have := h world hworld
      rwa [removed, if_neg hleases] at this
    · exact leads_modify fun _ h => h

theorem leads_validFiles (hP : Steady P) (entry : Entry κ) :
    Leads P (validFiles config entry) (fun valid world => P world ∧ (valid = true →
      filesMatch config entry.manifest (world.directory.lookup (.entry entry.key)) = true
        ∧ entry.bytes ≤ ENTRY_BYTES)) E := by
  unfold validFiles
  refine (leads_ask hP).bind fun answer => leads_get_bind fun world => ?_
  refine leads_pure ?_
  rintro _ ⟨⟨hworld, -⟩, rfl⟩
  refine ⟨hworld, fun hvalid => ?_⟩
  rw [Bool.and_eq_true, Bool.and_eq_true, decide_eq_true_eq] at hvalid
  exact ⟨hvalid.1.2, hvalid.2⟩

end

/-! ## Entries one after the other -/

/-- Nothing is being worked on. -/
def Sound (config : Config κ) (small : Prop) (live : List (Lease κ)) (world : World κ) : Prop :=
  Core config small none true (fun _ => False) live world

variable {small : Prop} {live : List (Lease κ)} {world : World κ}

theorem Sound.steady : Steady (Sound config small live) := fun _ n h => Core.asked h n

/-- Entries that a loop has still to look at, where no entry has the key that is wanted. -/
structure Ahead (config : Config κ) (small : Prop) (live : List (Lease κ)) (wanted : Option κ)
    (entries : List (Entry κ)) (world : World κ) : Prop where
  sound : Sound config small live world
  distinct : (entries.map (·.serial)).Nodup
  mapped : ∀ entry ∈ entries, entry ∈ world.mapped
  absent : ∀ entry ∈ world.mapped, wanted ≠ some entry.key

variable {wanted : Option κ} {entry : Entry κ} {entries : List (Entry κ)}

theorem Ahead.steady : Steady (Ahead config small live wanted entries) :=
  fun _ n h => ⟨Core.asked h.sound n, h.distinct, h.mapped, h.absent⟩

theorem Ahead.tail (h : Ahead config small live wanted (entry :: entries) world) :
    Ahead config small live wanted entries world :=
  ⟨h.sound, (nodup_cons.mp h.distinct).2, fun other hother => h.mapped other (mem_cons_of_mem _ hother), h.absent⟩

theorem Ahead.last (h : Ahead config small live wanted entries world) : Ahead config small live wanted [] world :=
  ⟨h.sound, nodup_nil, fun _ hother => (not_mem_nil hother).elim, h.absent⟩

theorem Ahead.removed (h : Ahead config small live wanted (entry :: entries) world) :
    Ahead config small live wanted entries (removed world entry) where
  sound := Core.removed h.sound (h.mapped entry mem_cons_self) fun _ hnone =>
    (Option.some_ne_none _ hnone.symm).elim
  distinct := h.tail.distinct
  mapped other hother := by
    have hserial : other.serial ≠ entry.serial := by
      intro heq
      exact (nodup_cons.mp h.distinct).1 (mem_map.mpr ⟨other, hother, heq⟩)
    refine mem_removed (h.tail.mapped other hother) hserial fun hkey => hserial ?_
    rw [Core.eq_of_key h.sound (h.mapped entry mem_cons_self) (h.tail.mapped other hother) hkey]
  absent other hother := by
    obtain ⟨-, before, hbefore, hkey⟩ := key_of_mem_removed hother
    exact hkey ▸ h.absent before hbefore

theorem Sound.alone (h : Sound config small live world) (habsent : ∀ entry ∈ world.mapped, wanted ≠ some entry.key) :
    Ahead config small live wanted [] world :=
  ⟨h, nodup_nil, fun _ hentry => (not_mem_nil hentry).elim, habsent⟩

theorem Sound.ahead (h : Sound config small live world) (hperm : entries.Perm world.mapped)
    (habsent : ∀ entry ∈ world.mapped, wanted ≠ some entry.key) : Ahead config small live wanted entries world :=
  ⟨h, (hperm.map _).nodup_iff.mpr (Core.mapped_serials h), fun _ hentry => hperm.mem_iff.mp hentry, habsent⟩

section
variable {E : World κ → Prop}

theorem leads_sweepEntry (hclean : Clean config.oracle) (entry : Entry κ) (entries : List (Entry κ)) :
    Leads (Ahead config small live wanted (entry :: entries)) (sweepEntry config entry)
      (fun _ => Ahead config small live wanted entries) E := by
  have hsteady : Steady (Ahead config small live wanted (entry :: entries)) := Ahead.steady
  refine Leads.bind (Q := fun _ => Ahead config small live wanted (entry :: entries)) ?_ fun valid => ?_
  · refine (leads_ask hsteady).bind fun answer => ?_
    refine leads_ite (fun _ => ?_) fun _ => leads_pure fun _ h => h.1
    have hauthorize : Leads _ (do authorize config entry.manifest.source; pure true : Call κ Bool)
        (fun _ => Ahead config small live wanted (entry :: entries)) _ :=
      (leads_authorize hsteady entry.manifest.source).bind fun _ => leads_pure fun _ h => h
    refine Leads.tryCatch (hauthorize.weaken (fun _ h => h.1) (fun _ _ h => h) fun _ h => h) fun _ => ?_
    exact leads_pure fun _ h => h
  · refine leads_ite (fun _ => ?_) fun _ => leads_pure fun _ h => h.tail
    exact leads_remove hclean Ahead.steady fun _ h => h.removed

/-- `#sweep` -/
theorem leads_sweepEntries (hclean : Clean config.oracle) :
    Leads (Sound config small live) (sweepEntries config) (fun _ => Sound config small live) E := by
  refine leads_get_bind fun world => ?_
  have hloop := leads_forM (I := Ahead config small live none) (E := E) world.mapped
    fun entry entries => leads_sweepEntry hclean entry entries
  refine hloop.weaken ?_ (fun _ _ h => h.sound) fun _ h => h
  rintro _ ⟨h, rfl⟩
  exact h.ahead (Perm.refl _) fun _ _ hnone => (Option.some_ne_none _ hnone.symm).elim

/-- Entries that a filter selects are removed. -/
theorem leads_filter (hclean : Clean config.oracle) (filter : Option Filter) (start : World κ) :
    Leads (fun world => Sound config small live world ∧ world = start)
      (start.mapped.forM fun entry =>
        if filter.any (·.selects entry.manifest.source) then remove config entry else pure ())
      (fun _ => Sound config small live) E := by
  have hloop := leads_forM (I := Ahead config small live none) (E := E) start.mapped
    (f := fun entry => if filter.any (·.selects entry.manifest.source) then remove config entry else pure ())
    fun entry entries => leads_ite (fun _ => leads_remove hclean Ahead.steady fun _ h => h.removed)
      fun _ => leads_pure fun _ h => h.tail
  refine hloop.weaken ?_ (fun _ _ h => h.sound) fun _ h => h
  rintro _ ⟨h, rfl⟩
  exact h.ahead (Perm.refl _) fun _ _ hnone => (Option.some_ne_none _ hnone.symm).elim

/-- Making room takes entries away only. -/
theorem leads_evict (hclean : Clean config.oracle) (ownerId : Nat) (entries : List (Entry κ)) :
    Leads (Ahead config small live wanted entries) (evict config ownerId entries)
      (fun _ => Ahead config small live wanted []) E := by
  induction entries with
  | nil => exact leads_pure fun _ h => h
  | cons candidate entries ih =>
    refine leads_get_bind fun world => leads_ite (fun _ => leads_pure fun _ h => h.1.last) fun _ => ?_
    dsimp only
    refine leads_ite (fun _ => ?_) fun _ => ih.weaken (fun _ h => h.1.tail) (fun _ _ h => h) fun _ h => h
    exact Leads.bind (leads_remove hclean Ahead.steady fun _ h => h.1.removed) fun _ => ih

end

/-! ## Loading -/

variable {directory : AList fun _ : Name κ => Folder}

/-- Nothing has been read from the directory yet. -/
structure Unloaded (directory : AList fun _ : Name κ => Folder) (live : List (Lease κ)) (world : World κ) : Prop where
  flag : world.loaded = false
  objects : world.objects = []
  live : live = []
  directory : world.directory = directory

theorem Unloaded.steady : Steady (Unloaded directory live) := fun _ _ h => ⟨h.flag, h.objects, h.live, h.directory⟩

/-- Between two calls. A directory that was empty at the start keeps to the budgets. -/
def Ready (config : Config κ) (directory : AList fun _ : Name κ => Folder) (live : List (Lease κ)) (world : World κ) :
    Prop :=
  Sound config (directory = ∅) live world ∨ Unloaded directory live world

/-- Items of the directory that are still to be read. -/
structure Loading (config : Config κ) (small : Prop) (items : List (Sigma fun _ : Name κ => Folder))
    (world : World κ) : Prop where
  core : Core config small none false (fun name => name ∈ items.map (·.1)) [] world
  distinct : (items.map (·.1)).Nodup
  there : ∀ item ∈ items, item.1 ∈ world.directory
  many : small → items = []

variable {item : Sigma fun _ : Name κ => Folder} {items : List (Sigma fun _ : Name κ => Folder)}

theorem Loading.steady : Steady (Loading config small items) :=
  fun _ n h => ⟨h.core.asked n, h.distinct, h.there, h.many⟩

omit [DecidableEq κ] in
theorem mem_map_cons_iff {name : Name κ} (hitem : item.1 ∉ items.map (·.1)) :
    name ∈ items.map (·.1) ↔ name ∈ (item :: items).map (·.1) ∧ name ≠ item.1 := by
  rw [map_cons, mem_cons]
  constructor
  · intro hname
    exact ⟨.inr hname, fun heq => hitem (heq ▸ hname)⟩
  · rintro ⟨heq | hname, hne⟩
    · exact (hne heq).elim
    · exact hname

theorem Loading.erased (h : Loading config small (item :: items) world) :
    Loading config small items { world with directory := world.directory.erase item.1 } := by
  obtain ⟨hitem, hdistinct⟩ := nodup_cons.mp h.distinct
  have hother : ∀ name, name ∉ (item :: items).map (·.1) →
      (world.directory.erase item.1).lookup name = world.directory.lookup name :=
    fun name hname => AList.lookup_erase_ne fun heq => hname (heq ▸ mem_cons_self)
  have hredirect := h.core.redirect hother
  refine ⟨hredirect.narrow (fun name hname => ((mem_map_cons_iff hitem).mp hname).1) ?_, hdistinct, ?_, ?_⟩
  · intro name hname hgone hmem
    exact hgone ((mem_map_cons_iff hitem).mpr ⟨hname, (AList.mem_erase.mp hmem).1⟩)
  · intro other hother
    refine AList.mem_erase.mpr ⟨fun heq => hitem ?_, h.there other (mem_cons_of_mem _ hother)⟩
    exact mem_map.mpr ⟨other, hother, heq⟩
  · exact fun hsmall => (cons_ne_nil _ _ (h.many hsmall)).elim

theorem Loading.inserted {key : κ} {folder : Folder} (h : Loading config small (⟨.entry key, folder⟩ :: items) world)
    (manifest : Manifest) : Loading config small items (world.insert (world.entry key manifest)) := by
  obtain ⟨hitem, hdistinct⟩ := nodup_cons.mp h.distinct
  refine ⟨?_, hdistinct, fun other hother => h.there other (mem_cons_of_mem _ hother), ?_⟩
  · refine h.core.insert (h.there _ mem_cons_self) mem_cons_self (fun name => mem_map_cons_iff hitem) ?_
    exact fun hsmall => (cons_ne_nil _ _ (h.many hsmall)).elim
  · exact fun hsmall => (cons_ne_nil _ _ (h.many hsmall)).elim

/-- A directory is read, or the call ends with nothing changed. -/
theorem leads_loadEntry {key : κ} {folder : Folder} :
    Leads (Loading config small (⟨.entry key, folder⟩ :: items)) (loadEntry config key folder)
      (fun _ => Loading config small items) (Loading config small (⟨.entry key, folder⟩ :: items)) := by
  have hsteady : Steady (Loading config small (⟨.entry key, folder⟩ :: items)) := Loading.steady
  unfold loadEntry
  refine (leads_fileOperation hsteady).bind fun _ => ?_
  cases folder.manifest with
  | none => exact leads_throw fun _ h => h
  | some manifest =>
    refine leads_ite (fun _ => leads_throw fun _ h => h) fun _ => ?_
    refine (leads_ask hsteady).bind fun answer => ?_
    refine Leads.weaken (P := Loading config small (⟨.entry key, folder⟩ :: items)) ?_ (fun _ h => h.1)
      (fun _ _ h => h) fun _ h => h
    refine (leads_ask hsteady).bind fun later => leads_ite (fun _ => leads_throw fun _ h => h.1) fun _ => ?_
    refine Leads.weaken (P := Loading config small (⟨.entry key, folder⟩ :: items)) ?_ (fun _ h => h.1)
      (fun _ _ h => h) fun _ h => h
    refine (leads_authorize hsteady _).bind fun _ => leads_get_bind fun world => ?_
    refine Leads.bind (Q := fun _ => Loading config small (⟨.entry key, folder⟩ :: items)) ?_ fun valid => ?_
    · exact (leads_validFiles hsteady _).weaken (fun _ h => h.1) (fun _ _ h => h.1) fun _ h => h
    · exact leads_ite (fun _ => leads_throw fun _ h => h) fun _ => leads_modify fun _ h => h.inserted manifest

theorem leads_loadItem (hclean : Clean config.oracle) {E : World κ → Prop} (item : Sigma fun _ : Name κ => Folder)
    (items : List (Sigma fun _ : Name κ => Folder)) :
    Leads (Loading config small (item :: items)) (loadItem config item) (fun _ => Loading config small items) E := by
  obtain ⟨name, folder⟩ := item
  have hrm := leads_rm (E := E) hclean Loading.steady
    fun world (h : Loading config small (⟨name, folder⟩ :: items) world) => h.erased
  have hfirst : Leads _ (rm config (·.succeeds) name) _ _ := leads_rm_first Loading.steady
    fun world (h : Loading config small (⟨name, folder⟩ :: items) world) => h.erased
  have hother := hfirst.tryCatch fun _ => hrm
  cases name with
  | entry key => exact leads_loadEntry.tryCatch fun _ => hrm
  | pending | other => exact hother

/-- Before the directory is read there are neither objects nor leases. -/
theorem Unloaded.loading (h : Unloaded directory [] world) :
    Loading config (directory = ∅) world.directory.entries world := by
  have hmapped : world.mapped = [] := by
    rw [World.mapped, h.objects]
    rfl
  refine ⟨⟨h.flag, ?_, ?_, ?_, ?_, ?_, ?_, ?_, ?_, ?_, ?_⟩, world.directory.nodupKeys, ?_, ?_⟩
  · rw [h.objects]
    exact nodup_nil
  · rw [h.objects]
    exact fun _ hentry => (not_mem_nil hentry).elim
  · rw [hmapped]
    exact nodup_nil
  · rw [hmapped]
    exact fun _ hentry => (not_mem_nil hentry).elim
  · exact fun _ hlease => (not_mem_nil hlease).elim
  · exact fun _ hlease => (not_mem_nil hlease).elim
  · rw [hmapped]
    refine fun name hname => ⟨fun hmem => (hname hmem).elim, ?_⟩
    rintro ⟨entry, hentry, -⟩
    exact (not_mem_nil hentry).elim
  · rw [hmapped]
    exact fun _ hentry => (not_mem_nil hentry).elim
  · rw [hmapped]
    exact fun _ hentry => (not_mem_nil hentry).elim
  · intro _
    rw [Bounded, hmapped]
    exact ⟨Nat.zero_le _, fun _ => Nat.zero_le _⟩
  · exact fun item hitem => mem_map_of_mem hitem
  · intro hsmall
    rw [h.directory, hsmall]
    rfl

theorem Loading.sound (h : Loading config small [] world) : Sound config small [] { world with loaded := true } where
  flag := rfl
  serials := h.core.serials
  fresh := h.core.fresh
  keys := h.core.keys
  counted := h.core.counted
  held := h.core.held
  kept := h.core.kept
  agree name _ := h.core.agree name not_mem_nil
  apart _ _ := id
  retired := h.core.retired
  bounded := h.core.bounded

/-- `#load` reads the directory once. -/
theorem leads_load (hclean : Clean config.oracle) : Leads (Ready config directory live) (load config)
    (fun _ => Sound config (directory = ∅) live) (Ready config directory live) := by
  refine leads_get_bind fun start => leads_ite (fun hloaded => leads_pure ?_) fun hloaded => ?_
  · rintro _ ⟨h | h, rfl⟩
    · exact h
    · exact absurd hloaded (Bool.eq_false_iff.mp h.flag)
  · have hstep : Leads (Unloaded directory live) (fileOperation config) (fun _ => Unloaded directory live)
        (Ready config directory live) :=
      (leads_fileOperation Unloaded.steady).weaken (fun _ h => h) (fun _ _ h => h) fun _ h => .inr h
    refine Leads.weaken (P := Unloaded directory live) ?_ ?_ (fun _ _ h => h) fun _ h => h
    · refine hstep.bind fun _ => hstep.bind fun _ => hstep.bind fun _ => hstep.bind fun _ => ?_
      refine leads_get_bind fun world => ?_
      by_cases hlive : live = []
      · subst hlive
        have hloop := leads_forM (I := Loading config (directory = ∅)) (E := Ready config directory [])
          world.directory.entries fun item items => leads_loadItem hclean item items
        refine Leads.bind (hloop.weaken ?_ (fun _ _ h => h) fun _ h => h) fun _ => leads_modify fun _ h => h.sound
        rintro world ⟨h, rfl⟩
        exact h.loading
      · exact fun _ h => (hlive h.1.live).elim
    · rintro _ ⟨h | h, rfl⟩
      · exact absurd h.flag hloaded
      · exact h

end TsEpistle.Agents.PdfCache
