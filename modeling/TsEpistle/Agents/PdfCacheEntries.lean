import TsEpistle.Agents.PdfCache

/-! What entries, leases and the directory of the PDF cache have to do with each other, and what the changes of one
entry leave of it. -/

namespace TsEpistle.Agents.PdfCache
open Library List

variable {κ : Type} [DecidableEq κ] {config : Config κ}

/-! ## Mapped entries -/

variable {entry : Entry κ}

theorem mem_mapped {world : World κ} : entry ∈ world.mapped ↔ entry ∈ world.objects ∧ entry.mapped = true := mem_filter

theorem mapped_update (world : World κ) (serial : Nat) {change : Entry κ → Entry κ}
    (h : ∀ entry, (change entry).mapped = entry.mapped) :
    (world.update serial change).mapped
      = world.mapped.map fun entry => if entry.serial = serial then change entry else entry := by
  unfold World.mapped World.update
  rw [filter_map]
  congr 1
  refine filter_congr fun entry _ => ?_
  by_cases hs : entry.serial = serial
  · simp [hs, h]
  · simp [hs]

theorem mapped_unmap (world : World κ) (key : κ) : (world.unmap key).mapped = world.mapped.filter (·.key ≠ key) := by
  unfold World.mapped World.unmap
  induction world.objects with
  | nil => rfl
  | cons entry objects ih =>
    by_cases hkey : entry.key = key <;> by_cases hmapped : entry.mapped = true <;> simp_all

theorem mapped_insert {world : World κ} (hentry : entry.mapped = true)
    (hnew : ∀ other ∈ world.mapped, other.key ≠ entry.key) : (world.insert entry).mapped = world.mapped ++ [entry] ∧
    (world.insert entry).objects = world.objects ++ [entry] := by
  have hold : (world.objects.filter fun other => other.mapped && other.key = entry.key) = [] := by
    refine filter_eq_nil_iff.mpr fun other hmem hother => ?_
    rw [Bool.and_eq_true, decide_eq_true_eq] at hother
    exact hnew other (mem_mapped.mpr ⟨hmem, hother.1⟩) hother.2
  have hobjects : (world.insert entry).objects = world.objects ++ [entry] := by simp [World.insert, hold]
  refine ⟨?_, hobjects⟩
  unfold World.mapped
  rw [hobjects, filter_append, filter_singleton, hentry]
  rfl

/-! ## The invariant -/

/-- The budgets. -/
def Bounded (config : Config κ) (world : World κ) : Prop :=
  totalBytes world.mapped ≤ config.globalBytes ∧ ∀ ownerId, ownerBytes world.mapped ownerId ≤ config.ownerBytes

/-- Entries, the directory and the leases that have not been released agree, but for names that are being worked on.
A retired
object has leases, but for one that may be skipped. -/
structure Core (config : Config κ) (small : Prop) (skip : Option Nat) (loaded : Bool) (busy : Name κ → Prop)
    (live : List (Lease κ))
    (world : World κ) : Prop where
  flag : world.loaded = loaded
  serials : (world.objects.map (·.serial)).Nodup
  fresh : ∀ entry ∈ world.objects, entry.serial < world.next
  keys : (world.mapped.map (·.key)).Nodup
  counted : ∀ entry ∈ world.mapped, entry.leases = (live.countP (·.serial = entry.serial) : ℕ)
  held : ∀ lease ∈ live, ∃ entry ∈ world.mapped, entry.serial = lease.serial ∧ entry.key = lease.key
  kept : ∀ lease ∈ live, world.directory.lookup (.entry lease.key) = some lease.folder
  agree : ∀ name, ¬ busy name → (name ∈ world.directory ↔ ∃ entry ∈ world.mapped, name = .entry entry.key)
  apart : ∀ entry ∈ world.mapped, ¬ busy (.entry entry.key)
  retired : ∀ entry ∈ world.mapped, entry.retiring = true → entry.leases ≠ 0 ∨ skip = some entry.serial
  bounded : small → Bounded config world

section
variable {small : Prop} {skip skip' : Option Nat} {loaded : Bool} {busy busy' : Name κ
  → Prop} {live live' : List (Lease κ)} {world : World κ}

theorem Core.asked (h : Core config small skip loaded busy live world) (n : Nat) :
    Core config small skip loaded busy live { world with asked := n } :=
  ⟨h.flag, h.serials, h.fresh, h.keys, h.counted, h.held, h.kept, h.agree, h.apart, h.retired, h.bounded⟩

theorem Core.oracle (h : Core config small skip loaded busy live world) (oracle : Nat → Answer) :
    Core { config with oracle := oracle } small skip loaded busy live world :=
  ⟨h.flag, h.serials, h.fresh, h.keys, h.counted, h.held, h.kept, h.agree, h.apart, h.retired, h.bounded⟩

theorem Core.mapped_serials (h : Core config small skip loaded busy live world) : (world.mapped.map (·.serial)).Nodup :=
  h.serials.sublist (filter_sublist.map _)

theorem Core.eq_of_key (h : Core config small skip loaded busy live world) {entry other : Entry κ}
    (hentry : entry ∈ world.mapped) (hother : other ∈ world.mapped) (hkey : other.key = entry.key) : other = entry :=
  inj_on_of_nodup_map h.keys hother hentry hkey

theorem Core.eq_of_serial (h : Core config small skip loaded busy live world) {entry other : Entry κ}
    (hentry : entry ∈ world.mapped) (hother : other ∈ world.mapped) (hserial : other.serial = entry.serial) :
    other = entry :=
  inj_on_of_nodup_map h.mapped_serials hother hentry hserial

/-- Under names that are being worked on the directory may change. -/
theorem Core.redirect (h : Core config small skip loaded busy live world) {directory : AList fun _ : Name κ => Folder}
    (hdirectory : ∀ name, ¬ busy name → directory.lookup name = world.directory.lookup name) :
    Core config small skip loaded busy live { world with directory := directory } where
  flag := h.flag
  serials := h.serials
  fresh := h.fresh
  keys := h.keys
  counted := h.counted
  held := h.held
  kept lease hlease := by
    obtain ⟨entry, hentry, -, hkey⟩ := h.held lease hlease
    exact (hdirectory _ (hkey ▸ h.apart entry hentry)).trans (h.kept lease hlease)
  agree name hname := by
    refine Iff.trans ?_ (h.agree name hname)
    rw [← AList.lookup_isSome, ← AList.lookup_isSome, hdirectory name hname]
  apart := h.apart
  retired := h.retired
  bounded := h.bounded

/-- Work ends where the directory has nothing. -/
theorem Core.narrow (h : Core config small skip loaded busy live world) (hbusy : ∀ name, busy' name → busy name)
    (hgone : ∀ name, busy name → ¬ busy' name → name ∉ world.directory) :
    Core config small skip loaded busy' live world where
  flag := h.flag
  serials := h.serials
  fresh := h.fresh
  keys := h.keys
  counted := h.counted
  held := h.held
  kept := h.kept
  agree name hname := by
    by_cases hold : busy name
    · refine ⟨fun hmem => (hgone name hold hname hmem).elim, ?_⟩
      rintro ⟨entry, hentry, rfl⟩
      exact (h.apart entry hentry hold).elim
    · exact h.agree name hold
  apart entry hentry hname := h.apart entry hentry (hbusy _ hname)
  retired := h.retired
  bounded := h.bounded

/-- Work may begin on names without entries. -/
theorem Core.widen (h : Core config small skip loaded busy live world) (hbusy : ∀ name, busy name → busy' name)
    (hapart : ∀ entry ∈ world.mapped, ¬ busy' (.entry entry.key)) : Core config small skip loaded busy' live world where
  flag := h.flag
  serials := h.serials
  fresh := h.fresh
  keys := h.keys
  counted := h.counted
  held := h.held
  kept := h.kept
  agree name hname := h.agree name fun hold => hname (hbusy name hold)
  apart := hapart
  retired := h.retired
  bounded := h.bounded

/-- No lease has the number of the next object. -/
theorem Core.countP_next (h : Core config small skip loaded busy live world) :
    live.countP (·.serial = world.next) = 0 := by
  refine countP_eq_zero.mpr fun lease hlease hserial => ?_
  obtain ⟨entry, hentry, heq, -⟩ := h.held lease hlease
  have hlt := h.fresh entry (mem_mapped.mp hentry).1
  rw [heq, of_decide_eq_true hserial] at hlt
  exact Nat.lt_irrefl _ hlt

/-- A directory that is being worked on gets its entry. -/
theorem Core.insert (h : Core config small skip loaded busy live world) {key : κ} {manifest : Manifest}
    (hmem : Name.entry key ∈ world.directory) (hkey : busy (.entry key))
    (hbusy : ∀ name, busy' name ↔ busy name ∧ name ≠ .entry key)
    (hbounded : small → Bounded config (world.insert (world.entry key manifest))) :
    Core config small skip loaded busy' live (world.insert (world.entry key manifest)) := by
  have hnew : ∀ other ∈ world.mapped, other.key ≠ (world.entry key manifest).key :=
    fun other hother heq => h.apart other hother (heq ▸ hkey)
  obtain ⟨hmapped, hobjects⟩ := mapped_insert rfl hnew
  have hmem' : ∀ {entry}, entry ∈ (world.insert (world.entry key manifest)).mapped ↔
      entry ∈ world.mapped ∨ entry = world.entry key manifest := by
    intro entry
    rw [hmapped, mem_append, mem_singleton]
  refine ⟨h.flag, ?_, ?_, ?_, ?_, ?_, h.kept, ?_, ?_, ?_, hbounded⟩
  · rw [hobjects, map_append, nodup_append]
    refine ⟨h.serials, nodup_singleton _, ?_⟩
    intro serial hserial other hother
    obtain ⟨entry, hentry, rfl⟩ := mem_map.mp hserial
    have := h.fresh entry hentry
    rw [mem_singleton.mp hother]
    exact Nat.ne_of_lt this
  · rw [hobjects]
    intro entry hentry
    change entry.serial < world.next + 1
    rcases mem_append.mp hentry with hentry | hentry
    · exact Nat.lt_succ_of_lt (h.fresh entry hentry)
    · rw [mem_singleton.mp hentry]
      exact Nat.lt_succ_self world.next
  · rw [hmapped, map_append, nodup_append]
    refine ⟨h.keys, nodup_singleton _, ?_⟩
    intro other hother _ hentry
    obtain ⟨entry, hmem, rfl⟩ := mem_map.mp hother
    rw [mem_singleton.mp hentry]
    exact hnew entry hmem
  · intro entry hentry
    rcases hmem'.mp hentry with hentry | rfl
    · exact h.counted entry hentry
    · have hnone : live.countP (·.serial = (world.entry key manifest).serial) = 0 := h.countP_next
      rw [hnone]
      rfl
  · intro lease hlease
    obtain ⟨entry, hentry, hserial⟩ := h.held lease hlease
    exact ⟨entry, hmem'.mpr (.inl hentry), hserial⟩
  · intro name hname
    by_cases heq : name = .entry key
    · exact ⟨fun _ => ⟨_, hmem'.mpr (.inr rfl), heq⟩, fun _ => heq ▸ hmem⟩
    · refine (h.agree name fun hold => hname ((hbusy name).mpr ⟨hold, heq⟩)).trans ⟨?_, ?_⟩
      · rintro ⟨entry, hentry, hentryName⟩
        exact ⟨entry, hmem'.mpr (.inl hentry), hentryName⟩
      · rintro ⟨entry, hentry, rfl⟩
        rcases hmem'.mp hentry with hentry | rfl
        · exact ⟨entry, hentry, rfl⟩
        · exact (heq rfl).elim
  · intro entry hentry hname
    obtain ⟨hname, hne⟩ := (hbusy _).mp hname
    rcases hmem'.mp hentry with hentry | rfl
    · exact h.apart entry hentry hname
    · exact hne rfl
  · intro entry hentry hretiring
    rcases hmem'.mp hentry with hentry | rfl
    · exact h.retired entry hentry hretiring
    · exact absurd hretiring Bool.false_ne_true

/-! ## Changes of objects -/

/-- What entries are found and counted by stays. -/
structure Keeps (change : Entry κ → Entry κ) : Prop where
  serial : ∀ entry, (change entry).serial = entry.serial
  key : ∀ entry, (change entry).key = entry.key
  bytes : ∀ entry, (change entry).bytes = entry.bytes
  owner : ∀ entry, (change entry).manifest.source.ownerId = entry.manifest.source.ownerId

section
omit [DecidableEq κ]
variable {change : Entry κ → Entry κ} (k : Keeps change)
include k

theorem Keeps.at (serial : Nat) : Keeps fun entry => if entry.serial = serial then change entry else entry := by
  refine ⟨fun entry => ?_, fun entry => ?_, fun entry => ?_, fun entry => ?_⟩ <;> split
  · exact k.serial entry
  · rfl
  · exact k.key entry
  · rfl
  · exact k.bytes entry
  · rfl
  · exact k.owner entry
  · rfl

theorem Keeps.map_serial (entries : List (Entry κ)) : (entries.map change).map (·.serial) = entries.map (·.serial) := by
  rw [map_map]
  exact map_congr_left fun entry _ => k.serial entry

theorem Keeps.map_key (entries : List (Entry κ)) : (entries.map change).map (·.key) = entries.map (·.key) := by
  rw [map_map]
  exact map_congr_left fun entry _ => k.key entry

theorem Keeps.totalBytes (entries : List (Entry κ)) :
    PdfCache.totalBytes (entries.map change) = PdfCache.totalBytes entries := by
  unfold PdfCache.totalBytes
  rw [map_map]
  exact congrArg List.sum (map_congr_left fun entry _ => k.bytes entry)

theorem Keeps.ownerBytes (entries : List (Entry κ)) (ownerId : Nat) :
    PdfCache.ownerBytes (entries.map change) ownerId = PdfCache.ownerBytes entries ownerId := by
  unfold PdfCache.ownerBytes
  rw [filter_map, k.totalBytes]
  refine congrArg PdfCache.totalBytes (filter_congr fun entry _ => ?_)
  rw [Function.comp_apply, k.owner]

end

omit [DecidableEq κ] in
theorem totalBytes_sublist {entries entries' : List (Entry κ)} (h : entries.Sublist entries') :
    totalBytes entries ≤ totalBytes entries' :=
  (h.map _).sum_le_sum fun _ _ => Nat.zero_le _

/-! ## Removal -/

/-- What `#remove` leaves. -/
def removed (world : World κ) (entry : Entry κ) : World κ :=
  let retired := world.update entry.serial fun entry => { entry with retiring := true }
  if entry.leases ≠ 0 then retired
  else World.unmap { retired with directory := world.directory.erase (.entry entry.key) } entry.key

/-- Objects may be changed, and leave the map together with their directories when they have no leases. -/
structure Thinned (keep : Entry κ → Bool) (change : Entry κ → Entry κ) (world world' : World κ) : Prop where
  keeps : Keeps change
  leases : ∀ entry, (change entry).leases = entry.leases
  mapped : world'.mapped = (world.mapped.filter keep).map change
  flag : world'.loaded = world.loaded
  objects : world'.objects.map (·.serial) = world.objects.map (·.serial)
  next : world'.next = world.next
  idle : ∀ entry ∈ world.mapped, keep entry = false → entry.leases = 0
  gone : ∀ entry ∈ world.mapped, keep entry = false → Name.entry entry.key ∉ world'.directory
  stay : ∀ name, (∀ entry ∈ world.mapped, keep entry = false → name ≠ .entry entry.key) →
    world'.directory.lookup name = world.directory.lookup name

section
variable {keep : Entry κ → Bool} {change : Entry κ → Entry κ} {world' : World κ}

theorem Thinned.mem (t : Thinned keep change world world') {entry' : Entry κ} :
    entry' ∈ world'.mapped ↔ ∃ entry ∈ world.mapped, keep entry = true ∧ change entry = entry' := by
  simp only [t.mapped, mem_map, mem_filter, and_assoc]

/-- The entry of a lease is kept. -/
theorem Thinned.held (t : Thinned keep change world world') (h : Core config small skip loaded busy live world)
    {lease : Lease κ} (hlease : lease ∈ live) :
    ∃ entry ∈ world.mapped, keep entry = true ∧ entry.serial = lease.serial ∧ entry.key = lease.key := by
  obtain ⟨entry, hentry, hserial, hkey⟩ := h.held lease hlease
  refine ⟨entry, hentry, Bool.eq_true_of_not_eq_false fun hout => ?_, hserial, hkey⟩
  have hzero := (h.counted entry hentry).symm.trans (t.idle entry hentry hout)
  refine countP_eq_zero.mp (Int.ofNat_eq_zero.mp hzero) lease hlease ?_
  exact decide_eq_true hserial.symm

/-- A directory stays when its entry does. -/
theorem Thinned.lookup (t : Thinned keep change world world') (h : Core config small skip loaded busy live world)
    (hentry : entry ∈ world.mapped) (hkeep : keep entry = true) :
    world'.directory.lookup (.entry entry.key) = world.directory.lookup (.entry entry.key) := by
  refine t.stay _ fun other hother hout heq => ?_
  rw [h.eq_of_key hentry hother (Name.entry.inj heq).symm, hkeep] at hout
  exact Bool.noConfusion hout

theorem Thinned.agree (t : Thinned keep change world world') (h : Core config small skip loaded busy live world)
    {name : Name κ} (hname : ¬ busy name) :
    name ∈ world'.directory ↔ ∃ entry ∈ world'.mapped, name = .entry entry.key := by
  by_cases hout : ∃ entry ∈ world.mapped, keep entry = false ∧ name = .entry entry.key
  · obtain ⟨entry, hentry, hout, rfl⟩ := hout
    refine ⟨fun hmem => (t.gone entry hentry hout hmem).elim, ?_⟩
    rintro ⟨entry', hentry', heq⟩
    obtain ⟨other, hother, hkeep, rfl⟩ := t.mem.mp hentry'
    rw [t.keeps.key] at heq
    rw [h.eq_of_key hentry hother (Name.entry.inj heq).symm, hout] at hkeep
    exact Bool.noConfusion hkeep
  · push Not at hout
    rw [← AList.lookup_isSome, t.stay name hout, AList.lookup_isSome, h.agree name hname]
    constructor
    · rintro ⟨entry, hentry, rfl⟩
      have hkeep : keep entry = true := Bool.eq_true_of_not_eq_false fun hgone => hout entry hentry hgone rfl
      exact ⟨change entry, t.mem.mpr ⟨entry, hentry, hkeep, rfl⟩, by rw [t.keeps.key]⟩
    · rintro ⟨entry', hentry', rfl⟩
      obtain ⟨entry, hentry, -, rfl⟩ := t.mem.mp hentry'
      exact ⟨entry, hentry, by rw [t.keeps.key]⟩

theorem Thinned.bounded (t : Thinned keep change world world') (h : Bounded config world) : Bounded config world' := by
  refine ⟨?_, fun ownerId => ?_⟩
  · rw [t.mapped, t.keeps.totalBytes]
    exact (totalBytes_sublist filter_sublist).trans h.1
  · rw [t.mapped, t.keeps.ownerBytes]
    exact (totalBytes_sublist (filter_sublist.filter _)).trans (h.2 ownerId)

theorem Core.thin (h : Core config small skip loaded busy live world) (t : Thinned keep change world world')
    (hretired : ∀ entry ∈ world'.mapped, entry.retiring = true → entry.leases ≠ 0 ∨ skip' = some entry.serial) :
    Core config small skip' loaded busy live world' := by
  refine ⟨t.flag.trans h.flag, t.objects ▸ h.serials, ?_, ?_, ?_, ?_, ?_, fun name => t.agree h, ?_, hretired,
    fun hsmall => t.bounded (h.bounded hsmall)⟩
  · intro entry' hentry'
    have hserial : entry'.serial ∈ world.objects.map (·.serial) := t.objects ▸ mem_map_of_mem hentry'
    obtain ⟨entry, hentry, heq⟩ := mem_map.mp hserial
    rw [t.next, ← heq]
    exact h.fresh entry hentry
  · rw [t.mapped, t.keeps.map_key]
    exact h.keys.sublist (filter_sublist.map _)
  · intro entry' hentry'
    obtain ⟨entry, hentry, -, rfl⟩ := t.mem.mp hentry'
    rw [t.leases, t.keeps.serial]
    exact h.counted entry hentry
  · intro lease hlease
    obtain ⟨entry, hentry, hkeep, hserial, hkey⟩ := t.held h hlease
    exact ⟨change entry, t.mem.mpr ⟨entry, hentry, hkeep, rfl⟩, (t.keeps.serial entry).trans hserial,
      (t.keeps.key entry).trans hkey⟩
  · intro lease hlease
    obtain ⟨entry, hentry, hkeep, -, hkey⟩ := t.held h hlease
    have hlookup := t.lookup h hentry hkeep
    rw [hkey] at hlookup
    exact hlookup.trans (h.kept lease hlease)
  · intro entry' hentry'
    obtain ⟨entry, hentry, -, rfl⟩ := t.mem.mp hentry'
    rw [t.keeps.key]
    exact h.apart entry hentry

end

/-- The object with this serial is retired. -/
def retiredAt (serial : Nat) (entry : Entry κ) : Entry κ :=
  if entry.serial = serial then { entry with retiring := true } else entry

omit [DecidableEq κ] in
theorem keeps_retiredAt (serial : Nat) : Keeps (retiredAt (κ := κ) serial) := by
  have hretire : Keeps fun entry : Entry κ => { entry with retiring := true } :=
    ⟨fun _ => rfl, fun _ => rfl, fun _ => rfl, fun _ => rfl⟩
  exact hretire.at serial

theorem mapped_removed (world : World κ) (entry : Entry κ) :
    (removed world entry).mapped
      = (world.mapped.filter fun other => entry.leases ≠ 0 || other.key ≠ entry.key).map (retiredAt entry.serial) := by
  have hretired : (world.update entry.serial fun entry => { entry with retiring := true }).mapped = _ :=
    mapped_update world entry.serial fun _ => rfl
  unfold removed
  by_cases hleases : entry.leases ≠ 0
  · rw [if_pos hleases, hretired, filter_eq_self.mpr fun other _ => by simp [hleases]]
    rfl
  · rw [if_neg hleases, mapped_unmap]
    change ((world.update entry.serial _).mapped.filter _) = _
    rw [hretired, filter_map]
    refine congrArg _ (filter_congr fun other _ => ?_)
    have hkey : (if other.serial = entry.serial then { other with retiring := true } else other).key = other.key :=
      (keeps_retiredAt entry.serial).key other
    rw [Function.comp_apply, hkey]
    simp [not_not.mp hleases]

theorem directory_removed (world : World κ) (entry : Entry κ) :
    (removed world entry).directory
      = if entry.leases ≠ 0 then world.directory else world.directory.erase (.entry entry.key) := by
  unfold removed
  split <;> rfl

theorem serials_removed (world : World κ) (entry : Entry κ) :
    (removed world entry).objects.map (·.serial) = world.objects.map (·.serial) := by
  have hretired : (world.update entry.serial fun entry => { entry with retiring := true }).objects.map (·.serial)
      = world.objects.map (·.serial) := (keeps_retiredAt entry.serial).map_serial world.objects
  unfold removed
  split
  · exact hretired
  · refine Eq.trans ?_ hretired
    simp only [World.unmap, map_map]
    refine map_congr_left fun other _ => ?_
    rw [Function.comp_apply]
    split <;> rfl

theorem thinned_removed (h : Core config small skip loaded busy live world) (hentry : entry ∈ world.mapped) :
    Thinned (fun other => entry.leases ≠ 0 || other.key ≠ entry.key)
    (retiredAt entry.serial) world (removed world entry) := by
  have hout : ∀ other ∈ world.mapped, (entry.leases ≠ 0 || other.key ≠ entry.key : Bool) = false →
      entry.leases = 0 ∧ other = entry := by
    intro other hother hkeep
    simp only [ne_eq, Bool.or_eq_false_iff, decide_eq_false_iff_not, not_not] at hkeep
    exact ⟨hkeep.1, h.eq_of_key hentry hother hkeep.2⟩
  refine ⟨keeps_retiredAt _, fun other => ?_, mapped_removed world entry, ?_, serials_removed world entry, ?_, ?_, ?_,
    ?_⟩
  · unfold retiredAt
    split <;> rfl
  · unfold removed
    split <;> rfl
  · unfold removed
    split <;> rfl
  · intro other hother hkeep
    obtain ⟨hleases, rfl⟩ := hout other hother hkeep
    exact hleases
  · intro other hother hkeep
    obtain ⟨hleases, rfl⟩ := hout other hother hkeep
    rw [directory_removed, if_neg (not_not.mpr hleases), AList.mem_erase]
    exact fun hmem => hmem.1 rfl
  · intro name hname
    rw [directory_removed]
    split
    · rfl
    · next hleases =>
      rw [not_not] at hleases
      exact AList.lookup_erase_ne (hname entry hentry (by simp [hleases]))

theorem Core.removed (h : Core config small skip loaded busy live world)
    (hentry : entry ∈ world.mapped) (hskip : ∀ serial, skip = some serial → serial = entry.serial) :
    Core config small none loaded busy live (removed world entry) := by
  refine h.thin (thinned_removed h hentry) fun entry' hentry' hretiring => ?_
  obtain ⟨other, hother, hkeep, rfl⟩ := (thinned_removed h hentry).mem.mp hentry'
  unfold retiredAt at hretiring ⊢
  by_cases hserial : other.serial = entry.serial
  · have heq := h.eq_of_serial hentry hother hserial
    rw [heq] at hkeep ⊢
    exact .inl (by simpa using hkeep)
  · rw [if_neg hserial] at hretiring ⊢
    refine (h.retired other hother hretiring).imp_right fun hother => ?_
    exact (hserial (hskip _ hother)).elim

/-- The other entries stay what they are. -/
theorem mem_removed {entry other : Entry κ} (hother : other ∈ world.mapped) (hserial : other.serial ≠ entry.serial)
    (hkey : other.key ≠ entry.key) : other ∈ (removed world entry).mapped := by
  rw [mapped_removed]
  refine mem_map.mpr ⟨other, mem_filter.mpr ⟨hother, ?_⟩, if_neg hserial⟩
  simp [hkey]

theorem key_of_mem_removed {entry other : Entry κ} (hother : other ∈ (removed world entry).mapped) :
    (entry.leases ≠ 0 ∨ other.key ≠ entry.key) ∧ ∃ before ∈ world.mapped, before.key = other.key := by
  rw [mapped_removed] at hother
  obtain ⟨before, hbefore, rfl⟩ := mem_map.mp hother
  obtain ⟨hbefore, hkeep⟩ := mem_filter.mp hbefore
  rw [(keeps_retiredAt entry.serial).key]
  exact ⟨by simpa using hkeep, before, hbefore, rfl⟩

/-- An entry without leases is gone. -/
theorem gone_removed (hleases : entry.leases = 0) : (∀ other ∈ (removed world entry).mapped, other.key ≠ entry.key) ∧
    Name.entry entry.key ∉ (removed world entry).directory := by
  refine ⟨fun other hother => (key_of_mem_removed hother).1.resolve_left (not_not.mpr hleases), ?_⟩
  rw [directory_removed, if_neg (not_not.mpr hleases), AList.mem_erase]
  exact fun hmem => hmem.1 rfl

/-! ## Leases -/

/-- One object gets another number of leases. -/
theorem Core.recount (h : Core config small none loaded busy live world) {serial : Nat} {change : Entry κ → Entry κ}
    (k : Keeps change) (hmapped : ∀ entry, (change entry).mapped = entry.mapped)
    (hcounted : ∀ entry ∈ world.mapped, (if entry.serial = serial then change entry else entry).leases
      = (live'.countP (·.serial = entry.serial) : ℕ))
    (hheld : ∀ lease ∈ live', ∃ entry ∈ world.mapped, entry.serial = lease.serial ∧ entry.key = lease.key)
    (hkept : ∀ lease ∈ live', world.directory.lookup (.entry lease.key) = some lease.folder)
    (hretired : ∀ entry ∈ world.mapped, entry.serial = serial → (change entry).retiring = true →
      (change entry).leases ≠ 0 ∨ skip = some entry.serial) :
    Core config small skip loaded busy live' (world.update serial change) := by
  have hat := k.at serial
  have hlist := mapped_update world serial hmapped
  have hmem : ∀ {entry'}, entry' ∈ (world.update serial change).mapped ↔
      ∃ entry ∈ world.mapped, (if entry.serial = serial then change entry else entry) = entry' := by
    intro entry'
    rw [hlist, mem_map]
  refine ⟨h.flag, ?_, ?_, ?_, ?_, ?_, hkept, ?_, ?_, ?_, ?_⟩
  · exact (hat.map_serial world.objects).symm ▸ h.serials
  · intro entry' hentry'
    obtain ⟨entry, hentry, rfl⟩ := mem_map.mp hentry'
    rw [hat.serial entry]
    exact h.fresh entry hentry
  · rw [hlist, hat.map_key]
    exact h.keys
  · intro entry' hentry'
    obtain ⟨entry, hentry, rfl⟩ := hmem.mp hentry'
    rw [hat.serial entry]
    exact hcounted entry hentry
  · intro lease hlease
    obtain ⟨entry, hentry, hserial, hkey⟩ := hheld lease hlease
    exact ⟨_, hmem.mpr ⟨entry, hentry, rfl⟩, (hat.serial entry).trans hserial, (hat.key entry).trans hkey⟩
  · intro name hname
    refine (h.agree name hname).trans ⟨?_, ?_⟩
    · rintro ⟨entry, hentry, rfl⟩
      exact ⟨_, hmem.mpr ⟨entry, hentry, rfl⟩, congrArg Name.entry (hat.key entry).symm⟩
    · rintro ⟨entry', hentry', rfl⟩
      obtain ⟨entry, hentry, rfl⟩ := hmem.mp hentry'
      exact ⟨entry, hentry, congrArg Name.entry (hat.key entry)⟩
  · intro entry' hentry'
    obtain ⟨entry, hentry, rfl⟩ := hmem.mp hentry'
    rw [hat.key entry]
    exact h.apart entry hentry
  · intro entry' hentry'
    obtain ⟨entry, hentry, rfl⟩ := hmem.mp hentry'
    rw [hat.serial entry]
    split
    · next heq => exact hretired entry hentry heq
    · exact fun hretiring => (h.retired entry hentry hretiring).imp_right fun hnone =>
        (Option.some_ne_none _ hnone.symm).elim
  · intro hsmall
    obtain ⟨htotal, howner⟩ := h.bounded hsmall
    refine ⟨?_, fun ownerId => ?_⟩
    · rw [hlist, hat.totalBytes]
      exact htotal
    · rw [hlist, hat.ownerBytes]
      exact howner ownerId

theorem Core.leased (h : Core config small none loaded busy live world)
    (hentry : entry ∈ world.mapped) {lease : Lease κ} (hserial : lease.serial = entry.serial)
    (hkey : lease.key = entry.key)
    (hfolder : world.directory.lookup (.entry entry.key) = some lease.folder) (now : ℚ) :
    Core config small none loaded busy (live ++ [lease]) (world.update entry.serial fun entry =>
      { entry with leases := entry.leases + 1, manifest := { entry.manifest with usedAt := now } }) := by
  have hleases : ∀ other ∈ world.mapped, other.serial = entry.serial →
      other.leases + 1 = ((live ++ [lease]).countP (·.serial = other.serial) : ℕ) := by
    intro other hother heq
    rw [h.counted other hother, countP_append, countP_singleton, heq, hserial]
    simp
  refine h.recount ⟨fun _ => rfl, fun _ => rfl, fun _ => rfl, fun _ => rfl⟩ (fun _ => rfl) ?_ ?_ ?_ ?_
  · intro other hother
    split
    · next heq => exact hleases other hother heq
    · next hne =>
      rw [h.counted other hother, countP_append, countP_singleton, hserial]
      simp [Ne.symm hne]
  · exact forall_mem_append.mpr ⟨h.held, forall_mem_singleton.mpr ⟨entry, hentry, hserial.symm, hkey.symm⟩⟩
  · intro other hother
    rcases mem_append.mp hother with hother | hother
    · exact h.kept other hother
    · rw [mem_singleton.mp hother, hkey]
      exact hfolder
  · intro other hother heq _
    refine .inl ?_
    change other.leases + 1 ≠ 0
    rw [h.counted other hother]
    omega

/-- The object whose lease comes back may have none left. -/
theorem Core.unleased {lease : Lease κ} (h : Core config small none loaded busy (lease :: live) world) :
    Core config small (some lease.serial) loaded busy live
      (world.update lease.serial fun entry => { entry with leases := entry.leases - 1 }) := by
  refine h.recount ⟨fun _ => rfl, fun _ => rfl, fun _ => rfl, fun _ => rfl⟩ (fun _ => rfl) ?_ ?_ ?_ ?_
  · intro other hother
    have hcount := h.counted other hother
    rw [countP_cons] at hcount
    split
    · next heq =>
      rw [heq] at hcount ⊢
      change other.leases - 1 = _
      rw [hcount]
      simp
    · next hne =>
      rw [hcount]
      simp [Ne.symm hne]
  · exact fun other hother => h.held other (mem_cons_of_mem _ hother)
  · exact fun other hother => h.kept other (mem_cons_of_mem _ hother)
  · exact fun other _ heq _ => .inr (congrArg some heq.symm)

/-- An object that is not retired needs no exception. -/
theorem Core.unskip {serial : Nat} (h : Core config small (some serial) loaded busy live world)
    (hretired : ∀ entry ∈ world.mapped, entry.serial = serial → entry.retiring ≠ true) :
    Core config small none loaded busy live world where
  flag := h.flag
  serials := h.serials
  fresh := h.fresh
  keys := h.keys
  counted := h.counted
  held := h.held
  kept := h.kept
  agree := h.agree
  apart := h.apart
  retired entry hentry hretiring := (h.retired entry hentry hretiring).imp_right fun hskip =>
    (hretired entry hentry (Option.some.inj hskip).symm hretiring).elim
  bounded := h.bounded

theorem Core.perm (h : Core config small skip loaded busy live world) (hperm : live.Perm live') :
    Core config small skip loaded busy live' world where
  flag := h.flag
  serials := h.serials
  fresh := h.fresh
  keys := h.keys
  counted entry hentry := (h.counted entry hentry).trans (congrArg Nat.cast (hperm.countP_eq _))
  held lease hlease := h.held lease (hperm.mem_iff.mpr hlease)
  kept lease hlease := h.kept lease (hperm.mem_iff.mpr hlease)
  agree := h.agree
  apart := h.apart
  retired := h.retired
  bounded := h.bounded

end

end TsEpistle.Agents.PdfCache
