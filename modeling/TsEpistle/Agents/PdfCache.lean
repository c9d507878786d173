import TsEpistle.Library.JsString
import TsEpistle.Library.Machine
import TsEpistle.Library.Effects

/-! The cache of prepared PDF files (`server/agents/pdf-cache.ts`). The calls of one cache run one after the other; an
oracle answers what they ask of the clock, of the database and of the file system. -/

namespace TsEpistle.Agents.PdfCache
open Library

/-! ## Data -/

structure AgentPdfCacheSource where
  (id sessionId : JsString)
  ownerId : Nat
  sha256 : JsString
  byteLength : Nat
  deriving DecidableEq

/-- The number of a file name `part-0.pdf`. -/
structure Part where
  (filename startPage endPage byteLength : Nat)
  sha256 : JsString
  deriving DecidableEq

structure Manifest where
  source : AgentPdfCacheSource
  (createdAt usedAt : ℚ)
  pageCount : Nat
  parts : List Part
  deriving DecidableEq

/-- A regular file, and whether it has the mode 0600. -/
structure File where
  content : List UInt8
  isPrivate : Bool
  deriving DecidableEq

/-- A directory of the cache: `manifest` is what the schema makes of the manifest's file, `sound` whether kinds, modes
and sizes are those that loading asks for. -/
structure Folder where
  files : List (Nat × File)
  manifest : Option Manifest
  sound : Bool
  deriving DecidableEq

inductive Name (κ : Type)
  | entry (key : κ)
  | pending (key : κ)
  | other (name : Nat)
  deriving DecidableEq

/-- An object of the code; `mapped` while it is in the map of entries, which are in the order of insertion. -/
structure Entry (κ : Type) where
  serial : Nat
  key : κ
  manifest : Manifest
  bytes : Nat
  leases : Int
  (retiring mapped : Bool)

/-- What `acquire` hands out, with the files as they were then. -/
structure Lease (κ : Type) where
  serial : Nat
  key : κ
  pageCount : Nat
  parts : List Part
  folder : Folder
  released : Bool

/-- What the build answers; the digests are taken of the copies. -/
structure PreparedPart where
  content : List UInt8
  (startPage endPage byteLength : Nat)

structure PreparedAgentPdf where
  pageCount : Nat
  parts : List PreparedPart

inductive Failure
  | repository (code message : String) (status : Nat)
  | invalid (message : String)
  | aborted
  | rejected
  | file

def unavailable : Failure :=
  .repository "AGENT_MEDIA_UNAVAILABLE" "The original attachment is no longer available." 404

def busy (message : String) : Failure := .repository "PDF_PREPARATION_BUSY" message 503

/-- The answers to one question: the time, whether the source is authorized, whether the call was aborted, whether a
file operation succeeds (also an `rm` after which there is another one), whether another `rm` does, and whether
`prepared.cleanup` does. -/
structure Answer where
  now : ℚ
  (authorized aborted succeeds removed cleaned : Bool)

structure World (κ : Type) [DecidableEq κ] where
  directory : AList fun _ : Name κ => Folder
  objects : List (Entry κ)
  loaded : Bool
  (next asked : Nat)

structure Config (κ : Type) where
  keyFor : AgentPdfCacheSource → κ
  digest : List UInt8 → JsString
  (globalBytes ownerBytes : Nat)
  ttlMs : ℚ
  oracle : Nat → Answer

def ENTRY_BYTES : Nat := 300 * 1024 * 1024

variable {κ : Type} [DecidableEq κ]

def World.mapped (world : World κ) : List (Entry κ) := world.objects.filter (·.mapped)

def World.update (world : World κ) (serial : Nat) (change : Entry κ → Entry κ) : World κ :=
  { world with objects := world.objects.map fun entry => if entry.serial = serial then change entry else entry }

/-- `entries.delete(key)` -/
def World.unmap (world : World κ) (key : κ) : World κ :=
  { world with
    objects := world.objects.map fun entry => if entry.key = key then { entry with mapped := false } else entry }

/-- `entries.set(entry.key, entry)`, where an entry with the key keeps its place. -/
def World.insert (world : World κ) (entry : Entry κ) : World κ :=
  let old := world.objects.filter fun other => other.mapped && other.key = entry.key
  { world with
    next := world.next + 1
    objects :=
      if old.isEmpty then world.objects ++ [entry]
      else
        (world.objects.map fun other => if other.mapped && other.key = entry.key then entry else other)
          ++ old.map fun other => { other with mapped := false } }

/-! ## Questions -/

abbrev Call (κ : Type) [DecidableEq κ] := Work (World κ) Failure

section
variable (config : Config κ)

def ask : Call κ Answer := do
  let world ← get
  set { world with asked := world.asked + 1 }
  return config.oracle world.asked

def fileOperation : Call κ Unit := do
  let answer ← ask config
  if !answer.succeeds then throw .file

def rm (succeeds : Answer → Bool) (name : Name κ) : Call κ Unit := do
  let answer ← ask config
  if !succeeds answer then throw .file
  else modify fun world => { world with directory := world.directory.erase name }

def throwIfAborted : Call κ Unit := do
  let answer ← ask config
  if answer.aborted then throw .aborted

/-- `#authorize`, for a source that the answer is about. -/
def authorize (_source : AgentPdfCacheSource) : Call κ Unit := do
  let answer ← ask config
  if !answer.authorized then throw unavailable

/-! ## Entries -/

/-- `#remove` of an entry with the fields it has now. -/
def remove (entry : Entry κ) : Call κ Unit := do
  modify fun world => world.update entry.serial fun entry => { entry with retiring := true }
  if entry.leases ≠ 0 then pure ()
  else do
    rm config (·.removed) (.entry entry.key)
    modify fun world => world.unmap entry.key

/-- The page behind the last one when the parts go on from a page without a gap. -/
def tilesFrom (pageCount : Nat) : Nat → List Part → Option Nat
  | nextPage, [] => some nextPage
  | nextPage, part :: parts =>
    if part.startPage ≠ nextPage || part.endPage < nextPage || pageCount < part.endPage then none
    else tilesFrom pageCount (part.endPage + 1) parts

def partMatches (folder : Folder) (part : Part) : Bool :=
  match folder.files.lookup part.filename with
  | none => false
  | some file =>
    file.isPrivate && file.content.length = part.byteLength && config.digest file.content = part.sha256

def filesMatch (manifest : Manifest) : Option Folder → Bool
  | none => false
  | some folder =>
    tilesFrom manifest.pageCount 1 manifest.parts = some (manifest.pageCount + 1)
      && manifest.parts.all (partMatches config folder)

/-- `#validFiles`; reading the files may fail. -/
def validFiles (entry : Entry κ) : Call κ Bool := do
  let answer ← ask config
  let world ← get
  return answer.succeeds && filesMatch config entry.manifest (world.directory.lookup (.entry entry.key))
    && entry.bytes ≤ ENTRY_BYTES

def manifestBytes (parts : List Part) : Nat := (parts.map (·.byteLength)).sum

/-- A new object. -/
def World.entry (world : World κ) (key : κ) (manifest : Manifest) : Entry κ :=
  ⟨world.next, key, manifest, manifestBytes manifest.parts, 0, false, true⟩

def loadEntry (key : κ) (folder : Folder) : Call κ Unit := do
  fileOperation config
  match folder.manifest with
  | none => throw (.invalid "Invalid cache manifest")
  | some manifest =>
    if !folder.sound then throw (.invalid "Invalid cache manifest")
    else do
      let answer ← ask config
      let later ← ask config
      if config.keyFor manifest.source ≠ key ∨ answer.now < manifest.createdAt
          ∨ manifest.createdAt + config.ttlMs ≤ later.now then
        throw (.invalid "Expired cache")
      else do
        authorize config manifest.source
        let world ← get
        let valid ← validFiles config (world.entry key manifest)
        if !valid then throw (.invalid "Corrupt cache")
        else modify fun world => world.insert (world.entry key manifest)

def loadItem (item : Sigma fun _ : Name κ => Folder) : Call κ Unit :=
  match item.1 with
  | .entry key => tryCatch (loadEntry config key item.2) fun _ => rm config (·.removed) item.1
  | _ => tryCatch (rm config (·.succeeds) item.1) fun _ => rm config (·.removed) item.1

/-- `#load`: the directory is made and looked at, then its items are read. -/
def load : Call κ Unit := do
  let world ← get
  if world.loaded then pure ()
  else do
    fileOperation config
    fileOperation config
    fileOperation config
    fileOperation config
    let world ← get
    world.directory.entries.forM (loadItem config)
    modify fun world => { world with loaded := true }

/-! ## Sweeping -/

def stillValid (entry : Entry κ) : Call κ Bool := do
  let answer ← ask config
  if !entry.retiring && answer.now < entry.manifest.createdAt + config.ttlMs then
    tryCatch (do authorize config entry.manifest.source; pure true) fun _ => pure false
  else pure false

def sweepEntry (entry : Entry κ) : Call κ Unit := do
  let valid ← stillValid config entry
  if !valid then remove config entry

/-- `#sweep` -/
def sweepEntries : Call κ Unit := do
  let world ← get
  world.mapped.forM (sweepEntry config)

structure Filter where
  (sessionId mediaId : Option JsString)

def Filter.selects (filter : Filter) (source : AgentPdfCacheSource) : Bool :=
  filter.sessionId.any (fun sessionId => sessionId ≠ [] && source.sessionId = sessionId)
    || filter.mediaId.any (fun mediaId => mediaId ≠ [] && source.id = mediaId)

def sweep (filter : Option Filter) : Call κ Unit := do
  load config
  let world ← get
  world.mapped.forM fun entry =>
    if filter.any (·.selects entry.manifest.source) then remove config entry else pure ()
  sweepEntries config

/-! ## Acquiring -/

def totalBytes (entries : List (Entry κ)) : Nat := (entries.map (·.bytes)).sum

def ownerBytes (entries : List (Entry κ)) (ownerId : Nat) : Nat :=
  totalBytes (entries.filter fun entry => entry.manifest.source.ownerId = ownerId)

def fitsGlobal (world : World κ) : Bool := totalBytes world.mapped + ENTRY_BYTES ≤ config.globalBytes

def fitsOwner (world : World κ) (ownerId : Nat) : Bool :=
    ownerBytes world.mapped ownerId + ENTRY_BYTES ≤ config.ownerBytes

/-- Entries without leases go until there is room. -/
def evict (ownerId : Nat) : List (Entry κ) → Call κ Unit
  | [] => pure ()
  | candidate :: candidates => do
      let world ← get
      if fitsGlobal config world && fitsOwner config world ownerId then pure ()
      else do
        if candidate.leases = 0
            && (!fitsGlobal config world || candidate.manifest.source.ownerId = ownerId) then
          remove config candidate
        evict ownerId candidates

/-- The entry of a key, if it can be used as it is. -/
def currentEntry (key : κ) : Call κ (Option (Entry κ)) := do
  let world ← get
  match world.mapped.find? (·.key = key) with
  | none => return none
  | some entry => do
      let valid ← validFiles config entry
      if valid then return some entry
      else do
        remove config entry
        if entry.leases ≠ 0 then throw (busy "This prepared PDF is being replaced. Try again shortly.")
        else return none

def World.write (world : World κ) (name : Name κ) (change : Folder → Folder) : World κ :=
  match world.directory.lookup name with
  | none => world
  | some folder => { world with directory := world.directory.insert name (change folder) }

/-- The parts are copied one by one. -/
def copyParts (key : κ) : Nat → List PreparedPart → Call κ (List Part)
  | _, [] => return []
  | index, part :: parts => do
      throwIfAborted config
      fileOperation config
      modify fun world => world.write (.pending key) fun folder =>
        { folder with files := (index, ⟨part.content, false⟩) :: folder.files }
      fileOperation config
      modify fun world => world.write (.pending key) fun folder =>
        { folder with files := (index, ⟨part.content, true⟩) :: folder.files }
      fileOperation config
      let copied ← copyParts key (index + 1) parts
      return ⟨index, part.startPage, part.endPage, part.byteLength, config.digest part.content⟩ :: copied

def AGENT_PDF_MAX_PAGES : Nat := 1000

def AGENT_PDF_PART_MAX_BYTES : Nat := 48000000

/-- What `manifestSchema` asks beyond the types; the source has been parsed before. -/
def manifestAccepted (manifest : Manifest) : Bool :=
  1 ≤ manifest.pageCount && manifest.pageCount ≤ AGENT_PDF_MAX_PAGES
    && 1 ≤ manifest.parts.length && manifest.parts.length ≤ 8
    && manifest.parts.all fun part =>
      part.filename < 8 && 0 < part.startPage && 0 < part.endPage && 0 < part.byteLength
        && part.byteLength ≤ AGENT_PDF_PART_MAX_BYTES

/-- `rename` onto the entry's directory, which fails where there is one. -/
def publishFolder (key : κ) : Call κ Unit := do
  let world ← get
  match world.directory.lookup (Name.pending key), world.directory.lookup (Name.entry key) with
  | some folder, none =>
    set { world with directory := (world.directory.erase (Name.pending key)).insert (Name.entry key) folder }
  | _, _ => throw .file

/-- What is done between the build and its cleanup. -/
def fill (source : AgentPdfCacheSource) (key : κ) (prepared : PreparedAgentPdf) : Call κ (Entry κ) := do
  rm config (·.succeeds) (.pending key)
  fileOperation config
  modify fun world => { world with directory := world.directory.insert (.pending key) ⟨[], none, true⟩ }
  let parts ← copyParts config key 0 prepared.parts
  let created ← ask config
  let used ← ask config
  let manifest : Manifest := ⟨source, created.now, used.now, prepared.pageCount, parts⟩
  if !manifestAccepted manifest then throw (.invalid "Invalid cache manifest")
  else do
    authorize config source
    throwIfAborted config
    fileOperation config
    modify fun world => world.write (.pending key) fun folder => { folder with manifest := some manifest }
    fileOperation config
    publishFolder key
    let world ← get
    let entry := world.entry key manifest
    let valid ← validFiles config entry
    if !valid then do
      rm config (·.removed) (.entry key)
      throw (.invalid "Invalid prepared PDF cache")
    else do
      modify fun world => world.insert entry
      return entry

/-- The last part of `acquire`'s `try`. -/
def settle (key : κ) : Call κ Unit := do
  let answer ← ask config
  if !answer.cleaned then throw .rejected
  else rm config (·.removed) (.pending key)

/-- Room is made, and the parts are built and stored. -/
def store (source : AgentPdfCacheSource) (key : κ) (build : Option PreparedAgentPdf) : Call κ (Entry κ) := do
  let world ← get
  evict config source.ownerId
    (world.mapped.mergeSort fun first second => first.manifest.usedAt ≤ second.manifest.usedAt)
  let world ← get
  if !fitsGlobal config world || !fitsOwner config world source.ownerId then
    throw (busy "Prepared document storage is busy. Try again after another request finishes.")
  else do
    throwIfAborted config
    match build with
    | none => throw .rejected
    | some prepared => Work.ensure (fill config source key prepared) (settle config key)

def takeLease (entry : Entry κ) : Call κ (Lease κ) := do
  throwIfAborted config
  let answer ← ask config
  modify fun world => world.update entry.serial fun entry =>
    { entry with leases := entry.leases + 1, manifest := { entry.manifest with usedAt := answer.now } }
  let world ← get
  return ⟨entry.serial, entry.key, entry.manifest.pageCount, entry.manifest.parts,
    (world.directory.lookup (.entry entry.key)).getD ⟨[], none, false⟩, false⟩

/-- The part of `acquire` that runs alone; `accepted` tells whether the schema takes the source, and the build may
reject. -/
def acquire (source : AgentPdfCacheSource) (accepted : Bool) (build : Option PreparedAgentPdf) : Call κ (Lease κ) := do
  throwIfAborted config
  if !accepted then throw (.invalid "Invalid source")
  else do
    load config
    sweepEntries config
    authorize config source
    let key := config.keyFor source
    let current ← currentEntry config key
    match current with
    | some entry =>
      if entry.retiring then throw unavailable
      else takeLease config entry
    | none => do
        let entry ← store config source key build
        takeLease config entry

/-- The part of a lease's `cleanup` that runs alone, at its first call. -/
def release (lease : Lease κ) : Call κ Unit := do
  modify fun world => world.update lease.serial fun entry => { entry with leases := entry.leases - 1 }
  let world ← get
  match world.objects.find? (·.serial = lease.serial) with
  | none => pure ()
  | some leased => do
      let answer ← ask config
      if leased.retiring || leased.manifest.createdAt + config.ttlMs ≤ answer.now then remove config leased

/-! ## Calls -/

inductive Operation
  | acquire (source : AgentPdfCacheSource) (accepted : Bool) (build : Option PreparedAgentPdf)
  | cleanup (lease : Nat)
  | sweep (filter : Option Filter)

structure State (κ : Type) [DecidableEq κ] where
  world : World κ
  leases : List (Lease κ)

def exec : Operation → State κ → State κ
  | .acquire source accepted build, state =>
    match (acquire config source accepted build).run.run state.world with
    | (.ok lease, world) => ⟨world, state.leases ++ [lease]⟩
    | (.error _, world) => ⟨world, state.leases⟩
  | .cleanup index, state =>
    match state.leases[index]? with
    | none => state
    | some lease =>
      if lease.released then state
      else ⟨((release config lease).run.run state.world).2, state.leases.set index { lease with released := true }⟩
  | .sweep filter, state => ⟨((sweep config filter).run.run state.world).2, state.leases⟩

/-- The calls in the order in which they run, each with its own answers. -/
def cache : Machine (State κ) (Operation × (Nat → Answer)) where
  enabled _ _ := True
  exec call := exec { config with oracle := call.2 } call.1

/-- A cache that has not been used yet, over a directory. -/
def State.initial (directory : AList fun _ : Name κ => Folder) : State κ := ⟨⟨directory, [], false, 0, 0⟩, []⟩

end

end TsEpistle.Agents.PdfCache
