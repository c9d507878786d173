import TsEpistle.Agents.SkillFrames

/-! What is approved is what is read back: the inputs whose bundle survives its bytes. -/

namespace TsEpistle.Agents.Skills
open Library Library.Checked LinePatch List
open Storage (lower)

/-! ## Bundles that are approved -/

variable {resources : List SkillResourceInput}

section
variable {platform : Platform}

theorem validate_path {value path : JsString} (h : validateSkillVirtualPath value = .ok path) : path = value := by
  obtain ⟨-, h⟩ := guard_ok h
  obtain ⟨-, h⟩ := guard_ok h
  obtain ⟨-, h⟩ := guard_ok h
  obtain ⟨-, h⟩ := guard_ok h
  rw [← Except.ok.inj h, Storage.joined_segments]

theorem validate_ascii {value path : JsString} (h : validateSkillVirtualPath value = .ok path) :
    value ≠ [] ∧ (bufferFrom value).length ≤ MAX_PATH_BYTES ∧ ∀ unit ∈ value, unit.toNat < 0x80 := by
  obtain ⟨hlength, h⟩ := guard_ok h
  obtain ⟨-, h⟩ := guard_ok h
  obtain ⟨hunits, -⟩ := guard_ok h
  rw [not_or, not_lt] at hlength
  rw [not_not, all_eq_true] at hunits
  refine ⟨hlength.1, hlength.2, fun unit hunit => ?_⟩
  have hrange := hunits unit hunit
  simp only [Bool.and_eq_true, decide_eq_true_eq, UInt16.le_iff_toNat_le] at hrange
  have hmaximum : (0x7e : UInt16).toNat = 0x7e := rfl
  omega

/-- Resources with the path that each is kept under. -/
def named (resources : List SkillResourceInput) : Supplied := resources.map fun resource => (resource.path, resource)

theorem supply_ok {supplied supplied' : Supplied} {resource : SkillResourceInput}
    (h : supply supplied resource = .ok supplied') : (∃ path, validateSkillVirtualPath resource.path = .ok path) ∧
    supplied' = supplied ++ named [resource] ∧ resource.path ∉ supplied.map Prod.fst := by
  obtain ⟨path, hpath, h⟩ := bind_ok h
  obtain ⟨hfresh, h⟩ := guard_ok h
  obtain rfl := validate_path hpath
  refine ⟨⟨_, hpath⟩, (Except.ok.inj h).symm, fun hmem => hfresh (.inr ?_)⟩
  obtain ⟨entry, hentry, hsame⟩ := mem_map.mp hmem
  rw [any_eq_true]
  exact ⟨entry, hentry, decide_eq_true hsame⟩

theorem foldlM_supply_ok {supplied supplied' : Supplied}
    (h : resources.foldlM supply supplied = .ok supplied') (hnodup : (supplied.map Prod.fst).Nodup) :
    supplied' = supplied ++ named resources ∧ (supplied'.map Prod.fst).Nodup
      ∧ ∀ resource ∈ resources, ∃ path, validateSkillVirtualPath resource.path = .ok path := by
  induction resources generalizing supplied with
  | nil =>
    obtain rfl := Except.ok.inj h
    exact ⟨(append_nil _).symm, hnodup, forall_mem_nil _⟩
  | cons resource resources ih =>
    rw [foldlM_cons] at h
    obtain ⟨middle, hmiddle, h⟩ := bind_ok h
    obtain ⟨hvalid, rfl, hfresh⟩ := supply_ok hmiddle
    have hmiddleNodup : ((supplied ++ named [resource]).map Prod.fst).Nodup := by
      rw [map_append, nodup_append]
      refine ⟨hnodup, nodup_singleton _, ?_⟩
      intro path hpath other hother hsame
      obtain rfl := mem_singleton.mp hother
      dsimp only at hsame
      exact hfresh (by rw [← hsame]; exact hpath)
    obtain ⟨hsupplied, hdistinct, hall⟩ := ih h hmiddleNodup
    refine ⟨?_, hdistinct, forall_mem_cons.mpr ⟨hvalid, hall⟩⟩
    rw [hsupplied, append_assoc]
    rfl

/-- What is checked of a resource that is approved under its path. -/
structure Admissible (platform : Platform) (resource : SkillResourceInput) : Prop where
  nonempty : resource.bytes ≠ []
  bounded : resource.bytes.length ≤ MAX_RESOURCE_BYTES
  mediaType : normalizedMediaType platform resource.mediaType ∈ allowedMediaTypes

theorem approve_ok {supplied : Supplied} {reference : JsString} {approved : SkillResource}
    (h : approve platform supplied reference = .ok approved) : ∃ resource, (reference, resource) ∈ supplied ∧
    approved = approvedResource platform reference resource ∧ Admissible platform resource := by
  unfold approve at h
  split at h
  · cases h
  · rename_i path resource hfind
    obtain ⟨-, h⟩ := guard_ok h
    obtain ⟨hbytes, h⟩ := guard_ok h
    obtain ⟨_, hmediaType, h⟩ := bind_ok h
    obtain ⟨hallowed, -⟩ := guard_ok hmediaType
    rw [not_or, not_lt] at hbytes
    rw [not_or, Bool.not_eq_false, contains_iff_mem] at hallowed
    have hsame : path = reference := by simpa using find?_some hfind
    refine ⟨resource, ?_, ?_, hbytes.1, hbytes.2, hallowed.1⟩
    rotate_left
    · split at h
      · obtain ⟨_, -, h⟩ := bind_ok h
        exact (Except.ok.inj h).symm
      · exact (Except.ok.inj h).symm
    rw [← hsame]
    exact mem_of_find?_eq_some hfind

theorem mapM_approve_ok {supplied : Supplied} {references : List JsString} {approved : List SkillResource}
    (h : references.mapM (approve platform supplied) = .ok approved) :
    List.Forall₂ (fun reference resource => approve platform supplied reference = .ok resource)
      references approved := by
  induction references generalizing approved with
  | nil =>
    obtain rfl := Except.ok.inj h
    exact .nil
  | cons reference references ih =>
    rw [mapM_cons] at h
    obtain ⟨first, hfirst, h⟩ := bind_ok h
    obtain ⟨rest, hrest, h⟩ := bind_ok h
    obtain rfl := Except.ok.inj h
    exact .cons hfirst (ih hrest)

theorem approved_paths {supplied : Supplied} {references : List JsString} {approved : List SkillResource}
    (h : List.Forall₂ (fun reference resource => approve platform supplied reference = .ok resource)
      references approved) :
    approved.map SkillResource.path = references := by
  induction h with
  | nil => rfl
  | cons hfirst _ ih =>
    obtain ⟨input, -, rfl, -⟩ := approve_ok hfirst
    rw [map_cons, ih]
    rfl

variable (platform) in
/-- A resource as it is approved. -/
def approvedOf (resource : SkillResourceInput) : SkillResource := approvedResource platform resource.path resource

variable (platform) in
/-- The references of an entry in the order of the bundle. -/
def localeSorted (references : List JsString) : List JsString :=
  references.insertionSort fun left right => platform.localeCompare left right ≤ 0

/-- What is known of a bundle that was approved. -/
structure Approved (platform : Platform) (entry : ParsedSkillMarkdown) (resources : List SkillResourceInput)
    (bundle : ApprovedSkillBundle) : Prop where
  count : bundle.resources.length ≤ MAX_RESOURCES
  paths : bundle.resources.map SkillResource.path = localeSorted platform entry.references
  taken : ∀ resource ∈ bundle.resources, ∃ input ∈ resources, resource = approvedOf platform input
    ∧ Admissible platform input ∧ ∃ path, validateSkillVirtualPath input.path = .ok path
  all : entry.references.Nodup → bundle.resources.Perm (resources.map (approvedOf platform))

theorem build_ok {entry : ParsedSkillMarkdown} {bundle : ApprovedSkillBundle}
    (h : buildApprovedSkillBundle platform entry resources = .ok bundle) :
    Approved platform entry resources bundle := by
  obtain ⟨hcount, h⟩ := guard_ok h
  obtain ⟨supplied, hsupplied, h⟩ := bind_ok h
  obtain ⟨approved, happroved, h⟩ := bind_ok h
  obtain ⟨hlength, h⟩ := guard_ok h
  obtain ⟨-, h⟩ := guard_ok h
  obtain rfl := Except.ok.inj h
  rw [not_not] at hlength
  obtain ⟨rfl, hdistinct, hvalid⟩ := foldlM_supply_ok hsupplied nodup_nil
  rw [nil_append] at happroved hlength hdistinct
  have hpairs := mapM_approve_ok happroved
  have hnames : (named resources).map Prod.fst = resources.map SkillResourceInput.path := by
    rw [named, map_map]
    rfl
  have htotal : approved.length = resources.length := by
    rw [← hlength, named, length_map]
  -- an approved resource is one that was supplied under its reference
  have hsource : ∀ reference resource, approve platform (named resources) reference = .ok resource →
      ∃ input ∈ resources, input.path = reference ∧ resource = approvedOf platform input
        ∧ Admissible platform input := by
    intro reference resource hresource
    obtain ⟨input, hinput, rfl, hadmissible⟩ := approve_ok hresource
    obtain ⟨found, hfound, hsame⟩ := mem_map.mp hinput
    obtain ⟨rfl, rfl⟩ := Prod.mk.inj hsame
    exact ⟨_, hfound, rfl, rfl, hadmissible⟩
  have hpaths := approved_paths hpairs
  refine ⟨?_, ?_, ?_, ?_⟩
  · dsimp only
    rw [sortByLocale, length_insertionSort, htotal]
    omega
  · dsimp only
    have hsort :=
      map_insertionSort (r := fun left right : SkillResource => platform.localeCompare left.path right.path ≤ 0)
      (s := fun left right => platform.localeCompare left right ≤ 0) SkillResource.path approved fun _ _ _ _ => Iff.rfl
    rw [localeSorted, ← hpaths]
    exact hsort
  · intro resource hresource
    dsimp only at hresource
    rw [sortByLocale, mem_insertionSort] at hresource
    obtain ⟨reference, -, happrove⟩ := Library.Table.exists_of_mem_right hpairs resource hresource
    obtain ⟨input, hinput, -, hsame, hadmissible⟩ := hsource _ _ happrove
    exact ⟨input, hinput, hsame, hadmissible, hvalid input hinput⟩
  · intro hnodup
    refine (perm_insertionSort _ _).trans ?_
    have hsubset : approved ⊆ resources.map (approvedOf platform) := by
      intro resource hresource
      obtain ⟨reference, -, happrove⟩ := Library.Table.exists_of_mem_right hpairs resource hresource
      obtain ⟨input, hinput, -, rfl, -⟩ := hsource _ _ happrove
      exact mem_map_of_mem hinput
    have happrovedNodup : approved.Nodup := by
      refine Nodup.of_map SkillResource.path ?_
      rw [hpaths]
      exact hnodup
    exact (subperm_of_subset happrovedNodup hsubset).perm_of_length_le (by rw [length_map, htotal])

end

/-! ## The round trip -/

section
variable {platform : Platform}

/-- The bytes of the frame of a resource. -/
def framedLength (platform : Platform) (resource : SkillResourceInput) : Nat :=
  14 + (bufferFrom resource.path).length + (bufferFrom (normalizedMediaType platform resource.mediaType)).length
    + (bufferFrom (platform.sha256 resource.bytes)).length + (bufferFrom resource.sourceId).length
    + (bufferFrom resource.sourceRevision).length + resource.bytes.length

/-- The inputs whose bundle survives its bytes: the order of the language puts the references in the order of their code
units, the frames fit, and the sources survive as texts. -/
structure Encodable (platform : Platform) (entry : ParsedSkillMarkdown) (resources : List SkillResourceInput) :
    Prop where
  order : (localeSorted platform entry.references).IsChain (· < ·)
  size : 6 + (resources.map (framedLength platform)).sum ≤ MAX_BUNDLE_BYTES
  sources : ∀ resource ∈ resources, Exact resource.sourceId ∧ Exact resource.sourceRevision

/-- A source that is neither empty nor too long. -/
def Sourced (text : JsString) : Prop := text ≠ [] ∧ (bufferFrom text).length ≤ MAX_FIELD_BYTES

theorem frame_length (resource : SkillResourceInput) :
    (frameOf (approvedOf platform resource)).bytes.length = framedLength platform resource := by
  have huint16 : ∀ n, (uint16 n).length = 2 := fun _ => rfl
  have huint32 : ∀ n, (uint32 n).length = 4 := fun _ => rfl
  simp only [frameOf, Frame.bytes, fieldBytes, length_append, huint16, huint32, framedLength, approvedOf,
    approvedResource]
  omega

theorem bundle_length (frames : List Frame) :
    (bundleOf frames).length = 6 + (frames.map fun frame => frame.bytes.length).sum := by
  have huint16 : (uint16 frames.length).length = 2 := rfl
  have hmagic : MAGIC.length = 4 := rfl
  rw [bundleOf, length_append, length_append, layout, length_flatMap, huint16, hmagic, ← Nat.add_assoc]

theorem Approved.length {entry : ParsedSkillMarkdown} {bundle : ApprovedSkillBundle}
    (h : Approved platform entry resources bundle) (hnodup : entry.references.Nodup) :
    (bundleOf (bundle.resources.map frameOf)).length = 6 + (resources.map (framedLength platform)).sum := by
  rw [bundle_length, map_map, ((h.all hnodup).map _).sum_eq, map_map]
  congr 2
  exact map_congr_left fun resource _ => frame_length resource

theorem allowed_ascii {mediaType : JsString} (h : mediaType ∈ allowedMediaTypes) :
    (∀ unit ∈ mediaType, unit.toNat < 0x80) ∧ mediaType ≠ [] ∧ mediaType.length ≤ MAX_FIELD_BYTES := by
  have hall : allowedMediaTypes.all (fun name => name.all (·.toNat < 0x80) && !name.isEmpty && name.length < 32)
    = true := by
    decide +kernel
  have hname := all_eq_true.mp hall mediaType h
  simp only [Bool.and_eq_true, all_eq_true, decide_eq_true_eq, Bool.not_eq_true', isEmpty_eq_false_iff] at hname
  obtain ⟨⟨hascii, hne⟩, hlength⟩ := hname
  have hlimit : MAX_FIELD_BYTES = 1024 := rfl
  exact ⟨hascii, hne, by omega⟩

theorem hash_ascii {text : JsString} (h : isHash text = true) :
    (∀ unit ∈ text, unit.toNat < 0x80) ∧ text ≠ [] ∧ text.length ≤ MAX_FIELD_BYTES := by
  rw [isHash, Bool.and_eq_true, decide_eq_true_eq, all_eq_true] at h
  obtain ⟨hlength, hunits⟩ := h
  have hlimit : MAX_FIELD_BYTES = 1024 := rfl
  refine ⟨fun unit hunit => ?_, ?_, by omega⟩
  · have hrange := hunits unit hunit
    simp only [Bool.or_eq_true, Bool.and_eq_true, decide_eq_true_eq, UInt16.le_iff_toNat_le] at hrange
    have hnine : (57 : UInt16).toNat = 57 := rfl
    have hsmall : (102 : UInt16).toNat = 102 := rfl
    omega
  · rintro rfl
    cases hlength

/-- A source that survives is read as it was written. -/
theorem Sourced.fieldRead {text : JsString} (h : Sourced text) (hexact : Exact text) :
    FieldRead (bufferFrom text) text := by
  refine hexact.fieldRead (fun hnil => h.1 ?_) h.2
  have hdecoded := exact_iff.mpr hexact
  rw [hnil] at hdecoded
  exact (Option.some.inj hdecoded).symm

/-- The frame of a resource that was approved is read as the resource. -/
theorem approved_reads {resource : SkillResourceInput} (hadmissible : Admissible platform resource)
    (hpath : ∃ path, validateSkillVirtualPath resource.path = .ok path)
    (hdigest : isHash (platform.sha256 resource.bytes) = true)
    (hid : FieldRead (bufferFrom resource.sourceId) resource.sourceId)
    (hrevision : FieldRead (bufferFrom resource.sourceRevision) resource.sourceRevision) :
    (frameOf (approvedOf platform resource)).Reads (approvedOf platform resource) := by
  obtain ⟨path, hpath⟩ := hpath
  obtain ⟨hpathNe, hpathLength, hpathAscii⟩ := validate_ascii hpath
  obtain ⟨hmediaAscii, hmediaNe, hmediaLength⟩ := allowed_ascii hadmissible.mediaType
  obtain ⟨hhashAscii, hhashNe, hhashLength⟩ := hash_ascii hdigest
  have hbound : MAX_PATH_BYTES ≤ MAX_FIELD_BYTES := by decide
  have hbounded := hadmissible.bounded
  refine ⟨ascii_fieldRead hpathAscii hpathNe ?_, ascii_fieldRead hmediaAscii hmediaNe hmediaLength,
    ascii_fieldRead hhashAscii hhashNe hhashLength, hid, hrevision, rfl, hadmissible.nonempty, ?_⟩
  · show resource.path.length ≤ MAX_FIELD_BYTES
    rw [← (ascii_exact hpathAscii).2]
    omega
  · show resource.bytes.length < 0x100000000
    rw [MAX_RESOURCE_BYTES] at hbounded
    omega

theorem manifests_of_chain {previousPath : JsString} {resources : List SkillResource}
    (hchain : List.IsChain (· < ·) (previousPath :: resources.map SkillResource.path))
    (hall : ∀ resource ∈ resources, (∃ path, validateSkillVirtualPath resource.path = .ok path)
      ∧ isHash resource.sha256 = true ∧ platform.sha256 resource.bytes = resource.sha256) :
    Manifests platform.sha256 previousPath resources := by
  induction resources generalizing previousPath with
  | nil => exact .nil _
  | cons resource resources ih =>
    obtain ⟨⟨hpath, hisHash, hhash⟩, hrest⟩ := forall_mem_cons.mp hall
    rw [map_cons, isChain_cons_cons] at hchain
    exact .cons ⟨hpath, hchain.1, hisHash, hhash⟩ (ih hchain.2 hrest)

theorem forall₂_frames {resources : List SkillResource}
    (h : ∀ resource ∈ resources, (frameOf resource).Reads resource) :
    List.Forall₂ Frame.Reads (resources.map frameOf) resources := by
  rw [forall₂_map_left_iff, forall₂_same]
  exact h

theorem chain_nil {paths : List JsString} (hne : ∀ path ∈ paths, path ≠ []) :
    List.IsChain (· < ·) ([] :: paths) ↔ paths.IsChain (· < ·) := by
  cases paths with
  | nil => exact iff_of_true (.singleton _) .nil
  | cons path paths =>
    rw [isChain_cons_cons, and_iff_right_iff_imp]
    intro _
    cases path with
    | nil => exact absurd rfl (hne [] mem_cons_self)
    | cons unit path => exact nil_lt_cons unit path

theorem nodup_of_sorted {references : List JsString} (h : (localeSorted platform references).IsChain (· < ·)) :
    references.Nodup := by
  have hne : ∀ {left right : JsString}, left < right → left ≠ right := by
    rintro left right hless rfl
    exact List.lt_irrefl _ hless
  have hsorted : (localeSorted platform references).Nodup := (isChain_iff_pairwise.mp h).imp hne
  exact (perm_insertionSort _ _).nodup_iff.mp hsorted

/-- A bundle that was approved survives just when its inputs are encodable. -/
theorem approved_round_trip (hdigest : ∀ bytes, isHash (platform.sha256 bytes) = true)
    {entry : ParsedSkillMarkdown} {bundle : ApprovedSkillBundle}
    (h : Approved platform entry resources bundle)
    (hsourced : ∀ resource ∈ resources, Sourced resource.sourceId ∧ Sourced resource.sourceRevision) :
    (∃ buffer, encodeSkillResourceBundle bundle.resources = .ok buffer
      ∧ decodeSkillResourceBundle platform.sha256 buffer = .ok bundle.resources)
        ↔ Encodable platform entry resources := by
  have hne : ∀ path ∈ bundle.resources.map SkillResource.path, path ≠ [] := by
    intro path hpath
    obtain ⟨resource, hresource, rfl⟩ := mem_map.mp hpath
    obtain ⟨input, -, rfl, -, valid, hvalid⟩ := h.taken resource hresource
    exact (validate_ascii hvalid).1
  have hchain := chain_nil hne
  rw [h.paths] at hchain
  constructor
  · rintro ⟨buffer, hencode, hdecode⟩
    obtain ⟨hbuffer, hfits, hordered, hlimit⟩ := encode_ok hencode
    rw [h.paths, hchain] at hordered
    have hnodup := nodup_of_sorted hordered
    rw [hbuffer, h.length hnodup] at hlimit
    obtain ⟨frames, hframes, hreads, -⟩ := decode_ok hdecode
    rw [hbuffer, bundleOf, bundleOf, length_map, hreads.length_eq] at hframes
    obtain rfl := layout_inj hreads hfits (append_cancel_left (append_cancel_left hframes)).symm
    refine ⟨hordered, hlimit, fun resource hresource => ?_⟩
    have hmem : approvedOf platform resource ∈ bundle.resources := (h.all hnodup).mem_iff.mpr (mem_map_of_mem hresource)
    rw [forall₂_map_left_iff, forall₂_same] at hreads
    have hread := hreads _ hmem
    exact ⟨exact_iff.mp hread.sourceId.decoded, exact_iff.mp hread.sourceRevision.decoded⟩
  · rintro ⟨hordered, hsize, hexact⟩
    have hreads : ∀ resource ∈ bundle.resources, (frameOf resource).Reads resource := by
      intro resource hresource
      obtain ⟨input, hinput, rfl, hadmissible, hvalid⟩ := h.taken resource hresource
      obtain ⟨hid, hrevision⟩ := hsourced input hinput
      exact approved_reads hadmissible hvalid (hdigest _) (hid.fieldRead (hexact input hinput).1)
        (hrevision.fieldRead (hexact input hinput).2)
    have hlimit : (bundleOf (bundle.resources.map frameOf)).length ≤ MAX_BUNDLE_BYTES := by
      rw [h.length (nodup_of_sorted hordered)]
      exact hsize
    rw [← hchain, ← h.paths] at hordered
    refine ⟨_, ok_encode h.count (fun resource hresource => (hreads resource hresource).fits) hordered hlimit,
      ok_decode (forall₂_frames hreads) (manifests_of_chain hordered ?_) h.count hlimit⟩
    intro resource hresource
    obtain ⟨input, -, rfl, -, hvalid⟩ := h.taken resource hresource
    exact ⟨hvalid, hdigest _, rfl⟩

/-- Bytes that are the bundle of frames that are read as these resources. -/
structure Framed (sha256 : Bytes → JsString) (buffer : Bytes) (frames : List Frame) (resources : List SkillResource) :
    Prop where
  bytes : buffer = bundleOf frames
  reads : List.Forall₂ Frame.Reads frames resources
  manifests : Manifests sha256 [] resources
  count : resources.length ≤ MAX_RESOURCES
  bounded : buffer.length ≤ MAX_BUNDLE_BYTES

theorem decode_iff {sha256 : Bytes → JsString} {buffer : Bytes} {resources : List SkillResource} :
    decodeSkillResourceBundle sha256 buffer = .ok resources ↔ ∃ frames, Framed sha256 buffer frames resources := by
  constructor
  · intro h
    obtain ⟨frames, hbytes, hreads, hmanifests, hcount, hlimit⟩ := decode_ok h
    exact ⟨frames, hbytes, hreads, hmanifests, hcount, hlimit⟩
  · rintro ⟨frames, rfl, hreads, hmanifests, hcount, hlimit⟩
    exact ok_decode hreads hmanifests hcount hlimit

/-- **Skill bundles.** A bundle that was approved is stored and read back just when its inputs are encodable. Exactly
the bundles of frames are decoded, none is read past its end, and a decoded one is encoded to the same bytes just where
no field begins with a byte order mark. -/
theorem skill_bundles_round_trip (platform : Platform) (hdigest : ∀ bytes, isHash (platform.sha256 bytes) = true) :
    (∀ entry resources bundle, buildApprovedSkillBundle platform entry resources = .ok bundle →
      (∀ resource ∈ resources, Sourced resource.sourceId ∧ Sourced resource.sourceRevision) →
      ((∃ buffer, encodeSkillResourceBundle bundle.resources = .ok buffer
        ∧ decodeSkillResourceBundle platform.sha256 buffer = .ok bundle.resources)
          ↔ Encodable platform entry resources))
    ∧ (∀ buffer resources, decodeSkillResourceBundle platform.sha256 buffer = .ok resources
        ↔ ∃ frames, Framed platform.sha256 buffer frames resources)
    ∧ (∀ buffer frames resources, Framed platform.sha256 buffer frames resources →
        (encodeSkillResourceBundle resources = .ok buffer ↔ ∀ frame ∈ frames, ∀ field ∈ frame.fields, ¬ mark <+: field))
    ∧ ∀ buffer, decodeSkillResourceBundle platform.sha256 buffer ≠ .error .range := by
  refine ⟨fun entry resources bundle hbuild hsourced => approved_round_trip hdigest (build_ok hbuild) hsourced,
    fun buffer resources => decode_iff, ?_, decode_ne_range⟩
  intro buffer frames resources hframed
  exact encode_framed_iff hframed.bytes hframed.reads hframed.manifests hframed.count hframed.bounded

end


/-- A platform whose digests are all alike, and that knows no blocked texts. -/
def plainPlatform (localeCompare : JsString → JsString → Int) : Platform where
  sha256 := fun _ => List.replicate 64 97
  toLowerCase := id
  localeCompare := localeCompare
  activeContent := fun _ => false
  secret := fun _ => none

/-- The order of the language on paths of letters: without regard to the case. -/
def caselessCompare (left right : JsString) : Int :=
  if lower left < lower right then -1 else if lower left = lower right then 0 else 1

def pathInput (path : String) : SkillResourceInput := ⟨js path, [104, 105], js "text/plain", js "page", js "1", false⟩

def twoPaths : ParsedSkillMarkdown := ⟨[35], [js "B.txt", js "a.txt"]⟩

theorem skill_bundles_round_trip_example :
    let platform := plainPlatform caselessCompare
    let entry : ParsedSkillMarkdown := ⟨[35], [js "b.txt", js "a.txt"]⟩
    let resources := [pathInput "b.txt", pathInput "a.txt"]
    ∃ bundle buffer frames, buildApprovedSkillBundle platform entry resources = .ok bundle ∧
      encodeSkillResourceBundle bundle.resources = .ok buffer ∧
      decodeSkillResourceBundle platform.sha256 buffer = .ok bundle.resources ∧
      Framed platform.sha256 buffer frames bundle.resources ∧
      (∀ frame ∈ frames, ∀ field ∈ frame.fields, ¬ mark <+: field) ∧
      decodeSkillResourceBundle platform.sha256 (buffer.take 20) ≠ .error .range := by
  intro platform entry resources
  have hdigest : isHash (List.replicate 64 97) = true := by decide +kernel
  obtain ⟨hround, hframes, hbytes, hrange⟩ := skill_bundles_round_trip platform fun _ => hdigest
  have hsourced : ∀ resource ∈ resources, Sourced resource.sourceId ∧ Sourced resource.sourceRevision := by
    simp only [resources, forall_mem_cons]
    refine ⟨?_, ?_, forall_mem_nil _⟩ <;>
      exact ⟨⟨by decide +kernel, by decide +kernel⟩, ⟨by decide +kernel, by decide +kernel⟩⟩
  obtain ⟨bundle, hbuild⟩ : ∃ bundle, buildApprovedSkillBundle platform entry resources = .ok bundle := ⟨_, rfl⟩
  have hencodable : Encodable platform entry resources := by
    have hpage : Exact (js "page") := ⟨scalars_of_valid (show assertValidUtf16 "" _ = .ok _ from rfl), by decide⟩
    have hone : Exact (js "1") := ⟨scalars_of_valid (show assertValidUtf16 "" _ = .ok _ from rfl), by decide⟩
    refine ⟨by decide +kernel, by decide +kernel, ?_⟩
    simp only [resources, forall_mem_cons]
    exact ⟨⟨hpage, hone⟩, ⟨hpage, hone⟩, forall_mem_nil _⟩
  obtain ⟨buffer, hencode, hdecode⟩ := (hround _ _ bundle hbuild hsourced).mpr hencodable
  obtain ⟨frames, hframed⟩ := (hframes _ _).mp hdecode
  exact ⟨bundle, buffer, frames, hbuild, hencode, hdecode, hframed, (hbytes _ _ _ hframed).mp hencode, hrange _⟩

/-- The order of the language puts `a.txt` before `B.txt`, and the bundle that was approved is refused. -/
theorem skill_bundles_refused :
    ∃ bundle, buildApprovedSkillBundle (plainPlatform caselessCompare) twoPaths [pathInput "B.txt", pathInput "a.txt"]
      = .ok bundle
      ∧ (∀ resource ∈ [pathInput "B.txt", pathInput "a.txt"], Sourced resource.sourceId
        ∧ Sourced resource.sourceRevision)
      ∧ encodeSkillResourceBundle bundle.resources =
        .error (invalid "Skill resource bundle paths must be uniquely sorted") := by
  refine ⟨⟨twoPaths, [approvedOf (plainPlatform caselessCompare) (pathInput "a.txt"),
    approvedOf (plainPlatform caselessCompare) (pathInput "B.txt")], 5⟩, rfl, ?_, rfl⟩
  simp only [forall_mem_cons]
  refine ⟨?_, ?_, forall_mem_nil _⟩
  · exact ⟨⟨by decide +kernel, by decide +kernel⟩, ⟨by decide +kernel, by decide +kernel⟩⟩
  · exact ⟨⟨by decide +kernel, by decide +kernel⟩, ⟨by decide +kernel, by decide +kernel⟩⟩


end TsEpistle.Agents.Skills
