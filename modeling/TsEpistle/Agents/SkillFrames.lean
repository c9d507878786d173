import TsEpistle.Agents.SkillBundles

/-! What is encoded is what is decoded: frames of fields, each with its length before it. -/

namespace TsEpistle.Agents.Skills
open Library Library.Checked LinePatch List

/-! ## Numbers and fields -/

theorem uint16_inj {n n' : Nat} {rest rest' : Bytes} (h : n < 0x10000) (h' : n' < 0x10000)
    (heq : uint16 n ++ rest = uint16 n' ++ rest') : n = n' ∧ rest = rest' := by
  simp (disch := omega) only [uint16, cons_append, nil_append, List.cons.injEq, toUInt8_inj] at heq
  exact ⟨by omega, heq.2.2⟩

theorem uint32_inj {n n' : Nat} {rest rest' : Bytes} (h : n < 0x100000000) (h' : n' < 0x100000000)
    (heq : uint32 n ++ rest = uint32 n' ++ rest') : n = n' ∧ rest = rest' := by
  simp (disch := omega) only [uint32, cons_append, nil_append, List.cons.injEq, toUInt8_inj] at heq
  exact ⟨by omega, heq.2.2.2.2⟩

theorem fieldBytes_inj {field field' rest rest' : Bytes} (h : field.length < 0x10000) (h' : field'.length < 0x10000)
    (heq : fieldBytes field ++ rest = fieldBytes field' ++ rest') : field = field' ∧ rest = rest' := by
  rw [fieldBytes, fieldBytes, append_assoc, append_assoc] at heq
  obtain ⟨hlength, heq⟩ := uint16_inj h h' heq
  exact append_inj heq hlength

variable {buffer : Bytes}

theorem readUInt16_ok {offset n : Nat} (h : readUInt16 buffer offset = .ok n) :
    offset + 2 ≤ buffer.length ∧ n < 0x10000 ∧ buffer.drop offset = uint16 n ++ buffer.drop (offset + 2) := by
  unfold readUInt16 at h
  obtain ⟨hlength, h⟩ := guard_ok h
  rw [← drop_drop]
  match hbytes : buffer.drop offset with
  | [] | [_] =>
    have hdrop := congrArg List.length hbytes
    simp only [length_drop, length_nil, length_singleton] at hdrop
    omega
  | a :: b :: rest =>
    simp only [hbytes] at h
    obtain rfl := Except.ok.inj h
    have ha := a.toNat_lt
    have hb := b.toNat_lt
    refine ⟨by omega, by omega, ?_⟩
    rw [uint16, toUInt8_toNat_eq (b := a) (by omega), toUInt8_toNat_eq (b := b) (by omega)]
    rfl

theorem ok_readUInt16 {buffer rest : Bytes} {offset n : Nat} (h : n < 0x10000)
    (hbytes : buffer.drop offset = uint16 n ++ rest) : readUInt16 buffer offset = .ok n := by
  have hlength := congrArg List.length hbytes
  rw [length_drop, length_append] at hlength
  have huint : (uint16 n).length = 2 := rfl
  rw [readUInt16, if_neg (by omega), hbytes]
  simp (disch := omega) only [uint16, cons_append, toNat_toUInt8]
  congr 1
  omega

theorem readUInt32_ok {offset n : Nat} (h : readUInt32 buffer offset = .ok n) :
    offset + 4 ≤ buffer.length ∧ n < 0x100000000 ∧ buffer.drop offset = uint32 n ++ buffer.drop (offset + 4) := by
  unfold readUInt32 at h
  obtain ⟨hlength, h⟩ := guard_ok h
  rw [← drop_drop]
  match hbytes : buffer.drop offset with
  | [] | [_] | [_, _] | [_, _, _] =>
    have hdrop := congrArg List.length hbytes
    simp only [length_drop, length_nil, length_cons] at hdrop
    omega
  | a :: b :: c :: d :: rest =>
    simp only [hbytes] at h
    obtain rfl := Except.ok.inj h
    have ha := a.toNat_lt
    have hb := b.toNat_lt
    have hc := c.toNat_lt
    have hd := d.toNat_lt
    refine ⟨by omega, by omega, ?_⟩
    rw [uint32, toUInt8_toNat_eq (b := a) (by omega), toUInt8_toNat_eq (b := b) (by omega),
      toUInt8_toNat_eq (b := c) (by omega), toUInt8_toNat_eq (b := d) (by omega)]
    rfl

theorem ok_readUInt32 {buffer rest : Bytes} {offset n : Nat} (h : n < 0x100000000)
    (hbytes : buffer.drop offset = uint32 n ++ rest) : readUInt32 buffer offset = .ok n := by
  have hlength := congrArg List.length hbytes
  rw [length_drop, length_append] at hlength
  have huint : (uint32 n).length = 4 := rfl
  rw [readUInt32, if_neg (by omega), hbytes]
  simp (disch := omega) only [uint32, cons_append, toNat_toUInt8]
  congr 1
  omega

/-- A part of the buffer, and what is behind it. -/
theorem drop_eq_append {buffer part : Bytes} {offset : Nat} {rest : Bytes} (h : buffer.drop offset = part ++ rest) :
    rest = buffer.drop (offset + part.length) := by
  rw [← drop_drop, h, drop_left]

theorem take_append_drop (buffer : Bytes) (start length : Nat) :
    (buffer.drop start).take length ++ buffer.drop (start + length) = buffer.drop start := by
  rw [← drop_drop, List.take_append_drop]

/-- A field that was read: its bytes and the text that they decode to. -/
structure FieldRead (field : Bytes) (value : JsString) : Prop where
  nonempty : field ≠ []
  bounded : field.length ≤ MAX_FIELD_BYTES
  decoded : decodeText field = some value

variable {value : JsString}

theorem FieldRead.short {field : Bytes} (h : FieldRead field value) : field.length < 0x10000 := by
  have hbounded := h.bounded
  rw [MAX_FIELD_BYTES] at hbounded
  omega

theorem subarray_ok {buffer bytes : Bytes} {start length : Nat} (h : subarray buffer start length = .ok bytes) :
    bytes = (buffer.drop start).take length ∧ start + length ≤ buffer.length := by
  unfold subarray at h
  split at h
  · rename_i hle
    exact ⟨(Except.ok.inj h).symm, hle⟩
  · cases h

theorem readField_ok {offset stop : Nat} (h : readField buffer offset = .ok (value, stop)) :
    ∃ field, FieldRead field value ∧ stop = offset + (fieldBytes field).length
      ∧ buffer.drop offset = fieldBytes field ++ buffer.drop stop := by
  obtain ⟨length, hlength, h⟩ := bind_ok h
  obtain ⟨hbounds, h⟩ := guard_ok h
  obtain ⟨bytes, hbytes, h⟩ := bind_ok h
  obtain ⟨hle, hsmall, hdrop⟩ := readUInt16_ok hlength
  obtain ⟨rfl, hstop⟩ := subarray_ok hbytes
  have htake : ((buffer.drop (offset + 2)).take length).length = length := by
    rw [length_take, length_drop]
    omega
  cases hdecode : decodeText ((buffer.drop (offset + 2)).take length) with
  | none => simp [hdecode] at h
  | some text =>
    simp only [hdecode] at h
    obtain ⟨rfl, rfl⟩ := Prod.mk.inj (Except.ok.inj h)
    refine ⟨_, ⟨?_, ?_, hdecode⟩, ?_, ?_⟩
    · intro hnil
      rw [hnil, length_nil] at htake
      omega
    · rw [htake]
      omega
    · rw [fieldBytes, length_append, htake]
      show offset + 2 + length = offset + (2 + length)
      omega
    · rw [fieldBytes, htake, hdrop, append_assoc, take_append_drop]

theorem ok_readField {buffer rest field : Bytes} {offset : Nat} (h : FieldRead field value)
    (hbytes : buffer.drop offset = fieldBytes field ++ rest) :
    readField buffer offset = .ok (value, offset + (fieldBytes field).length) := by
  have hlength := congrArg List.length hbytes
  have hshort := h.short
  have hbounded := h.bounded
  have hpositive := length_pos_of_ne_nil h.nonempty
  rw [fieldBytes, append_assoc] at hbytes
  have hrest := drop_eq_append hbytes
  rw [length_drop, length_append, fieldBytes, length_append] at hlength
  have huint : (uint16 field.length).length = 2 := rfl
  rw [huint] at hrest hlength
  have hread := ok_readUInt16 hshort hbytes
  have hsub : subarray buffer (offset + 2) field.length = .ok field := by
    rw [subarray, if_pos (by omega), ← hrest, take_left]
  rw [readField, hread]
  show (if field.length = 0 ∨ _ ∨ _ then _ else _) = _
  rw [if_neg (by omega), hsub]
  simp only [bind, Except.bind, h.decoded]
  rw [fieldBytes, length_append, huint, Nat.add_assoc]

theorem readData_ok {buffer bytes : Bytes} {offset stop : Nat} (h : readData buffer offset = .ok (bytes, stop)) :
    bytes ≠ [] ∧ bytes.length < 0x100000000 ∧ stop = offset + (uint32 bytes.length ++ bytes).length
      ∧ buffer.drop offset = uint32 bytes.length ++ bytes ++ buffer.drop stop := by
  obtain ⟨length, hlength, h⟩ := bind_ok h
  obtain ⟨hbounds, h⟩ := guard_ok h
  obtain ⟨data, hdata, h⟩ := bind_ok h
  obtain ⟨rfl, rfl⟩ := Prod.mk.inj (Except.ok.inj h)
  obtain ⟨hle, hsmall, hdrop⟩ := readUInt32_ok hlength
  obtain ⟨rfl, hstop⟩ := subarray_ok hdata
  have htake : ((buffer.drop (offset + 4)).take length).length = length := by
    rw [length_take, length_drop]
    omega
  refine ⟨?_, by rw [htake]; exact hsmall, ?_, ?_⟩
  · intro hnil
    rw [hnil, length_nil] at htake
    omega
  · rw [length_append, htake]
    show offset + 4 + length = offset + (4 + length)
    omega
  · rw [htake, hdrop, append_assoc, take_append_drop]

theorem ok_readData {buffer rest bytes : Bytes} {offset : Nat} (hne : bytes ≠ []) (hsmall : bytes.length < 0x100000000)
    (hbytes : buffer.drop offset = uint32 bytes.length ++ bytes ++ rest) :
    readData buffer offset = .ok (bytes, offset + (uint32 bytes.length ++ bytes).length) := by
  have hlength := congrArg List.length hbytes
  have hpositive := length_pos_of_ne_nil hne
  rw [append_assoc] at hbytes
  have hrest := drop_eq_append hbytes
  rw [length_drop, length_append, length_append] at hlength
  have huint : (uint32 bytes.length).length = 4 := rfl
  rw [huint] at hrest hlength
  have hsub : subarray buffer (offset + 4) bytes.length = .ok bytes := by
    rw [subarray, if_pos (by omega), ← hrest, take_left]
  rw [readData, ok_readUInt32 hsmall hbytes]
  show (if bytes.length = 0 ∨ _ then _ else _) = _
  rw [if_neg (by omega), hsub, length_append, huint]
  show Except.ok (bytes, offset + 4 + bytes.length) = _
  rw [Nat.add_assoc]

/-! ## Frames -/

/-- The bytes of a resource. -/
structure Frame where
  (path mediaType sha256 sourceId sourceRevision data : Bytes)

/-- The fields of texts. -/
def Frame.fields (frame : Frame) : List Bytes :=
  [frame.path, frame.mediaType, frame.sha256, frame.sourceId, frame.sourceRevision]

def Frame.bytes (frame : Frame) : Bytes :=
  fieldBytes frame.path ++ (fieldBytes frame.mediaType ++ (fieldBytes frame.sha256 ++ (fieldBytes frame.sourceId
    ++ (fieldBytes frame.sourceRevision ++ (uint32 frame.data.length ++ frame.data)))))

/-- The resource that a frame is read as. -/
structure Frame.Reads (frame : Frame) (resource : SkillResource) : Prop where
  path : FieldRead frame.path resource.path
  mediaType : FieldRead frame.mediaType resource.mediaType
  sha256 : FieldRead frame.sha256 resource.sha256
  sourceId : FieldRead frame.sourceId resource.sourceId
  sourceRevision : FieldRead frame.sourceRevision resource.sourceRevision
  data : frame.data = resource.bytes
  nonempty : resource.bytes ≠ []
  small : resource.bytes.length < 0x100000000

section
variable {sha256 : Bytes → JsString}

variable (sha256) in
/-- What is checked of a resource behind a path. -/
structure Manifest (previousPath : JsString) (resource : SkillResource) : Prop where
  path : ∃ path, validateSkillVirtualPath resource.path = .ok path
  increasing : previousPath < resource.path
  isHash : isHash resource.sha256 = true
  hash : sha256 resource.bytes = resource.sha256

variable {resource : SkillResource} {previousPath : JsString}

theorem decodeResource_ok {offset stop : Nat}
    (h : decodeResource sha256 buffer previousPath offset = .ok (resource, stop)) :
    ∃ frame : Frame, frame.Reads resource ∧ Manifest sha256 previousPath resource ∧ stop = offset + frame.bytes.length
      ∧ buffer.drop offset = frame.bytes ++ buffer.drop stop := by
  obtain ⟨⟨path, offset₁⟩, hpath, h⟩ := bind_ok h
  obtain ⟨⟨mediaType, offset₂⟩, hmediaType, h⟩ := bind_ok h
  obtain ⟨⟨hash, offset₃⟩, hhash, h⟩ := bind_ok h
  obtain ⟨⟨sourceId, offset₄⟩, hsourceId, h⟩ := bind_ok h
  obtain ⟨⟨sourceRevision, offset₅⟩, hsourceRevision, h⟩ := bind_ok h
  obtain ⟨valid, hvalid, h⟩ := bind_ok h
  obtain ⟨hmanifest, h⟩ := guard_ok h
  obtain ⟨⟨bytes, offset₆⟩, hdata, h⟩ := bind_ok h
  obtain ⟨hsame, h⟩ := guard_ok h
  obtain ⟨rfl, rfl⟩ := Prod.mk.inj (Except.ok.inj h)
  rw [not_or, not_not, Bool.not_eq_false] at hmanifest
  obtain ⟨field₁, hread₁, hstop₁, hdrop₁⟩ := readField_ok hpath
  obtain ⟨field₂, hread₂, hstop₂, hdrop₂⟩ := readField_ok hmediaType
  obtain ⟨field₃, hread₃, hstop₃, hdrop₃⟩ := readField_ok hhash
  obtain ⟨field₄, hread₄, hstop₄, hdrop₄⟩ := readField_ok hsourceId
  obtain ⟨field₅, hread₅, hstop₅, hdrop₅⟩ := readField_ok hsourceRevision
  obtain ⟨hne, hsmall, hstop₆, hdrop₆⟩ := readData_ok hdata
  refine ⟨⟨field₁, field₂, field₃, field₄, field₅, bytes⟩,
    ⟨hread₁, hread₂, hread₃, hread₄, hread₅, rfl, hne, hsmall⟩,
    ⟨⟨valid, hvalid⟩, hmanifest.1, hmanifest.2, not_not.mp hsame⟩, ?_, ?_⟩
  · simp only [Frame.bytes, length_append] at hstop₆ ⊢
    omega
  · rw [hdrop₁, hdrop₂, hdrop₃, hdrop₄, hdrop₅, hdrop₆]
    simp only [Frame.bytes, append_assoc]

theorem ok_decodeResource {buffer rest : Bytes} {offset : Nat} {frame : Frame} (hreads : frame.Reads resource)
    (hmanifest : Manifest sha256 previousPath resource) (hbytes : buffer.drop offset = frame.bytes ++ rest) :
    decodeResource sha256 buffer previousPath offset = .ok (resource, offset + frame.bytes.length) := by
  obtain ⟨path, mediaType, hash, sourceId, sourceRevision, data⟩ := frame
  simp only [Frame.bytes, append_assoc] at hbytes
  have hbytes₂ := (drop_eq_append hbytes).symm
  have hbytes₃ := (drop_eq_append hbytes₂).symm
  have hbytes₄ := (drop_eq_append hbytes₃).symm
  have hbytes₅ := (drop_eq_append hbytes₄).symm
  have hbytes₆ := (drop_eq_append hbytes₅).symm
  obtain ⟨hpath, hmediaType, hhash, hsourceId, hsourceRevision, hdata, hne, hsmall⟩ := hreads
  obtain ⟨⟨valid, hvalid⟩, hincreasing, hisHash, hsame⟩ := hmanifest
  dsimp only at hpath hmediaType hhash hsourceId hsourceRevision hdata
  subst hdata
  rw [← append_assoc] at hbytes₆
  rw [decodeResource, ok_readField hpath hbytes]
  show (readField buffer _ >>= _) = _
  rw [ok_readField hmediaType hbytes₂]
  show (readField buffer _ >>= _) = _
  rw [ok_readField hhash hbytes₃]
  show (readField buffer _ >>= _) = _
  rw [ok_readField hsourceId hbytes₄]
  show (readField buffer _ >>= _) = _
  rw [ok_readField hsourceRevision hbytes₅]
  show (validateSkillVirtualPath resource.path >>= _) = _
  rw [hvalid]
  show (if ¬ previousPath < resource.path ∨ isHash resource.sha256 = false then _ else _) = _
  rw [if_neg (by rw [not_or, not_not, Bool.not_eq_false]; exact ⟨hincreasing, hisHash⟩), ok_readData hne hsmall hbytes₆]
  show (if sha256 resource.bytes ≠ resource.sha256 then _ else _) = _
  rw [if_neg (not_not.mpr hsame)]
  simp only [Frame.bytes, length_append, Nat.add_assoc]
  rfl

/-- The resources of frames, one behind the other. -/
def layout (frames : List Frame) : Bytes := frames.flatMap Frame.bytes

theorem layout_cons (frame : Frame) (frames : List Frame) : layout (frame :: frames) = frame.bytes ++ layout frames :=
  flatMap_cons

variable (sha256) in
/-- The manifests of resources behind a path. -/
inductive Manifests : JsString → List SkillResource → Prop
  | nil (previousPath : JsString) : Manifests previousPath []
  | cons {previousPath : JsString} {resource : SkillResource} {resources : List SkillResource}
      (h : Manifest sha256 previousPath resource) (hrest : Manifests resource.path resources) :
      Manifests previousPath (resource :: resources)

variable {resources : List SkillResource}

theorem decodeResources_ok {count : Nat} {offset stop : Nat}
    (h : decodeResources sha256 buffer count previousPath offset = .ok (resources, stop)) : ∃ frames,
    List.Forall₂ Frame.Reads frames resources ∧ Manifests sha256 previousPath resources ∧ resources.length = count ∧
    stop = offset + (layout frames).length ∧ buffer.drop offset = layout frames ++ buffer.drop stop := by
  induction count generalizing previousPath offset resources with
  | zero =>
    obtain ⟨rfl, rfl⟩ := Prod.mk.inj (Except.ok.inj h)
    exact ⟨[], .nil, .nil _, rfl, rfl, rfl⟩
  | succ count ih =>
    obtain ⟨⟨resource, middle⟩, hresource, h⟩ := bind_ok h
    obtain ⟨⟨rest, last⟩, hrest, h⟩ := bind_ok h
    obtain ⟨rfl, rfl⟩ := Prod.mk.inj (Except.ok.inj h)
    obtain ⟨frame, hreads, hmanifest, hmiddle, hdrop⟩ := decodeResource_ok hresource
    obtain ⟨frames, hframes, hmanifests, hcount, hlast, hdrops⟩ := ih hrest
    refine ⟨frame :: frames, .cons hreads hframes, .cons hmanifest hmanifests, ?_, ?_, ?_⟩
    · rw [length_cons, hcount]
    · rw [layout, flatMap_cons, length_append, hlast, hmiddle, layout, Nat.add_assoc]
    · rw [layout, flatMap_cons, append_assoc, hdrop, hdrops]
      rfl

variable {frames : List Frame}

theorem ok_decodeResources {buffer rest : Bytes} {offset : Nat}
    (hframes : List.Forall₂ Frame.Reads frames resources)
    (hmanifests : Manifests sha256 previousPath resources)
    (hbytes : buffer.drop offset = layout frames ++ rest) :
    decodeResources sha256 buffer resources.length previousPath offset =
      .ok (resources, offset + (layout frames).length) := by
  induction hframes generalizing previousPath offset with
  | nil => rfl
  | @cons frame resource frames resources hreads _ ih =>
    cases hmanifests with
    | cons hmanifest hmanifests =>
      rw [layout, flatMap_cons, append_assoc] at hbytes
      rw [length_cons, decodeResources, ok_decodeResource hreads hmanifest hbytes]
      show (decodeResources sha256 buffer resources.length resource.path (offset + frame.bytes.length) >>= _) = _
      rw [ih hmanifests (drop_eq_append hbytes).symm, layout_cons, length_append, ← Nat.add_assoc]
      rfl

/-- A bundle of these frames. -/
def bundleOf (frames : List Frame) : Bytes := MAGIC ++ (uint16 frames.length ++ layout frames)

theorem decode_ok (h : decodeSkillResourceBundle sha256 buffer = .ok resources) :
    ∃ frames, buffer = bundleOf frames ∧ List.Forall₂ Frame.Reads frames resources ∧ Manifests sha256 [] resources
      ∧ resources.length ≤ MAX_RESOURCES ∧ buffer.length ≤ MAX_BUNDLE_BYTES := by
  obtain ⟨hheader, h⟩ := guard_ok h
  obtain ⟨count, hcount, h⟩ := bind_ok h
  obtain ⟨hmaximum, h⟩ := guard_ok h
  obtain ⟨⟨decoded, stop⟩, hdecoded, h⟩ := bind_ok h
  obtain ⟨hstop, h⟩ := guard_ok h
  obtain rfl := Except.ok.inj h
  obtain ⟨-, hsmall, hdrop⟩ := readUInt16_ok hcount
  obtain ⟨frames, hframes, hmanifests, hlength, hend, hdrops⟩ := decodeResources_ok hdecoded
  rw [not_or, not_or, not_not] at hheader
  obtain ⟨-, hlimit, hmagic⟩ := hheader
  have hempty : buffer.drop stop = [] := drop_eq_nil_of_le (by rw [not_not.mp hstop])
  rw [hempty, append_nil] at hdrops
  refine ⟨frames, ?_, hframes, hmanifests, by omega, by omega⟩
  rw [bundleOf, hframes.length_eq, hlength, ← hdrops, ← hdrop, ← hmagic, List.take_append_drop]

theorem ok_decode (hframes : List.Forall₂ Frame.Reads frames resources) (hmanifests : Manifests sha256 [] resources)
    (hcount : resources.length ≤ MAX_RESOURCES) (hlimit : (bundleOf frames).length ≤ MAX_BUNDLE_BYTES) :
    decodeSkillResourceBundle sha256 (bundleOf frames) = .ok resources := by
  have hsmall : frames.length < 0x10000 := by
    rw [hframes.length_eq]
    rw [MAX_RESOURCES] at hcount
    omega
  have hmagic : MAGIC.length = 4 := rfl
  have hdrop : (bundleOf frames).drop 4 = uint16 frames.length ++ layout frames := by
    rw [bundleOf, ← hmagic, drop_left]
  have hrest : (bundleOf frames).drop 6 = layout frames ++ [] := by
    rw [append_nil]
    exact (drop_eq_append hdrop).symm
  have hlength : (bundleOf frames).length = 6 + (layout frames).length := by
    rw [bundleOf, length_append, length_append, ← Nat.add_assoc]
    rfl
  rw [decodeSkillResourceBundle, if_neg ?_, ok_readUInt16 hsmall hdrop]
  · show (if MAX_RESOURCES < frames.length then _ else _) = _
    rw [if_neg (by rw [hframes.length_eq]; omega), hframes.length_eq]
    rw [ok_decodeResources hframes hmanifests hrest]
    show (if 6 + (layout frames).length ≠ (bundleOf frames).length then _ else _) = _
    rw [if_neg (by rw [hlength]; exact fun h => h rfl)]
    rfl
  · rw [not_or, not_or, not_not]
    refine ⟨by omega, by omega, ?_⟩
    rw [bundleOf, ← hmagic, take_left]

/-! ## Encoding -/

theorem encodeField_ok {bytes : Bytes} (h : encodeField value = .ok bytes) :
    bytes = fieldBytes (bufferFrom value) ∧ bufferFrom value ≠ [] ∧ (bufferFrom value).length ≤ MAX_FIELD_BYTES := by
  obtain ⟨hbounds, h⟩ := guard_ok h
  rw [not_or, not_or, not_lt] at hbounds
  exact ⟨(Except.ok.inj h).symm, hbounds.1, hbounds.2.1⟩

theorem ok_encodeField (hne : bufferFrom value ≠ []) (hbounded : (bufferFrom value).length ≤ MAX_FIELD_BYTES) :
    encodeField value = .ok (fieldBytes (bufferFrom value)) := by
  have hlimit : MAX_FIELD_BYTES = 1024 := rfl
  exact if_neg (by
    rw [not_or, not_or]
    exact ⟨hne, by omega, by omega⟩)

/-- The frame that is written for a resource. -/
def frameOf (resource : SkillResource) : Frame where
  path := bufferFrom resource.path
  mediaType := bufferFrom resource.mediaType
  sha256 := bufferFrom resource.sha256
  sourceId := bufferFrom resource.sourceId
  sourceRevision := bufferFrom resource.sourceRevision
  data := resource.bytes

/-- The fields of a frame fit. -/
def Frame.Fits (frame : Frame) : Prop :=
  (∀ field ∈ frame.fields, field ≠ [] ∧ field.length ≤ MAX_FIELD_BYTES) ∧ frame.data.length < 0x100000000

theorem encodeResource_ok {bytes : Bytes} (h : encodeResource resource = .ok bytes) :
    bytes = (frameOf resource).bytes ∧ (frameOf resource).Fits := by
  obtain ⟨data, hdata, h⟩ := bind_ok h
  obtain ⟨path, hpath, h⟩ := bind_ok h
  obtain ⟨mediaType, hmediaType, h⟩ := bind_ok h
  obtain ⟨hash, hhash, h⟩ := bind_ok h
  obtain ⟨sourceId, hsourceId, h⟩ := bind_ok h
  obtain ⟨sourceRevision, hsourceRevision, h⟩ := bind_ok h
  obtain rfl := Except.ok.inj h
  obtain ⟨hsmall, hdata⟩ := guard_ok hdata
  obtain rfl := Except.ok.inj hdata
  obtain ⟨rfl, hfits₁⟩ := encodeField_ok hpath
  obtain ⟨rfl, hfits₂⟩ := encodeField_ok hmediaType
  obtain ⟨rfl, hfits₃⟩ := encodeField_ok hhash
  obtain ⟨rfl, hfits₄⟩ := encodeField_ok hsourceId
  obtain ⟨rfl, hfits₅⟩ := encodeField_ok hsourceRevision
  refine ⟨rfl, ?_, show resource.bytes.length < 0x100000000 by omega⟩
  simp only [Frame.fields, frameOf, forall_mem_cons]
  exact ⟨hfits₁, hfits₂, hfits₃, hfits₄, hfits₅, forall_mem_nil _⟩

theorem ok_encodeResource (h : (frameOf resource).Fits) : encodeResource resource = .ok (frameOf resource).bytes := by
  obtain ⟨hfields, hsmall⟩ := h
  simp only [Frame.fields, frameOf, forall_mem_cons] at hfields hsmall
  obtain ⟨hfits₁, hfits₂, hfits₃, hfits₄, hfits₅, -⟩ := hfields
  rw [encodeResource, encodeData, if_neg (by omega), ok_encodeField hfits₁.1 hfits₁.2, ok_encodeField hfits₂.1 hfits₂.2,
    ok_encodeField hfits₃.1 hfits₃.2, ok_encodeField hfits₄.1 hfits₄.2, ok_encodeField hfits₅.1 hfits₅.2]
  rfl

theorem encodeResources_ok {bytes : Bytes} (h : encodeResources previousPath resources = .ok bytes) :
    bytes = layout (resources.map frameOf) ∧ (∀ resource ∈ resources, (frameOf resource).Fits)
      ∧ List.IsChain (· < ·) (previousPath :: resources.map SkillResource.path) := by
  induction resources generalizing previousPath bytes with
  | nil =>
    obtain rfl := Except.ok.inj h
    exact ⟨rfl, forall_mem_nil _, .singleton _⟩
  | cons resource resources ih =>
    obtain ⟨hless, h⟩ := guard_ok h
    obtain ⟨frame, hframe, h⟩ := bind_ok h
    obtain ⟨rest, hrest, h⟩ := bind_ok h
    obtain rfl := Except.ok.inj h
    obtain ⟨rfl, hfits⟩ := encodeResource_ok hframe
    obtain ⟨rfl, hfitsRest, hchain⟩ := ih hrest
    refine ⟨?_, forall_mem_cons.mpr ⟨hfits, hfitsRest⟩, .cons_cons (not_not.mp hless) hchain⟩
    rw [map_cons, layout, layout, flatMap_cons]

theorem ok_encodeResources (hfits : ∀ resource ∈ resources, (frameOf resource).Fits)
    (hchain : List.IsChain (· < ·) (previousPath :: resources.map SkillResource.path)) :
    encodeResources previousPath resources = .ok (layout (resources.map frameOf)) := by
  induction resources generalizing previousPath with
  | nil => rfl
  | cons resource resources ih =>
    rw [map_cons] at hchain
    obtain ⟨hless, hchain⟩ := isChain_cons_cons.mp hchain
    obtain ⟨hfirst, hrest⟩ := forall_mem_cons.mp hfits
    rw [encodeResources, if_neg (not_not.mpr hless), ok_encodeResource hfirst, map_cons, layout, flatMap_cons]
    show (encodeResources resource.path resources >>= _) = _
    rw [ih hrest hchain]
    rfl

theorem encode_ok {bytes : Bytes} (h : encodeSkillResourceBundle resources = .ok bytes) :
    bytes = bundleOf (resources.map frameOf) ∧ (∀ resource ∈ resources, (frameOf resource).Fits)
      ∧ List.IsChain (· < ·) ([] :: resources.map SkillResource.path) ∧ bytes.length ≤ MAX_BUNDLE_BYTES := by
  obtain ⟨-, h⟩ := guard_ok h
  obtain ⟨chunks, hchunks, h⟩ := bind_ok h
  obtain ⟨hlimit, h⟩ := guard_ok h
  obtain rfl := Except.ok.inj h
  obtain ⟨rfl, hfits, hchain⟩ := encodeResources_ok hchunks
  refine ⟨?_, hfits, hchain, not_lt.mp hlimit⟩
  rw [bundleOf, length_map]

theorem ok_encode (hcount : resources.length ≤ MAX_RESOURCES) (hfits : ∀ resource ∈ resources, (frameOf resource).Fits)
    (hchain : List.IsChain (· < ·) ([] :: resources.map SkillResource.path))
    (hlimit : (bundleOf (resources.map frameOf)).length ≤ MAX_BUNDLE_BYTES) :
    encodeSkillResourceBundle resources = .ok (bundleOf (resources.map frameOf)) := by
  have hbundle : bundleOf (resources.map frameOf) =
      MAGIC ++ (uint16 resources.length ++ layout (resources.map frameOf)) := by rw [bundleOf, length_map]
  rw [encodeSkillResourceBundle, if_neg (by omega), ok_encodeResources hfits hchain]
  show (if MAX_BUNDLE_BYTES < (MAGIC ++ (uint16 resources.length ++ layout (resources.map frameOf))).length then _
    else _) = _
  rw [← hbundle, if_neg (by omega)]
  rfl

/-! ## Texts -/

/-- A text that survives its bytes: no surrogate stands alone, and no byte order mark is at the start. -/
def Exact (text : JsString) : Prop := (∃ codes, Scalars text codes) ∧ text.head? ≠ some 0xfeff

variable {text : JsString}

theorem bufferFrom_scalars {codes : List Nat} (h : Scalars text codes) : bufferFrom text = utf8 text := by
  rw [bufferFrom, h.utf8, h.codePoints]
  congr 1
  conv_rhs => rw [← map_id codes]
  exact map_congr_left fun code hcode => if_pos (h.isScalar code hcode)

theorem head_scalars {codes : List Nat} (h : Scalars text codes) :
    codes.head? = some 0xfeff ↔ text.head? = some 0xfeff := by
  cases h with
  | nil => simp
  | @unit unit rest codes hhigh hlow h =>
    rw [head?_cons, head?_cons, Option.some_inj, Option.some_inj]
    exact ⟨fun hcode => UInt16.toNat_inj.mp hcode, fun hunit => congrArg UInt16.toNat hunit⟩
  | @pair high low rest codes hhigh hlow h =>
    rw [isHighSurrogate_iff] at hhigh
    rw [head?_cons, head?_cons, Option.some_inj, Option.some_inj]
    refine iff_of_false (by omega) ?_
    rintro rfl
    have hmark : (0xfeff : UInt16).toNat = 0xfeff := rfl
    omega

theorem exact_iff : decodeText (bufferFrom text) = some text ↔ Exact text := by
  constructor
  · intro h
    obtain ⟨⟨codes, hcodes⟩, -⟩ := decodeText_some h
    refine ⟨⟨codes, hcodes⟩, fun hhead => ?_⟩
    rw [bufferFrom_scalars hcodes] at h
    refine (utf8_eq_iff h).mp rfl ?_
    rw [hcodes.utf8]
    cases codes with
    | nil => simp [(head_scalars hcodes).symm] at hhead
    | cons code codes =>
      obtain rfl : code = 0xfeff := Option.some.inj ((head_scalars hcodes).mpr hhead)
      rw [flatMap_cons, utf8Bytes_mark]
      exact prefix_append _ _
  · rintro ⟨⟨codes, hcodes⟩, hhead⟩
    rw [bufferFrom_scalars hcodes, decodeText_utf8 hcodes, if_neg fun h => hhead ((head_scalars hcodes).mp h)]

/-- A text of ASCII, and the length of its bytes. -/
theorem ascii_exact (h : ∀ unit ∈ text, unit.toNat < 0x80) : Exact text ∧ (bufferFrom text).length = text.length := by
  have hscalars : Scalars text (text.map UInt16.toNat) := by
    induction text with
    | nil => exact .nil
    | cons unit text ih =>
      obtain ⟨hunit, hrest⟩ := forall_mem_cons.mp h
      refine .unit ?_ ?_ (ih hrest)
      · rw [Bool.eq_false_iff, ne_eq, isHighSurrogate_iff]
        omega
      · rw [Bool.eq_false_iff, ne_eq, isLowSurrogate_iff]
        omega
  refine ⟨⟨⟨_, hscalars⟩, ?_⟩, ?_⟩
  · intro hhead
    have hmark := h _ (mem_of_mem_head? hhead)
    have hvalue : (0xfeff : UInt16).toNat = 0xfeff := rfl
    omega
  · rw [bufferFrom_scalars hscalars, hscalars.utf8, length_flatMap]
    have hone : (text.map UInt16.toNat).map (fun code => (utf8Bytes code).length) = List.replicate text.length 1 := by
      rw [eq_replicate_iff, length_map, length_map]
      refine ⟨rfl, ?_⟩
      intro length hlength
      obtain ⟨code, hcode, rfl⟩ := mem_map.mp hlength
      obtain ⟨unit, hunit, rfl⟩ := mem_map.mp hcode
      rw [utf8Bytes, if_pos (h unit hunit)]
      rfl
    rw [hone, sum_replicate, smul_eq_mul, Nat.mul_one]

/-- A text that survives is read as it was written. -/
theorem Exact.fieldRead (h : Exact text) (hne : bufferFrom text ≠ [])
    (hbounded : (bufferFrom text).length ≤ MAX_FIELD_BYTES) : FieldRead (bufferFrom text) text :=
  ⟨hne, hbounded, exact_iff.mpr h⟩

theorem ascii_fieldRead (hascii : ∀ unit ∈ text, unit.toNat < 0x80) (hne : text ≠ [])
    (hbounded : text.length ≤ MAX_FIELD_BYTES) : FieldRead (bufferFrom text) text := by
  obtain ⟨hexact, hlength⟩ := ascii_exact hascii
  have hpositive := length_pos_of_ne_nil hne
  refine hexact.fieldRead ?_ (by omega)
  intro hnil
  rw [hnil, length_nil] at hlength
  omega

/-- The bytes that were read are those that are written just where no mark was dropped. -/
theorem FieldRead.written_iff {field : Bytes} (h : FieldRead field value) :
    bufferFrom value = field ↔ ¬ mark <+: field := by
  obtain ⟨⟨codes, hcodes⟩, -⟩ := decodeText_some h.decoded
  rw [bufferFrom_scalars hcodes]
  exact utf8_eq_iff h.decoded

/-! ## Bytes that are read -/

theorem Frame.bytes_inj {frame frame' : Frame} {rest rest' : Bytes}
    (hshort : ∀ field ∈ frame.fields, field.length < 0x10000)
    (hshort' : ∀ field ∈ frame'.fields, field.length < 0x10000)
    (hsmall : frame.data.length < 0x100000000) (hsmall' : frame'.data.length < 0x100000000)
    (h : frame.bytes ++ rest = frame'.bytes ++ rest') : frame = frame' ∧ rest = rest' := by
  obtain ⟨path, mediaType, hash, sourceId, sourceRevision, data⟩ := frame
  obtain ⟨path', mediaType', hash', sourceId', sourceRevision', data'⟩ := frame'
  simp only [Frame.fields, forall_mem_cons] at hshort hshort'
  obtain ⟨hshort₁, hshort₂, hshort₃, hshort₄, hshort₅, -⟩ := hshort
  obtain ⟨hshort₁', hshort₂', hshort₃', hshort₄', hshort₅', -⟩ := hshort'
  simp only [Frame.bytes, append_assoc] at h
  obtain ⟨rfl, h₂⟩ := fieldBytes_inj hshort₁ hshort₁' h
  obtain ⟨rfl, h₃⟩ := fieldBytes_inj hshort₂ hshort₂' h₂
  obtain ⟨rfl, h₄⟩ := fieldBytes_inj hshort₃ hshort₃' h₃
  obtain ⟨rfl, h₅⟩ := fieldBytes_inj hshort₄ hshort₄' h₄
  obtain ⟨rfl, h₆⟩ := fieldBytes_inj hshort₅ hshort₅' h₅
  obtain ⟨hlength, h₇⟩ := uint32_inj hsmall hsmall' h₆
  obtain ⟨rfl, rfl⟩ := append_inj h₇ hlength
  exact ⟨rfl, rfl⟩

theorem Frame.Reads.short {frame : Frame} (h : frame.Reads resource) :
    (∀ field ∈ frame.fields, field.length < 0x10000) ∧ frame.data.length < 0x100000000 := by
  simp only [Frame.fields, forall_mem_cons]
  refine ⟨⟨h.path.short, h.mediaType.short, h.sha256.short, h.sourceId.short, h.sourceRevision.short,
    forall_mem_nil _⟩, ?_⟩
  rw [h.data]
  exact h.small

theorem Frame.Fits.short {frame : Frame} (h : frame.Fits) :
    (∀ field ∈ frame.fields, field.length < 0x10000) ∧ frame.data.length < 0x100000000 := by
  refine ⟨fun field hfield => ?_, h.2⟩
  have hbounded := (h.1 field hfield).2
  rw [MAX_FIELD_BYTES] at hbounded
  omega

/-- Frames that are written alike are the frames that were read. -/
theorem layout_inj (hreads : List.Forall₂ Frame.Reads frames resources)
    (hfits : ∀ resource ∈ resources, (frameOf resource).Fits)
    (h : layout frames = layout (resources.map frameOf)) : frames = resources.map frameOf := by
  induction hreads with
  | nil => rfl
  | @cons frame resource frames resources hread _ ih =>
    rw [map_cons, layout_cons, layout_cons] at h
    obtain ⟨hfirst, hrest⟩ := forall_mem_cons.mp hfits
    obtain ⟨hframe, hframes⟩ := Frame.bytes_inj hread.short.1 hfirst.short.1 hread.short.2 hfirst.short.2 h
    rw [map_cons, ← hframe, ← ih hrest hframes]

/-- A frame is written anew as it was read just where none of its fields begins with a mark. -/
theorem Frame.Reads.written_iff {frame : Frame} (h : frame.Reads resource) :
    frame = frameOf resource ↔ ∀ field ∈ frame.fields, ¬ mark <+: field := by
  obtain ⟨path, mediaType, hash, sourceId, sourceRevision, data⟩ := frame
  simp only [Frame.fields, forall_mem_cons, frameOf, Frame.mk.injEq,
    ← h.path.written_iff, ← h.mediaType.written_iff, ← h.sha256.written_iff, ← h.sourceId.written_iff,
    ← h.sourceRevision.written_iff]
  have hdata := h.data
  dsimp only at hdata
  constructor
  · rintro ⟨h₁, h₂, h₃, h₄, h₅, -⟩
    exact ⟨h₁.symm, h₂.symm, h₃.symm, h₄.symm, h₅.symm, forall_mem_nil _⟩
  · rintro ⟨h₁, h₂, h₃, h₄, h₅, -⟩
    exact ⟨h₁.symm, h₂.symm, h₃.symm, h₄.symm, h₅.symm, hdata⟩

theorem frames_written_iff (h : List.Forall₂ Frame.Reads frames resources) :
    frames = resources.map frameOf ↔ ∀ frame ∈ frames, ∀ field ∈ frame.fields, ¬ mark <+: field := by
  induction h with
  | nil => simp
  | cons hread _ ih => rw [map_cons, cons_eq_cons, forall_mem_cons, hread.written_iff, ih]

theorem Frame.Reads.fits {frame : Frame} (h : frame.Reads resource) : frame.Fits := by
  refine ⟨?_, h.short.2⟩
  simp only [Frame.fields, forall_mem_cons]
  exact ⟨⟨h.path.nonempty, h.path.bounded⟩, ⟨h.mediaType.nonempty, h.mediaType.bounded⟩,
    ⟨h.sha256.nonempty, h.sha256.bounded⟩, ⟨h.sourceId.nonempty, h.sourceId.bounded⟩,
    ⟨h.sourceRevision.nonempty, h.sourceRevision.bounded⟩, forall_mem_nil _⟩

theorem Manifests.isChain (h : Manifests sha256 previousPath resources) :
    List.IsChain (· < ·) (previousPath :: resources.map SkillResource.path) := by
  induction h with
  | nil => exact .singleton _
  | cons hmanifest _ ih => exact .cons_cons hmanifest.increasing ih

/-- A bundle of frames that are read is encoded to the same bytes just where no field begins with a mark. -/
theorem encode_framed_iff (hbuffer : buffer = bundleOf frames) (hreads : List.Forall₂ Frame.Reads frames resources)
    (hmanifests : Manifests sha256 [] resources) (hcount : resources.length ≤ MAX_RESOURCES)
    (hlimit : buffer.length ≤ MAX_BUNDLE_BYTES) : encodeSkillResourceBundle resources = .ok buffer ↔ ∀ frame ∈ frames,
    ∀ field ∈ frame.fields, ¬ mark <+: field := by
  rw [← frames_written_iff hreads]
  constructor
  · intro hencode
    obtain ⟨hbytes, hfits, -, -⟩ := encode_ok hencode
    rw [hbuffer, bundleOf, bundleOf, length_map, hreads.length_eq] at hbytes
    exact layout_inj hreads hfits (append_cancel_left (append_cancel_left hbytes))
  · intro hframes
    rw [hbuffer, hframes]
    refine ok_encode hcount ?_ hmanifests.isChain (by rw [← hframes, ← hbuffer]; exact hlimit)
    have hall : ∀ frame ∈ frames, frame.Fits := by
      intro frame hframe
      obtain ⟨resource, -, hread⟩ := Library.Table.exists_of_mem_left hreads frame hframe
      exact hread.fits
    intro resource hresource
    refine hall _ ?_
    rw [hframes]
    exact mem_map_of_mem hresource

/-! ## Reading within the buffer -/

theorem bind_ne_range {α β : Type} {x : Except Failure α} {f : α → Except Failure β} (hx : x ≠ .error .range)
    (hf : ∀ a, x = .ok a → f a ≠ .error .range) : x >>= f ≠ .error .range := by
  cases hvalue : x with
  | error failure =>
    intro h
    have hfailure : failure = .range := Except.error.inj h
    exact hx (by rw [hvalue, hfailure])
  | ok a => exact hf a hvalue

theorem readUInt16_ne_range (buffer : Bytes) (offset : Nat) : readUInt16 buffer offset ≠ .error .range := by
  unfold readUInt16
  split
  · nofun
  · rename_i hlength
    match hbytes : buffer.drop offset with
    | [] | [_] =>
      have hdrop := congrArg List.length hbytes
      simp only [length_drop, length_nil, length_singleton] at hdrop
      omega
    | a :: b :: rest => nofun

theorem readUInt32_ne_range (buffer : Bytes) (offset : Nat) : readUInt32 buffer offset ≠ .error .range := by
  unfold readUInt32
  split
  · nofun
  · rename_i hlength
    match hbytes : buffer.drop offset with
    | [] | [_] | [_, _] | [_, _, _] =>
      have hdrop := congrArg List.length hbytes
      simp only [length_drop, length_nil, length_cons] at hdrop
      omega
    | a :: b :: c :: d :: rest => nofun

theorem subarray_ne_range {start length : Nat} (h : start + length ≤ buffer.length) :
    subarray buffer start length ≠ .error .range := by
  rw [subarray, if_pos h]
  nofun

theorem readField_ne_range (buffer : Bytes) (offset : Nat) : readField buffer offset ≠ .error .range := by
  refine bind_ne_range (readUInt16_ne_range buffer offset) fun length _ => ?_
  by_cases hbounds : length = 0 ∨ MAX_FIELD_BYTES < length ∨ buffer.length < offset + 2 + length
  · rw [if_pos hbounds]
    nofun
  · rw [if_neg hbounds]
    refine bind_ne_range (subarray_ne_range (by omega)) fun bytes _ => ?_
    cases decodeText bytes with
    | none | some => nofun

theorem readData_ne_range (buffer : Bytes) (offset : Nat) : readData buffer offset ≠ .error .range := by
  refine bind_ne_range (readUInt32_ne_range buffer offset) fun length _ => ?_
  by_cases hbounds : length = 0 ∨ buffer.length < offset + 4 + length
  · rw [if_pos hbounds]
    nofun
  · rw [if_neg hbounds]
    exact bind_ne_range (subarray_ne_range (by omega)) fun bytes _ => nofun

theorem validate_ne_range (value : JsString) : validateSkillVirtualPath value ≠ .error .range := by
  unfold validateSkillVirtualPath
  split
  · nofun
  split
  · nofun
  split
  · nofun
  split
  · nofun
  · nofun

theorem decodeResource_ne_range (buffer : Bytes) (previousPath : JsString) (offset : Nat) :
    decodeResource sha256 buffer previousPath offset ≠ .error .range := by
  refine bind_ne_range (readField_ne_range _ _) fun path _ => ?_
  refine bind_ne_range (readField_ne_range _ _) fun mediaType _ => ?_
  refine bind_ne_range (readField_ne_range _ _) fun hash _ => ?_
  refine bind_ne_range (readField_ne_range _ _) fun sourceId _ => ?_
  refine bind_ne_range (readField_ne_range _ _) fun sourceRevision _ => ?_
  refine bind_ne_range (validate_ne_range _) fun _ _ => ?_
  by_cases hmanifest : ¬ previousPath < path.1 ∨ isHash hash.1 = false
  · rw [if_pos hmanifest]
    nofun
  · rw [if_neg hmanifest]
    refine bind_ne_range (readData_ne_range _ _) ?_
    rintro ⟨bytes, stop⟩ -
    dsimp only
    by_cases hhash : sha256 bytes ≠ hash.1
    · rw [if_pos hhash]
      nofun
    · rw [if_neg hhash]
      nofun

theorem decodeResources_ne_range (buffer : Bytes) (count : Nat) (previousPath : JsString) (offset : Nat) :
    decodeResources sha256 buffer count previousPath offset ≠ .error .range := by
  induction count generalizing previousPath offset with
  | zero => nofun
  | succ count ih =>
    refine bind_ne_range (decodeResource_ne_range _ _ _) fun resource _ => ?_
    exact bind_ne_range (ih _ _) fun resources _ => nofun

theorem decode_ne_range (buffer : Bytes) : decodeSkillResourceBundle sha256 buffer ≠ .error .range := by
  unfold decodeSkillResourceBundle
  split
  · nofun
  refine bind_ne_range (readUInt16_ne_range _ _) fun count _ => ?_
  by_cases hcount : MAX_RESOURCES < count
  · rw [if_pos hcount]
    nofun
  · rw [if_neg hcount]
    refine bind_ne_range (decodeResources_ne_range _ _ _ _) ?_
    rintro ⟨resources, stop⟩ -
    dsimp only
    by_cases hstop : stop ≠ buffer.length
    · rw [if_pos hstop]
      nofun
    · rw [if_neg hstop]
      nofun

end

end TsEpistle.Agents.Skills
