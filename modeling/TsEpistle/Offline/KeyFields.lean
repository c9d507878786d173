import TsEpistle.Offline.KeyFrames

/-! The fields of the frames as they are written and read. -/

namespace TsEpistle.Offline.KeyFrames
open Library Library.Checked LinePatch List Option
open Agents.Skills (Bytes bufferFrom uint32 uint32_inj exact_iff ascii_exact bufferFrom_scalars)
open Pages (trim)

/-! ## Numbers and texts -/

theorem readLength_iff {bytes rest : Bytes} {n : Nat} :
    readLength bytes = some (n, rest) ↔ n < 0x100000000 ∧ bytes = uint32 n ++ rest := by
  constructor
  · intro h
    match bytes with
    | [] | [_] | [_, _] | [_, _, _] => cases h
    | a :: b :: c :: d :: tail =>
      obtain ⟨rfl, rfl⟩ := Prod.mk.inj (Option.some.inj h)
      have ha := a.toNat_lt
      have hb := b.toNat_lt
      have hc := c.toNat_lt
      have hd := d.toNat_lt
      refine ⟨by omega, ?_⟩
      rw [uint32, toUInt8_toNat_eq (b := a) (by omega), toUInt8_toNat_eq (b := b) (by omega),
        toUInt8_toNat_eq (b := c) (by omega), toUInt8_toNat_eq (b := d) (by omega)]
      rfl
  · rintro ⟨h, rfl⟩
    simp (disch := omega) only [readLength, uint32, cons_append, nil_append, toNat_toUInt8]
    congr 2
    omega

theorem lpBytes_inj {field field' rest rest' : Bytes} (h : field.length < 0x100000000)
    (h' : field'.length < 0x100000000) (heq : lpBytes field ++ rest = lpBytes field' ++ rest') :
    field = field' ∧ rest = rest' := by
  rw [lpBytes, lpBytes, append_assoc, append_assoc] at heq
  obtain ⟨hlength, heq⟩ := uint32_inj h h' heq
  exact append_inj heq hlength

theorem u64_inj {n n' : Nat} {rest rest' : Bytes} (h : n ≤ MAX_SAFE_INTEGER) (h' : n' ≤ MAX_SAFE_INTEGER)
    (heq : u64 n ++ rest = u64 n' ++ rest') : n = n' ∧ rest = rest' := by
  have hsafe : MAX_SAFE_INTEGER = 9007199254740991 := rfl
  rw [u64, u64, append_assoc, append_assoc] at heq
  obtain ⟨hhigh, heq⟩ := uint32_inj (by omega) (by omega) heq
  obtain ⟨hlow, hrest⟩ := uint32_inj (by omega) (by omega) heq
  exact ⟨by omega, hrest⟩

theorem readLpUtf8_iff {maximumBytes : Nat} (hmax : maximumBytes < 0x100000000) {bytes rest : Bytes}
    {value : JsString} : readLpUtf8 maximumBytes bytes = some (value, rest) ↔ ∃ field, field.length ≤ maximumBytes ∧
    bytes = lpBytes field ++ rest ∧ decodeText field = some value := by
  unfold readLpUtf8
  constructor
  · intro h
    obtain ⟨⟨length, behind⟩, hlength, hfield⟩ := bind_eq_some_iff.mp h
    obtain ⟨-, rfl⟩ := readLength_iff.mp hlength
    dsimp only at hfield
    split_ifs at hfield with hshort
    rw [not_or, not_lt, not_lt] at hshort
    obtain ⟨text, htext, heq⟩ := map_eq_some_iff.mp hfield
    obtain ⟨rfl, rfl⟩ := Prod.mk.inj heq
    have htake : (behind.take length).length = length := length_take_of_le hshort.2
    refine ⟨_, htake.trans_le hshort.1, ?_, htext⟩
    rw [lpBytes, htake, append_assoc, List.take_append_drop]
  · rintro ⟨field, hfield, rfl, htext⟩
    have hread : readLength (lpBytes field ++ rest) = some (field.length, field ++ rest) := by
      rw [readLength_iff, lpBytes, append_assoc]
      exact ⟨by omega, rfl⟩
    rw [hread, bind_some]
    dsimp only
    rw [if_neg (by rw [length_append]; omega), take_left, drop_left, htext]
    rfl

theorem readU64_iff {bytes rest : Bytes} {n : Nat} :
    readU64 bytes = some (n, rest) ↔ n ≤ MAX_SAFE_INTEGER ∧ bytes = u64 n ++ rest := by
  have hsafe : MAX_SAFE_INTEGER = 9007199254740991 := rfl
  unfold readU64
  constructor
  · intro h
    obtain ⟨⟨high, behind⟩, hhigh, hsecond⟩ := bind_eq_some_iff.mp h
    obtain ⟨⟨low, behind'⟩, hlow, hvalue⟩ := bind_eq_some_iff.mp hsecond
    obtain ⟨-, rfl⟩ := readLength_iff.mp hhigh
    obtain ⟨hsmall, rfl⟩ := readLength_iff.mp hlow
    dsimp only at hvalue
    split_ifs at hvalue with hlarge
    obtain ⟨rfl, rfl⟩ := Prod.mk.inj (Option.some.inj hvalue)
    refine ⟨not_lt.mp hlarge, ?_⟩
    rw [u64, show (high * 0x100000000 + low) / 0x100000000 = high by omega,
      show (high * 0x100000000 + low) % 0x100000000 = low by omega, append_assoc]
  · rintro ⟨h, rfl⟩
    rw [u64, append_assoc, readLength_iff.mpr ⟨by omega, rfl⟩, bind_some]
    dsimp only
    rw [readLength_iff.mpr ⟨by omega, rfl⟩, bind_some]
    dsimp only
    rw [if_neg (by omega), show n / 0x100000000 * 0x100000000 + n % 0x100000000 = n by omega]

/-- The bytes that were read are those that are written just where no mark was dropped. -/
theorem written_iff {field : Bytes} {value : JsString} (h : decodeText field = some value) :
    bufferFrom value = field ↔ ¬ mark <+: field := by
  obtain ⟨⟨codes, hcodes⟩, -⟩ := decodeText_some h
  rw [bufferFrom_scalars hcodes]
  exact utf8_eq_iff h

/-! ## Heads -/

/-- The fields of a head as bytes. -/
structure RawHead where
  (origin site : Bytes)
  (accountId authVersion : Nat)
  version : Bytes

def RawHead.bytes (raw : RawHead) : Bytes :=
  lpBytes raw.origin ++ (lpBytes raw.site ++ (u64 raw.accountId ++ (u64 raw.authVersion ++ lpBytes raw.version)))

/-- Fields of the sizes that both sides allow. -/
structure RawHead.Small (raw : RawHead) : Prop where
  origin : raw.origin.length ≤ MAX_CANONICAL_ORIGIN_BYTES
  site : raw.site.length ≤ MAX_SITE_ID_BYTES
  version : raw.version.length ≤ 0xff
  accountId : raw.accountId ≤ MAX_SAFE_INTEGER
  authVersion : raw.authVersion ≤ MAX_SAFE_INTEGER

theorem RawHead.bytes_inj {raw raw' : RawHead} {rest rest' : Bytes} (h : raw.Small) (h' : raw'.Small)
    (heq : raw.bytes ++ rest = raw'.bytes ++ rest') : raw = raw' ∧ rest = rest' := by
  have horigin := h.origin
  have horigin' := h'.origin
  have hsite := h.site
  have hsite' := h'.site
  have hversion := h.version
  have hversion' := h'.version
  unfold MAX_CANONICAL_ORIGIN_BYTES at horigin horigin'
  unfold MAX_SITE_ID_BYTES at hsite hsite'
  simp only [RawHead.bytes, append_assoc] at heq
  obtain ⟨ho, heq⟩ := lpBytes_inj (by omega) (by omega) heq
  obtain ⟨hs, heq⟩ := lpBytes_inj (by omega) (by omega) heq
  obtain ⟨hi, heq⟩ := u64_inj h.accountId h'.accountId heq
  obtain ⟨ha, heq⟩ := u64_inj h.authVersion h'.authVersion heq
  obtain ⟨hv, hrest⟩ := lpBytes_inj (by omega) (by omega) heq
  cases raw
  cases raw'
  exact ⟨by simp_all, hrest⟩

theorem RawHead.length_bytes {raw : RawHead} (h : raw.Small) : raw.bytes.length ≤ 9600 := by
  have horigin := h.origin
  have hsite := h.site
  have hversion := h.version
  unfold MAX_CANONICAL_ORIGIN_BYTES at horigin
  unfold MAX_SITE_ID_BYTES at hsite
  simp only [RawHead.bytes, lpBytes, u64, uint32, length_append, length_cons, length_nil]
  omega

/-- What a head is read as. -/
structure RawHead.Reads (raw : RawHead) (head : DraftKeyContext) : Prop where
  small : raw.Small
  origin : decodeText raw.origin = some head.canonicalOrigin
  site : decodeText raw.site = some head.siteId
  accountId : raw.accountId = head.accountId
  authVersion : raw.authVersion = head.authVersion
  version : decodeText raw.version = some head.keyVersion

theorem readHead_iff {versionBytes : Nat} (hmax : versionBytes ≤ 0xff) {bytes rest : Bytes} {head : DraftKeyContext} :
    readHead versionBytes bytes = some (head, rest)
      ↔ ∃ raw : RawHead, raw.Reads head ∧ raw.version.length ≤ versionBytes ∧ bytes = raw.bytes ++ rest := by
  unfold readHead
  constructor
  · intro h
    obtain ⟨⟨origin, behind⟩, horigin, h⟩ := bind_eq_some_iff.mp h
    obtain ⟨⟨site, behind₁⟩, hsite, h⟩ := bind_eq_some_iff.mp h
    obtain ⟨⟨account, behind₂⟩, haccount, h⟩ := bind_eq_some_iff.mp h
    obtain ⟨⟨auth, behind₃⟩, hauth, h⟩ := bind_eq_some_iff.mp h
    obtain ⟨⟨version, behind₄⟩, hversion, heq⟩ := map_eq_some_iff.mp h
    obtain ⟨originField, horiginSmall, rfl, horiginText⟩ := (readLpUtf8_iff (by decide)).mp horigin
    obtain ⟨siteField, hsiteSmall, rfl, hsiteText⟩ := (readLpUtf8_iff (by decide)).mp hsite
    obtain ⟨haccountSmall, rfl⟩ := readU64_iff.mp haccount
    obtain ⟨hauthSmall, rfl⟩ := readU64_iff.mp hauth
    obtain ⟨versionField, hversionSmall, rfl, hversionText⟩ := (readLpUtf8_iff (by omega)).mp hversion
    obtain ⟨rfl, rfl⟩ := Prod.mk.inj heq
    refine ⟨⟨originField, siteField, account, auth, versionField⟩, ?_, hversionSmall, ?_⟩
    · exact ⟨⟨horiginSmall, hsiteSmall, by dsimp only; omega, haccountSmall, hauthSmall⟩, horiginText, hsiteText,
        rfl, rfl, hversionText⟩
    · simp only [RawHead.bytes, append_assoc]
  · rintro ⟨raw, h, hversion, rfl⟩
    have hsmall := h.small
    simp only [RawHead.bytes, append_assoc]
    rw [(readLpUtf8_iff (by decide)).mpr ⟨_, hsmall.origin, rfl, h.origin⟩, bind_some]
    dsimp only
    rw [(readLpUtf8_iff (by decide)).mpr ⟨_, hsmall.site, rfl, h.site⟩, bind_some]
    dsimp only
    rw [readU64_iff.mpr ⟨hsmall.accountId, rfl⟩, bind_some]
    dsimp only
    rw [readU64_iff.mpr ⟨hsmall.authVersion, rfl⟩, bind_some]
    dsimp only
    rw [(readLpUtf8_iff (by omega)).mpr ⟨_, hversion, rfl, h.version⟩, h.accountId, h.authVersion]
    rfl

/-! ## Contexts that are written -/

/-- The head that the server writes of a context. -/
def written (context : DraftKeyContext) (keyVersion : JsString) : RawHead where
  origin := bufferFrom context.canonicalOrigin
  site := bufferFrom context.siteId
  accountId := context.accountId
  authVersion := context.authVersion
  version := bufferFrom keyVersion

/-- What the server asks of a context. -/
structure Fits (context : DraftKeyContext) : Prop where
  origin : (bufferFrom context.canonicalOrigin).length ≤ 2048
  site : (bufferFrom context.siteId).length ≤ 256
  account : 1 ≤ context.accountId
  accountId : context.accountId ≤ MAX_SAFE_INTEGER
  authVersion : context.authVersion ≤ MAX_SAFE_INTEGER

variable {context : DraftKeyContext}

theorem Fits.small (h : Fits context) {keyVersion : JsString}
    (hversion : (bufferFrom keyVersion).length ≤ 0xff) : (written context keyVersion).Small where
  origin := h.origin.trans (by decide)
  site := h.site.trans (by decide)
  version := hversion
  accountId := h.accountId
  authVersion := h.authVersion

theorem assertUnsignedInteger_iff {value minimum result : Nat} {label : String} :
    assertUnsignedInteger value label minimum = .ok result
      ↔ value ≤ MAX_SAFE_INTEGER ∧ minimum ≤ value ∧ result = value := by
  unfold assertUnsignedInteger
  split_ifs with hbad
  · exact iff_of_false nofun (by omega)
  · rw [Except.ok.injEq]
    omega

theorem contextNumbers_iff : contextNumbers context = .ok () ↔ 1 ≤ context.accountId ∧
    context.accountId ≤ MAX_SAFE_INTEGER ∧ context.authVersion ≤ MAX_SAFE_INTEGER := by
  constructor
  · intro h
    obtain ⟨account, haccount, h⟩ := bind_ok h
    obtain ⟨auth, hauth, -⟩ := bind_ok h
    obtain ⟨hsafe, hpositive, -⟩ := assertUnsignedInteger_iff.mp haccount
    exact ⟨hpositive, hsafe, (assertUnsignedInteger_iff.mp hauth).1⟩
  · rintro ⟨hpositive, hsafe, hauth⟩
    unfold contextNumbers
    rw [assertUnsignedInteger_iff.mpr ⟨hsafe, hpositive, rfl⟩,
      assertUnsignedInteger_iff.mpr ⟨hauth, Nat.zero_le _, rfl⟩]
    rfl

theorem assertBoundedUtf8_iff {value : JsString} {label : String} {maximumBytes : Nat} :
    assertBoundedUtf8 value label maximumBytes = .ok () ↔ (bufferFrom value).length ≤ maximumBytes := by
  unfold assertBoundedUtf8
  split_ifs with hlong
  · exact iff_of_false nofun (by omega)
  · exact iff_of_true rfl (by omega)

theorem lpUtf8_eq {value : JsString} (h : (bufferFrom value).length ≤ 0xffffffff) :
    lpUtf8 value = .ok (lpBytes (bufferFrom value)) :=
  if_neg (not_lt.mpr h)

theorem headBytes_eq (h : Fits context) {keyVersion : JsString} (hversion : (bufferFrom keyVersion).length ≤ 0xff) :
    headBytes context keyVersion = .ok (written context keyVersion).bytes := by
  have horigin := h.origin
  have hsite := h.site
  unfold headBytes u64be
  rw [lpUtf8_eq (by omega), lpUtf8_eq (by omega), lpUtf8_eq (by omega),
    assertUnsignedInteger_iff.mpr ⟨h.accountId, h.account, rfl⟩,
    assertUnsignedInteger_iff.mpr ⟨h.authVersion, Nat.zero_le _, rfl⟩]
  rfl

theorem contextFields_iff :
    contextFields context = .ok () ↔ context.keyVersion = OFFLINE_KEY_VERSION ∧ Fits context := by
  unfold contextFields
  constructor
  · intro h
    obtain ⟨hversion, h⟩ := guard_ok h
    obtain ⟨⟨⟩, horigin, h⟩ := bind_ok h
    obtain ⟨⟨⟩, hsite, h⟩ := bind_ok h
    obtain ⟨hpositive, hsafe, hauth⟩ := contextNumbers_iff.mp h
    exact ⟨not_not.mp hversion, assertBoundedUtf8_iff.mp horigin, assertBoundedUtf8_iff.mp hsite, hpositive, hsafe,
      hauth⟩
  · rintro ⟨hversion, h⟩
    rw [if_neg (not_not.mpr hversion), assertBoundedUtf8_iff.mpr h.origin, assertBoundedUtf8_iff.mpr h.site,
      contextNumbers_iff.mpr ⟨h.account, h.accountId, h.authVersion⟩]
    rfl

theorem short_version : (bufferFrom OFFLINE_KEY_VERSION).length ≤ 0xff
    ∧ (bufferFrom OFFLINE_READING_KEY_VERSION).length ≤ 0xff := by
  decide +kernel

theorem encodeOfflineDraftKeyInfo_iff {bytes : Bytes} :
    encodeOfflineDraftKeyInfo context = .ok bytes ↔ context.keyVersion = OFFLINE_KEY_VERSION ∧ Fits context
      ∧ bytes = lpBytes (bufferFrom OFFLINE_DRAFT_KEY_LABEL) ++ (written context OFFLINE_KEY_VERSION).bytes := by
  have hlabel : lpUtf8 OFFLINE_DRAFT_KEY_LABEL = .ok (lpBytes (bufferFrom OFFLINE_DRAFT_KEY_LABEL)) :=
    lpUtf8_eq (by decide +kernel)
  unfold encodeOfflineDraftKeyInfo
  constructor
  · intro h
    obtain ⟨⟨⟩, hfields, h⟩ := bind_ok h
    obtain ⟨hversion, hfits⟩ := contextFields_iff.mp hfields
    rw [hlabel, headBytes_eq hfits short_version.1] at h
    exact ⟨hversion, hfits, (Except.ok.inj h).symm⟩
  · rintro ⟨hversion, hfits, rfl⟩
    rw [contextFields_iff.mpr ⟨hversion, hfits⟩, hlabel, headBytes_eq hfits short_version.1]
    rfl

theorem encodeOfflineDraftKeyFrame_iff {key bytes : Bytes} : encodeOfflineDraftKeyFrame context key = .ok bytes ↔
    context.keyVersion = OFFLINE_KEY_VERSION ∧ Fits context ∧ key.length = OFFLINE_KEY_BYTES ∧
    bytes = OFFLINE_DRAFT_KEY_MAGIC ++ ((written context OFFLINE_KEY_VERSION).bytes ++ key) := by
  unfold encodeOfflineDraftKeyFrame
  constructor
  · intro h
    obtain ⟨⟨⟩, hfields, h⟩ := bind_ok h
    obtain ⟨hversion, hfits⟩ := contextFields_iff.mp hfields
    obtain ⟨hkey, h⟩ := guard_ok h
    rw [headBytes_eq hfits short_version.1] at h
    exact ⟨hversion, hfits, not_not.mp hkey, (Except.ok.inj h).symm⟩
  · rintro ⟨hversion, hfits, hkey, rfl⟩
    rw [contextFields_iff.mpr ⟨hversion, hfits⟩, headBytes_eq hfits short_version.1]
    exact if_neg (not_not.mpr hkey)

end TsEpistle.Offline.KeyFrames
