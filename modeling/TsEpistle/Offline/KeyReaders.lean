import TsEpistle.Offline.KeyFields

/-! What the readers of the client accept, and what the server writes for them. -/

namespace TsEpistle.Offline.KeyFrames
open Library Library.Checked LinePatch List Option
open Agents.Skills (Bytes bufferFrom uint32 Exact exact_iff ascii_exact)
open Pages (trim isSpace)

/-! ## Visible texts -/

def Visible (text : JsString) : Prop := ∀ unit ∈ text, 33 ≤ unit.toNat ∧ unit.toNat ≤ 126

theorem isSpace_visible {unit : UInt16} (h : 33 ≤ unit.toNat ∧ unit.toNat ≤ 126) : isSpace unit = false := by
  have hne : ∀ n : Nat, n < 65536 → n ≤ 32 ∨ 127 ≤ n → unit ≠ UInt16.ofNat n := by
    rintro n hn hout rfl
    rw [UInt16.toNat_ofNat_of_lt' hn] at h
    omega
  have hle : ∀ n : Nat, n < 65536 → 127 ≤ n → ¬ UInt16.ofNat n ≤ unit := by
    intro n hn hout hle
    rw [UInt16.le_iff_toNat_le, UInt16.toNat_ofNat_of_lt' hn] at hle
    omega
  have hsmall : ¬ unit ≤ 13 := by
    intro hle
    have hnat : unit.toNat ≤ 13 := UInt16.le_iff_toNat_le.mp hle
    omega
  have h1 := hne 32 (by omega) (by omega)
  have h2 := hne 160 (by omega) (by omega)
  have h3 := hne 5760 (by omega) (by omega)
  have h4 := hne 8232 (by omega) (by omega)
  have h5 := hne 8233 (by omega) (by omega)
  have h6 := hne 8239 (by omega) (by omega)
  have h7 := hne 8287 (by omega) (by omega)
  have h8 := hne 12288 (by omega) (by omega)
  have h9 := hne 65279 (by omega) (by omega)
  have h10 := hle 8192 (by omega) (by omega)
  simp only [isSpace, Bool.or_eq_false_iff, Bool.and_eq_false_iff, decide_eq_false_iff_not]
  exact ⟨⟨⟨⟨⟨⟨⟨⟨⟨⟨.inr hsmall, h1⟩, h2⟩, h3⟩, .inl h10⟩, h4⟩, h5⟩, h6⟩, h7⟩, h8⟩, h9⟩

theorem trim_of_visible {text : JsString} (h : Visible text) : trim text = text := by
  have hdrop : ∀ other : JsString, Visible other → other.dropWhile isSpace = other := by
    intro other hother
    cases other with
    | nil => rfl
    | cons unit rest =>
      exact dropWhile_cons_of_neg (by simp [isSpace_visible (hother unit mem_cons_self)])
  unfold trim
  rw [hdrop text h, hdrop _ fun unit hunit => h unit (mem_reverse.mp hunit), reverse_reverse]

theorem Visible.exact {text : JsString} (h : Visible text) : Exact text ∧ (bufferFrom text).length = text.length :=
  ascii_exact fun unit hunit => by
    have := h unit hunit
    omega

/-- A text without edge white space has no byte order mark at its start. -/
theorem exact_of_trim {text : JsString} (htrim : trim text = text) (h : ∃ codes, Scalars text codes) : Exact text := by
  refine ⟨h, fun hhead => ?_⟩
  obtain ⟨rest, rfl⟩ := head?_eq_some_iff.mp hhead
  have hlength := congrArg List.length htrim
  unfold trim at hlength
  rw [dropWhile_cons_of_pos (by decide), length_reverse] at hlength
  have hfirst := (dropWhile_sublist (p := isSpace) (l := (rest.dropWhile isSpace).reverse)).length_le
  have hsecond := (dropWhile_sublist (p := isSpace) (l := rest)).length_le
  rw [length_reverse] at hfirst
  rw [length_cons] at hlength
  omega

/-! ## Origins -/

variable {parseUrl : JsString → Option ParsedUrl}

theorem canonicalOrigin_some (laws : UrlLaws parseUrl) {value origin : JsString}
    (h : canonicalOrigin parseUrl value = some origin) :
    origin = value ∧ value ≠ [] ∧ Visible value ∧ (parseUrl value).isSome = true
      ∧ ((bufferFrom value).length ≤ 2048 → canonicalOriginFromConfig parseUrl value = .ok value) := by
  obtain ⟨parsed, hparsed, h⟩ := bind_eq_some_iff.mp h
  split_ifs at h with haccepted
  obtain ⟨hsame, hsecure, hbare⟩ := haccepted
  obtain ⟨hne, hvisible⟩ := laws.visible hparsed hsecure
  rw [hsame] at hne hvisible
  refine ⟨(Option.some.inj h).symm.trans hsame, hne, hvisible, by rw [hparsed]; rfl, fun hshort => ?_⟩
  unfold canonicalOriginFromConfig
  rw [if_neg hne, hparsed]
  dsimp only
  rw [hsecure, hbare, hsame, assertBoundedUtf8_iff.mpr hshort]
  rfl

theorem canonicalOriginFromConfig_ok (laws : UrlLaws parseUrl) {value origin : JsString}
    (h : canonicalOriginFromConfig parseUrl value = .ok origin) :
    canonicalOrigin parseUrl origin = some origin ∧ (bufferFrom origin).length ≤ 2048 := by
  unfold canonicalOriginFromConfig at h
  obtain ⟨-, h⟩ := guard_ok h
  cases hparsed : parseUrl value with
  | none =>
    rw [hparsed] at h
    cases h
  | some parsed =>
    rw [hparsed] at h
    obtain ⟨haccepted, h⟩ := guard_ok h
    obtain ⟨⟨⟩, hshort, h⟩ := bind_ok h
    obtain rfl := Except.ok.inj h
    have hsecure : parsed.secure = true := by
      by_contra hnot
      exact haccepted (by simp [hnot])
    obtain ⟨same, hsame, horigin, hagain, hbare⟩ := laws.again hparsed hsecure
    refine ⟨?_, assertBoundedUtf8_iff.mp hshort⟩
    unfold canonicalOrigin
    rw [hsame, bind_some, if_pos ⟨horigin, hagain, hbare⟩, horigin]

theorem siteAccepted_iff {siteId : JsString} :
    siteAccepted siteId = true ↔ 1 ≤ siteId.length ∧ siteId.length ≤ 256 ∧ trim siteId = siteId := by
  unfold siteAccepted
  simp only [Bool.and_eq_true, decide_eq_true_eq, and_assoc]

theorem boundedIdentifier_accepted {siteId : JsString} (h : siteAccepted siteId = true) :
    boundedIdentifier siteId = some siteId := by
  obtain ⟨hlow, hhigh, htrim⟩ := siteAccepted_iff.mp h
  unfold boundedIdentifier
  rw [htrim, if_pos ⟨hlow, hhigh⟩]

/-! ## The draft frame -/

/-- What a frame of a draft key is accepted with. -/
structure DraftRead (parseUrl : JsString → Option ParsedUrl) (expected : DraftKeyFrameExpectation)
    (parsed : ParsedDraftKeyFrame) : Prop where
  expectation : assertExpected expected = true
  generation : parsed.sessionGeneration = expected.expectedSessionGeneration
  key : parsed.keyBytes.length = OFFLINE_KEY_BYTES
  own : canonicalOrigin parseUrl parsed.context.canonicalOrigin = some parsed.context.canonicalOrigin
  origin : canonicalOrigin parseUrl expected.canonicalOrigin = some parsed.context.canonicalOrigin
  short : parsed.context.canonicalOrigin.length ≤ 2048
  site : siteAccepted parsed.context.siteId = true
  account : parsed.context.accountId = expected.expectedAccountId
  accountId : isSafePositiveInteger parsed.context.accountId = true
  authVersion : isSafeNonnegativeInteger parsed.context.authVersion = true
  version : parsed.context.keyVersion = OFFLINE_KEY_VERSION

theorem afterMagic_iff {magic bytes rest : Bytes} :
    afterMagic magic bytes = some rest ↔ bytes = magic ++ rest ∧ bytes.length ≤ MAX_FRAME_BYTES := by
  unfold afterMagic
  constructor
  · intro h
    split_ifs at h with hsize hmagic
    obtain ⟨tail, rfl⟩ := isPrefixOf_iff_prefix.mp hmagic
    rw [drop_left] at h
    obtain rfl := Option.some.inj h
    exact ⟨rfl, by omega⟩
  · rintro ⟨rfl, hlength⟩
    rw [length_append] at hlength ⊢
    rw [if_neg (by omega), if_pos (List.isPrefixOf_iff_prefix.mpr (prefix_append _ _)), drop_left]

theorem parseDraftKeyFrame_iff (laws : UrlLaws parseUrl) {bytes : Bytes} {expected : DraftKeyFrameExpectation}
    {parsed : ParsedDraftKeyFrame} :
    parseDraftKeyFrame parseUrl bytes expected = some parsed ↔ DraftRead parseUrl expected parsed
      ∧ ∃ raw : RawHead, raw.Reads parsed.context ∧ raw.version.length ≤ OFFLINE_KEY_VERSION.length
        ∧ bytes = OFFLINE_DRAFT_KEY_MAGIC ++ (raw.bytes ++ parsed.keyBytes) := by
  have hversionBytes : OFFLINE_KEY_VERSION.length ≤ 0xff := by decide +kernel
  unfold parseDraftKeyFrame
  constructor
  · intro h
    split_ifs at h with hexpected
    obtain ⟨rest, hmagic, h₁⟩ := bind_eq_some_iff.mp h
    obtain ⟨⟨head, key⟩, hhead, h₂⟩ := bind_eq_some_iff.mp h₁
    obtain ⟨origin, horigin, h₃⟩ := bind_eq_some_iff.mp h₂
    split_ifs at h₃ with haccepted
    obtain ⟨hkey, hexpectedOrigin, hsite, haccount, hpositive, hauth, hversion⟩ := haccepted
    obtain ⟨context, hcontext, rfl⟩ := map_eq_some_iff.mp h₃
    obtain ⟨rfl, -, hvisible, -⟩ := canonicalOrigin_some laws horigin
    unfold parseDraftKeyContext at hcontext
    split_ifs at hcontext with hschema
    rw [boundedIdentifier_accepted hsite, trim_of_visible hvisible] at hcontext
    rw [trim_of_visible hvisible] at hschema
    obtain rfl := Option.some.inj hcontext
    obtain ⟨raw, hraw, hshort, hrest⟩ := (readHead_iff hversionBytes).mp hhead
    refine ⟨⟨by simpa using hexpected, rfl, hkey, horigin, hexpectedOrigin, hschema.2.1, hsite, haccount, hpositive,
      hauth, hversion⟩, raw, hraw, hshort, ?_⟩
    rw [(afterMagic_iff.mp hmagic).1, hrest]
  · rintro ⟨h, raw, hraw, hshort, rfl⟩
    obtain ⟨-, -, hvisible, hparsed, -⟩ := canonicalOrigin_some laws h.own
    have hsize := raw.length_bytes hraw.small
    have hkey := h.key
    have hmagic : afterMagic OFFLINE_DRAFT_KEY_MAGIC (OFFLINE_DRAFT_KEY_MAGIC ++ (raw.bytes ++ parsed.keyBytes))
        = some (raw.bytes ++ parsed.keyBytes) := by
      refine afterMagic_iff.mpr ⟨rfl, ?_⟩
      rw [length_append, length_append, hkey]
      unfold OFFLINE_DRAFT_KEY_MAGIC OFFLINE_KEY_BYTES MAX_FRAME_BYTES
      simp only [length_cons, length_nil]
      omega
    have hcontext : parseDraftKeyContext parseUrl parsed.context = some parsed.context := by
      unfold parseDraftKeyContext
      rw [trim_of_visible hvisible, if_pos ⟨hparsed, h.short, h.accountId, h.authVersion, h.version⟩,
        boundedIdentifier_accepted h.site]
      rfl
    rw [if_neg (by simp [h.expectation]), hmagic, bind_some,
      (readHead_iff hversionBytes).mpr ⟨raw, hraw, hshort, rfl⟩, bind_some]
    dsimp only
    rw [h.own, bind_some,
      if_pos ⟨hkey, h.origin, h.site, h.account, h.accountId, h.authVersion, h.version⟩, hcontext, ← h.generation]
    rfl

/-! ## The identity of a reading key -/

theorem sextetBits_sextet : ∀ bits < 64, sextetBits (sextet bits) = some bits := by
  decide

theorem sextet_of_bits {unit : UInt16} {bits : Nat} (h : sextetBits unit = some bits) : unit.toNat < 0x80 := by
  unfold sextetBits at h
  have hle {a b : UInt16} : a ≤ b ↔ a.toNat ≤ b.toNat := UInt16.le_iff_toNat_le
  split_ifs at h with hupper hlower hdigit hdash hline
  · have := hle.mp hupper.2
    change unit.toNat ≤ 90 at this
    omega
  · have := hle.mp hlower.2
    change unit.toNat ≤ 122 at this
    omega
  · have := hle.mp hdigit.2
    change unit.toNat ≤ 57 at this
    omega
  · rw [hdash]
    decide
  · rw [hline]
    decide

theorem base64UrlEncode_units (bytes : Bytes) : ∀ unit ∈ base64UrlEncode bytes, ∃ bits < 64, unit = sextet bits := by
  have hbyte (a : UInt8) : a.toNat < 256 := a.toNat_lt
  fun_induction base64UrlEncode bytes with
  | case1 a b c rest ih =>
    have ha := hbyte a
    have hb := hbyte b
    have hc := hbyte c
    simp only [forall_mem_cons]
    exact ⟨⟨_, by omega, rfl⟩, ⟨_, by omega, rfl⟩, ⟨_, by omega, rfl⟩, ⟨_, by omega, rfl⟩, ih⟩
  | case2 a b =>
    have ha := hbyte a
    have hb := hbyte b
    simp only [forall_mem_cons]
    exact ⟨⟨_, by omega, rfl⟩, ⟨_, by omega, rfl⟩, ⟨_, by omega, rfl⟩, nofun⟩
  | case3 a =>
    have ha := hbyte a
    simp only [forall_mem_cons]
    exact ⟨⟨_, by omega, rfl⟩, ⟨_, by omega, rfl⟩, nofun⟩
  | case4 => exact nofun

theorem base64UrlDecode_encode (bytes : Bytes) : base64UrlDecode (base64UrlEncode bytes) = bytes := by
  have hbyte (a : UInt8) : a.toNat < 256 := a.toNat_lt
  have hsame (a : UInt8) {n : Nat} (h : n = a.toNat) : n.toUInt8 = a := toUInt8_toNat_eq h
  unfold base64UrlDecode
  fun_induction base64UrlEncode bytes with
  | case1 a b c rest ih =>
    have ha := hbyte a
    have hb := hbyte b
    have hc := hbyte c
    simp (disch := omega) only [filterMap_cons, sextetBits_sextet, joinSextets]
    rw [ih, hsame a (by omega), hsame b (by omega), hsame c (by omega)]
  | case2 a b =>
    have ha := hbyte a
    have hb := hbyte b
    simp (disch := omega) only [filterMap_cons, filterMap_nil, sextetBits_sextet, joinSextets]
    rw [hsame a (by omega), hsame b (by omega)]
  | case3 a =>
    have ha := hbyte a
    simp (disch := omega) only [filterMap_cons, filterMap_nil, sextetBits_sextet, joinSextets]
    rw [hsame a (by omega)]
  | case4 => rfl

theorem length_base64UrlEncode (bytes : Bytes) : (base64UrlEncode bytes).length = (4 * bytes.length + 2) / 3 := by
  fun_induction base64UrlEncode bytes with
  | case1 a b c rest ih =>
    simp only [length_cons]
    omega
  | case2 a b => simp
  | case3 a => simp
  | case4 => rfl

theorem isKeyId_encode {bytes : Bytes} (h : bytes.length = 16) : isKeyId (base64UrlEncode bytes) = true := by
  unfold isKeyId
  rw [base64UrlDecode_encode]
  simp only [Bool.and_eq_true, decide_eq_true_eq]
  exact ⟨⟨by rw [length_base64UrlEncode, h], h⟩, trivial⟩

theorem isKeyId_units {keyId : JsString} (h : isKeyId keyId = true) : keyId.length = 22 ∧
    (keyId.all fun unit => (sextetBits unit).isSome) = true ∧ ∀ unit ∈ keyId, unit.toNat < 0x80 := by
  simp only [isKeyId, Bool.and_eq_true, decide_eq_true_eq] at h
  obtain ⟨⟨hlength, -⟩, hsame⟩ := h
  have hunits : ∀ unit ∈ keyId, ∃ bits, sextetBits unit = some bits := by
    intro unit hunit
    rw [← hsame] at hunit
    obtain ⟨bits, hbits, rfl⟩ := base64UrlEncode_units _ unit hunit
    exact ⟨bits, sextetBits_sextet bits hbits⟩
  refine ⟨hlength, List.all_eq_true.mpr fun unit hunit => ?_, fun unit hunit => ?_⟩
  · obtain ⟨bits, hbits⟩ := hunits unit hunit
    rw [hbits]
    rfl
  · obtain ⟨bits, hbits⟩ := hunits unit hunit
    exact sextet_of_bits hbits

/-! ## The reading frame -/

theorem canonicalOriginFromConfig_iff (laws : UrlLaws parseUrl) {value origin : JsString}
    (hown : canonicalOrigin parseUrl value = some value) :
    canonicalOriginFromConfig parseUrl value = .ok origin ↔ origin = value ∧ (bufferFrom value).length ≤ 2048 := by
  obtain ⟨-, -, -, -, haccepted⟩ := canonicalOrigin_some laws hown
  constructor
  · intro h
    obtain ⟨parsed, hparsed, hcanonical⟩ := bind_eq_some_iff.mp hown
    split_ifs at hcanonical with hsame
    unfold canonicalOriginFromConfig at h
    obtain ⟨-, h⟩ := guard_ok h
    rw [hparsed] at h
    obtain ⟨-, h⟩ := guard_ok h
    obtain ⟨⟨⟩, hshort, h⟩ := bind_ok h
    have horigin : origin = value := (Except.ok.inj h).symm.trans hsame.1
    rw [hsame.1] at hshort
    exact ⟨horigin, assertBoundedUtf8_iff.mp hshort⟩
  · rintro ⟨rfl, hshort⟩
    exact haccepted hshort

theorem configuredSiteId_iff {value siteId : JsString} :
    configuredSiteId value = .ok siteId ↔ siteId = value ∧ value ≠ [] ∧ (bufferFrom value).length ≤ 256 := by
  unfold configuredSiteId
  constructor
  · intro h
    obtain ⟨hne, h⟩ := guard_ok h
    obtain ⟨⟨⟩, hshort, h⟩ := bind_ok h
    exact ⟨(Except.ok.inj h).symm, hne, assertBoundedUtf8_iff.mp hshort⟩
  · rintro ⟨rfl, hne, hshort⟩
    rw [if_neg hne, assertBoundedUtf8_iff.mpr hshort]
    rfl

theorem encodeOfflineReadingKeyFrame_iff (laws : UrlLaws parseUrl) {context : OfflineReadingContext} {key bytes : Bytes}
    (hown : canonicalOrigin parseUrl context.canonicalOrigin = some context.canonicalOrigin) :
    encodeOfflineReadingKeyFrame parseUrl context key = .ok bytes ↔ context.keyVersion = OFFLINE_READING_KEY_VERSION
      ∧ Fits context.toDraftKeyContext ∧ context.siteId ≠ [] ∧ isKeyId context.keyId = true
      ∧ key.length = OFFLINE_KEY_BYTES
      ∧ bytes = OFFLINE_READING_KEY_MAGIC ++ ((written context.toDraftKeyContext OFFLINE_READING_KEY_VERSION).bytes
        ++ (lpBytes (bufferFrom context.keyId) ++ key)) := by
  have hkeyId (h : isKeyId context.keyId = true) : (bufferFrom context.keyId).length = 22 := by
    obtain ⟨hlength, -, hascii⟩ := isKeyId_units h
    rw [(ascii_exact hascii).2, hlength]
  unfold encodeOfflineReadingKeyFrame readingContextFields
  constructor
  · intro h
    obtain ⟨fields, hfields, h⟩ := bind_ok h
    obtain ⟨hversion, hfields⟩ := guard_ok hfields
    obtain ⟨origin, horigin, hfields⟩ := bind_ok hfields
    obtain ⟨site, hsite, hfields⟩ := bind_ok hfields
    obtain ⟨⟨⟩, hnumbers, hfields⟩ := bind_ok hfields
    obtain ⟨hidentity, hfields⟩ := guard_ok hfields
    obtain ⟨rfl, horiginShort⟩ := (canonicalOriginFromConfig_iff laws hown).mp horigin
    obtain ⟨rfl, hne, hsiteShort⟩ := configuredSiteId_iff.mp hsite
    obtain ⟨hpositive, hsafe, hauth⟩ := contextNumbers_iff.mp hnumbers
    obtain rfl := Except.ok.inj hfields
    have hfits : Fits context.toDraftKeyContext := ⟨horiginShort, hsiteShort, hpositive, hsafe, hauth⟩
    have hidentity : isKeyId context.keyId = true := by simpa using hidentity
    obtain ⟨hkey, h⟩ := guard_ok h
    obtain ⟨head, hhead, h⟩ := bind_ok h
    rw [headBytes_eq hfits short_version.2] at hhead
    obtain rfl := Except.ok.inj hhead
    rw [lpUtf8_eq (by rw [hkeyId hidentity]; omega)] at h
    obtain ⟨-, h⟩ := guard_ok h
    exact ⟨not_not.mp hversion, hfits, hne, hidentity, not_not.mp hkey, (Except.ok.inj h).symm⟩
  · rintro ⟨hversion, hfits, hne, hidentity, hkey, rfl⟩
    have hsize := RawHead.length_bytes (hfits.small short_version.2)
    rw [if_neg (not_not.mpr hversion), (canonicalOriginFromConfig_iff laws hown).mpr ⟨rfl, hfits.origin⟩,
      configuredSiteId_iff.mpr ⟨rfl, hne, hfits.site⟩,
      contextNumbers_iff.mpr ⟨hfits.account, hfits.accountId, hfits.authVersion⟩]
    change (if (!isKeyId context.keyId) = true then _ else _) >>= _ = _
    rw [if_neg (by simp [hidentity])]
    change (if _ then _ else _) = _
    rw [if_neg (not_not.mpr hkey)]
    change (headBytes context.toDraftKeyContext OFFLINE_READING_KEY_VERSION) >>= _ = _
    rw [headBytes_eq hfits short_version.2, lpUtf8_eq (by rw [hkeyId hidentity]; omega)]
    refine if_neg (not_lt.mpr ?_)
    simp only [OFFLINE_READING_KEY_MAGIC, OFFLINE_READING_KEY_FRAME_MAX_BYTES, lpBytes, uint32, length_append,
      length_cons, length_nil, hkeyId hidentity, hkey, OFFLINE_KEY_BYTES]
    omega

/-- What a frame of a reading key is accepted with. -/
structure ReadingRead (parseUrl : JsString → Option ParsedUrl) (expected : OfflineReadingKeyFrameExpectation)
    (parsed : ParsedOfflineReadingKeyFrame) : Prop where
  expectation : validateReadingExpectation parseUrl expected = some parsed.context.canonicalOrigin
  key : parsed.keyBytes.length = OFFLINE_KEY_BYTES
  own : canonicalOrigin parseUrl parsed.context.canonicalOrigin = some parsed.context.canonicalOrigin
  short : parsed.context.canonicalOrigin.length ≤ 2048
  site : siteAccepted parsed.context.siteId = true
  expectedSite : (expected.expectedSiteId.all (· = parsed.context.siteId)) = true
  account : parsed.context.accountId = expected.expectedAccountId
  accountId : isSafePositiveInteger parsed.context.accountId = true
  authVersion : isSafeNonnegativeInteger parsed.context.authVersion = true
  expectedAuth : (expected.expectedAuthVersion.all (· = parsed.context.authVersion)) = true
  version : parsed.context.keyVersion = OFFLINE_READING_KEY_VERSION
  keyId : isKeyId parsed.context.keyId = true

theorem parseOfflineReadingKeyFrame_iff (laws : UrlLaws parseUrl) {bytes : Bytes}
    {expected : OfflineReadingKeyFrameExpectation} {parsed : ParsedOfflineReadingKeyFrame} :
    parseOfflineReadingKeyFrame parseUrl bytes expected = some parsed ↔ ReadingRead parseUrl expected parsed
      ∧ ∃ (raw : RawHead) (keyId : Bytes), raw.Reads parsed.context.toDraftKeyContext
        ∧ raw.version.length ≤ OFFLINE_READING_KEY_VERSION.length
        ∧ keyId.length ≤ MAX_KEY_ID_BYTES ∧ decodeText keyId = some parsed.context.keyId
        ∧ bytes = OFFLINE_READING_KEY_MAGIC ++ (raw.bytes ++ (lpBytes keyId ++ parsed.keyBytes)) := by
  have hversionBytes : OFFLINE_READING_KEY_VERSION.length ≤ 0xff := by decide +kernel
  unfold parseOfflineReadingKeyFrame
  constructor
  · intro h
    obtain ⟨expectedOrigin, hexpected, h₁⟩ := bind_eq_some_iff.mp h
    obtain ⟨rest, hmagic, h₂⟩ := bind_eq_some_iff.mp h₁
    obtain ⟨⟨head, behind⟩, hhead, h₃⟩ := bind_eq_some_iff.mp h₂
    obtain ⟨⟨keyId, key⟩, hkeyId, h₄⟩ := bind_eq_some_iff.mp h₃
    obtain ⟨origin, horigin, h₅⟩ := bind_eq_some_iff.mp h₄
    split_ifs at h₅ with haccepted
    obtain ⟨hkey, rfl, hsite, hexpectedSite, haccount, hpositive, hauth, hexpectedAuth, hversion,
      hidentity⟩ := haccepted
    obtain ⟨context, hcontext, rfl⟩ := map_eq_some_iff.mp h₅
    obtain ⟨rfl, -, -, -⟩ := canonicalOrigin_some laws horigin
    unfold parseOfflineReadingContext at hcontext
    split_ifs at hcontext with hschema
    rw [boundedIdentifier_accepted hsite] at hcontext
    obtain rfl := Option.some.inj hcontext
    obtain ⟨raw, hraw, hshort, hrest⟩ := (readHead_iff hversionBytes).mp hhead
    obtain ⟨field, hfield, hbehind, htext⟩ := (readLpUtf8_iff (by decide)).mp hkeyId
    refine ⟨⟨hexpected, hkey, horigin, hschema.2.1, hsite, hexpectedSite, haccount, hpositive, hauth, hexpectedAuth,
      hversion, hidentity⟩, raw, field, hraw, hshort, hfield, htext, ?_⟩
    rw [(afterMagic_iff.mp hmagic).1, hrest, hbehind]
  · rintro ⟨h, raw, keyId, hraw, hshort, hfield, htext, rfl⟩
    obtain ⟨-, hne, -, -, -⟩ := canonicalOrigin_some laws h.own
    have hsize := raw.length_bytes hraw.small
    have hkey := h.key
    obtain ⟨hlength, hunits, -⟩ := isKeyId_units h.keyId
    have hmagic : afterMagic OFFLINE_READING_KEY_MAGIC
        (OFFLINE_READING_KEY_MAGIC ++ (raw.bytes ++ (lpBytes keyId ++ parsed.keyBytes)))
        = some (raw.bytes ++ (lpBytes keyId ++ parsed.keyBytes)) := by
      refine afterMagic_iff.mpr ⟨rfl, ?_⟩
      unfold MAX_KEY_ID_BYTES at hfield
      simp only [OFFLINE_READING_KEY_MAGIC, MAX_FRAME_BYTES, lpBytes, uint32, length_append, length_cons,
        length_nil, hkey, OFFLINE_KEY_BYTES]
      omega
    have hcontext : parseOfflineReadingContext parseUrl parsed.context = some parsed.context := by
      unfold parseOfflineReadingContext
      rw [if_pos ⟨length_pos_of_ne_nil hne, h.short, by rw [h.own]; rfl, h.accountId, h.authVersion, h.version,
        hunits, hlength⟩, boundedIdentifier_accepted h.site]
      rfl
    rw [h.expectation, bind_some, hmagic, bind_some,
      (readHead_iff hversionBytes).mpr ⟨raw, hraw, hshort, rfl⟩, bind_some]
    dsimp only
    rw [(readLpUtf8_iff (by decide)).mpr ⟨keyId, hfield, rfl, htext⟩, bind_some]
    dsimp only
    rw [h.own, bind_some, if_pos ⟨hkey, rfl, h.site, h.expectedSite, h.account, h.accountId, h.authVersion,
      h.expectedAuth, h.version, h.keyId⟩]
    change Option.map _ (parseOfflineReadingContext parseUrl parsed.context) = _
    rw [hcontext]
    rfl

end TsEpistle.Offline.KeyFrames
