import TsEpistle.Offline.KeyReaders

/-! Which key belongs to which context: what the client makes of the server's frames, and which contexts and drafts
have encodings of their own. -/

namespace TsEpistle.Offline.KeyFrames
open Library Library.Checked LinePatch List
open Agents.Skills (Bytes bufferFrom uint32 Exact exact_iff ascii_exact bufferFrom_scalars)
open Pages (trim)

/-- Without lone surrogates. -/
def WellFormed (text : JsString) : Prop := ∃ codes, Scalars text codes

theorem bufferFrom_inj {text text' : JsString} (h : WellFormed text) (h' : WellFormed text')
    (heq : bufferFrom text = bufferFrom text') : text = text' := by
  obtain ⟨codes, hcodes⟩ := h
  obtain ⟨codes', hcodes'⟩ := h'
  rw [bufferFrom_scalars hcodes, bufferFrom_scalars hcodes'] at heq
  exact utf8_inj hcodes hcodes' heq

theorem length_utf8Bytes (code : Nat) : 1 ≤ (utf8Bytes code).length ∧ (code < 0x10000 → (utf8Bytes code).length ≤ 3)
    ∧ (0x10000 ≤ code → (utf8Bytes code).length = 4) := by
  unfold utf8Bytes
  split_ifs with h₁ h₂ h₃
  · exact ⟨by simp, fun _ => by simp, fun h => by omega⟩
  · exact ⟨by simp, fun _ => by simp, fun h => by omega⟩
  · exact ⟨by simp, fun _ => by simp, fun h => by omega⟩
  · exact ⟨by simp, fun h => by omega, fun _ => rfl⟩

/-- One byte to three for a unit. -/
theorem length_bufferFrom {text : JsString} (h : WellFormed text) :
    text.length ≤ (bufferFrom text).length ∧ (bufferFrom text).length ≤ 3 * text.length := by
  obtain ⟨codes, hcodes⟩ := h
  rw [bufferFrom_scalars hcodes, hcodes.utf8]
  induction hcodes with
  | nil => exact ⟨le_rfl, le_rfl⟩
  | @unit unit rest codes hhigh hlow h ih =>
    obtain ⟨hone, hthree, -⟩ := length_utf8Bytes unit.toNat
    have := hthree unit.toNat_lt
    rw [flatMap_cons, length_append, length_cons]
    omega
  | @pair high low rest codes hhigh hlow h ih =>
    obtain ⟨-, -, hfour⟩ := length_utf8Bytes (0x10000 + (high.toNat - 0xd800) * 0x400 + (low.toNat - 0xdc00))
    have := hfour (by omega)
    rw [flatMap_cons, length_append, length_cons, length_cons]
    omega

variable {context : DraftKeyContext}

theorem Fits.safe (h : Fits context) :
    isSafePositiveInteger context.accountId = true ∧ isSafeNonnegativeInteger context.authVersion = true := by
  simp only [isSafePositiveInteger, isSafeNonnegativeInteger, Bool.and_eq_true, decide_eq_true_eq]
  exact ⟨⟨h.account, h.accountId⟩, h.authVersion⟩

/-! ## Contexts of the server -/

variable {parseUrl : JsString → Option ParsedUrl}

/-- What a context of the server is like. -/
structure Resolved (parseUrl : JsString → Option ParsedUrl) (context : DraftKeyContext) : Prop where
  fits : Fits context
  own : canonicalOrigin parseUrl context.canonicalOrigin = some context.canonicalOrigin
  site : context.siteId ≠ []

theorem resolveContext_ok (laws : UrlLaws parseUrl) {session : UserSession} {account : Option Account} {config : Config}
    {keyVersion : JsString} (h : resolveContext parseUrl session account config keyVersion = .ok context) :
    Resolved parseUrl context ∧ context.keyVersion = keyVersion := by
  unfold resolveContext at h
  cases hclaim : session.authVersionClaim with
  | none =>
    rw [hclaim] at h
    cases h
  | some authVersionClaim =>
    rw [hclaim] at h
    obtain ⟨-, h⟩ := guard_ok h
    obtain ⟨accountId, -, h⟩ := bind_ok h
    obtain ⟨currentAccountId, hcurrent, h⟩ := bind_ok h
    have hid : 1 ≤ currentAccountId ∧ currentAccountId ≤ MAX_SAFE_INTEGER := by
      cases account with
      | none => cases hcurrent
      | some account =>
        obtain ⟨-, hcurrent⟩ := guard_ok hcurrent
        obtain ⟨hsafe, hpositive, rfl⟩ := assertUnsignedInteger_iff.mp hcurrent
        exact ⟨hpositive, hsafe⟩
    cases hversion : account.bind fun account => sessionVersion account.authVersion with
    | none =>
      rw [hversion] at h
      cases h
    | some currentAuthVersion =>
      rw [hversion] at h
      obtain ⟨origin, horigin, h⟩ := bind_ok h
      obtain ⟨siteId, hsite, h⟩ := bind_ok h
      obtain ⟨hown, hshort⟩ := canonicalOriginFromConfig_ok laws horigin
      obtain ⟨rfl, hne, hsiteShort⟩ := configuredSiteId_iff.mp hsite
      obtain rfl := Except.ok.inj h
      have hauth : currentAuthVersion ≤ MAX_SAFE_INTEGER := by
        obtain ⟨found, -, hfound⟩ := Option.bind_eq_some_iff.mp hversion
        have hlimit : 2147483647 ≤ MAX_SAFE_INTEGER := by decide
        unfold sessionVersion at hfound
        split at hfound
        · obtain rfl := Option.some.inj hfound
          exact Nat.zero_le _
        · split_ifs at hfound with hsmall
          obtain rfl := Option.some.inj hfound
          exact hsmall.trans hlimit
      exact ⟨⟨⟨hshort, hsiteShort, hid.1, hid.2, hauth⟩, hown, hne⟩, rfl⟩

theorem version_texts : decodeText (bufferFrom OFFLINE_KEY_VERSION) = some OFFLINE_KEY_VERSION
    ∧ decodeText (bufferFrom OFFLINE_READING_KEY_VERSION) = some OFFLINE_READING_KEY_VERSION
    ∧ (bufferFrom OFFLINE_KEY_VERSION).length = OFFLINE_KEY_VERSION.length
    ∧ (bufferFrom OFFLINE_READING_KEY_VERSION).length = OFFLINE_READING_KEY_VERSION.length := by
  decide +kernel

/-- The server's head is read as its context just where the text of the site survives. -/
theorem written_reads (laws : UrlLaws parseUrl) (h : Resolved parseUrl context)
    (hversion : decodeText (bufferFrom context.keyVersion) = some context.keyVersion)
    (hshort : (bufferFrom context.keyVersion).length ≤ 0xff) :
    (written context context.keyVersion).Reads context ↔ Exact context.siteId := by
  obtain ⟨-, -, hvisible, -, -⟩ := canonicalOrigin_some laws h.own
  constructor
  · intro hreads
    exact exact_iff.mp hreads.site
  · intro hexact
    exact ⟨h.fits.small hshort, exact_iff.mpr (Visible.exact hvisible).1, exact_iff.mpr hexact, rfl, rfl, hversion⟩

theorem site_accepted_iff (h : Resolved parseUrl context) (hexact : Exact context.siteId) :
    siteAccepted context.siteId = true ↔ trim context.siteId = context.siteId := by
  rw [siteAccepted_iff]
  have hlow := length_pos_of_ne_nil h.site
  have hhigh := (length_bufferFrom hexact.1).1.trans h.fits.site
  exact ⟨fun haccepted => haccepted.2.2, fun htrim => ⟨hlow, hhigh, htrim⟩⟩

theorem draft_frame_read (laws : UrlLaws parseUrl) (h : Resolved parseUrl context)
    (hversion : context.keyVersion = OFFLINE_KEY_VERSION) {key : Bytes}
    (hkey : key.length = OFFLINE_KEY_BYTES) {generation : Nat}
    (hgeneration : generation ≤ MAX_SAFE_INTEGER) :
    ∃ frame, encodeOfflineDraftKeyFrame context key = .ok frame
      ∧ (parseDraftKeyFrame parseUrl frame ⟨context.canonicalOrigin, context.accountId, generation⟩
          = some ⟨context, generation, key⟩ ↔ trim context.siteId = context.siteId ∧ WellFormed context.siteId) := by
  obtain ⟨-, hne, hvisible, -, -⟩ := canonicalOrigin_some laws h.own
  have hreads := written_reads laws h (hversion ▸ version_texts.1) (hversion ▸ short_version.1)
  rw [hversion] at hreads
  have horigin := h.fits.origin
  rw [(Visible.exact hvisible).2] at horigin
  refine ⟨_, encodeOfflineDraftKeyFrame_iff.mpr ⟨hversion, h.fits, hkey, rfl⟩, ?_⟩
  rw [parseDraftKeyFrame_iff laws]
  constructor
  · rintro ⟨hread, raw, hraw, -, hbytes⟩
    obtain ⟨rfl, -⟩ := RawHead.bytes_inj (h.fits.small short_version.1) hraw.small (append_cancel_left hbytes)
    exact ⟨(siteAccepted_iff.mp hread.site).2.2, (hreads.mp hraw).1⟩
  · rintro ⟨htrim, hformed⟩
    have hexact := exact_of_trim htrim hformed
    refine ⟨?_, _, hreads.mpr hexact, version_texts.2.2.1.le, rfl⟩
    exact
      { expectation := by
          simp only [assertExpected, isSafePositiveInteger, isSafeNonnegativeInteger, Bool.and_eq_true,
            decide_eq_true_eq]
          exact ⟨⟨⟨length_pos_of_ne_nil hne, horigin⟩, h.fits.account, h.fits.accountId⟩, hgeneration⟩
        generation := rfl
        key := hkey
        own := h.own
        origin := h.own
        short := horigin
        site := (site_accepted_iff h hexact).mpr htrim
        account := rfl
        accountId := h.fits.safe.1
        authVersion := h.fits.safe.2
        version := hversion }

theorem reading_frame_read (laws : UrlLaws parseUrl) {context : OfflineReadingContext}
    (h : Resolved parseUrl context.toDraftKeyContext) (hversion : context.keyVersion = OFFLINE_READING_KEY_VERSION)
    (hkeyId : isKeyId context.keyId = true) {key : Bytes} (hkey : key.length = OFFLINE_KEY_BYTES)
    {expected : OfflineReadingKeyFrameExpectation} (horigin : expected.canonicalOrigin = context.canonicalOrigin)
    (haccount : expected.expectedAccountId = context.accountId)
    (hgeneration : expected.expectedSessionGeneration ≤ MAX_SAFE_INTEGER)
    (hauth : ∀ version ∈ expected.expectedAuthVersion, version = context.authVersion)
    (hsite : ∀ siteId ∈ expected.expectedSiteId, siteId = context.siteId) :
    ∃ frame, encodeOfflineReadingKeyFrame parseUrl context key = .ok frame
      ∧ (parseOfflineReadingKeyFrame parseUrl frame expected = some ⟨context, key⟩
          ↔ trim context.siteId = context.siteId ∧ WellFormed context.siteId) := by
  obtain ⟨-, hne, hvisible, -, -⟩ := canonicalOrigin_some laws h.own
  have hreads := written_reads laws h (hversion ▸ version_texts.2.1) (hversion ▸ short_version.2)
  rw [hversion] at hreads
  have hshort := h.fits.origin
  rw [(Visible.exact hvisible).2] at hshort
  obtain ⟨hlength, -, hascii⟩ := isKeyId_units hkeyId
  obtain ⟨hexactId, hbytesId⟩ := ascii_exact hascii
  refine ⟨_, (encodeOfflineReadingKeyFrame_iff laws h.own).mpr ⟨hversion, h.fits, h.site, hkeyId, hkey, rfl⟩, ?_⟩
  rw [parseOfflineReadingKeyFrame_iff laws]
  constructor
  · rintro ⟨hread, raw, keyId, hraw, -, -, -, hbytes⟩
    obtain ⟨rfl, -⟩ := RawHead.bytes_inj (h.fits.small short_version.2) hraw.small (append_cancel_left hbytes)
    exact ⟨(siteAccepted_iff.mp hread.site).2.2, (hreads.mp hraw).1⟩
  · rintro ⟨htrim, hformed⟩
    have hexact := exact_of_trim htrim hformed
    have haccepted := (site_accepted_iff h hexact).mpr htrim
    refine ⟨?_, _, bufferFrom context.keyId, hreads.mpr hexact, version_texts.2.2.2.le, ?_, exact_iff.mpr hexactId, rfl⟩
    · exact
        { expectation := by
            have hauths : expected.expectedAuthVersion.all isSafeNonnegativeInteger = true := by
              cases hversion : expected.expectedAuthVersion with
              | none => rfl
              | some version =>
                rw [Option.all_some, hauth version hversion]
                exact h.fits.safe.2
            have hsites : expected.expectedSiteId.all siteAccepted = true := by
              cases hsiteId : expected.expectedSiteId with
              | none => rfl
              | some siteId =>
                rw [Option.all_some, hsite siteId hsiteId]
                exact haccepted
            unfold validateReadingExpectation
            rw [haccount, horigin, if_pos ⟨h.fits.safe.1, decide_eq_true hgeneration, hauths, hsites⟩]
            exact h.own
          key := hkey
          own := h.own
          short := hshort
          site := haccepted
          expectedSite := by
            cases hsiteId : expected.expectedSiteId with
            | none => rfl
            | some siteId => exact decide_eq_true (hsite siteId hsiteId)
          account := haccount.symm
          accountId := h.fits.safe.1
          authVersion := h.fits.safe.2
          expectedAuth := by
            cases hversion : expected.expectedAuthVersion with
            | none => rfl
            | some version => exact decide_eq_true (hauth version hversion)
          version := hversion
          keyId := hkeyId }
    · rw [hbytesId, hlength]
      decide

/-! ## Frames that are accepted -/

/-- A field that is no longer than its text of ASCII is that text. -/
theorem field_of_short {field : Bytes} {value : JsString} (h : decodeText field = some value)
    (hascii : (bufferFrom value).length = value.length) (hshort : field.length ≤ value.length) :
    bufferFrom value = field := by
  obtain ⟨⟨codes, hcodes⟩, ⟨-, hbytes⟩ | ⟨hmark, -⟩⟩ := decodeText_some h
  · rw [bufferFrom_scalars hcodes] at hascii
    have hlength := congrArg List.length hbytes
    rw [length_append] at hlength
    have hthree : mark.length = 3 := rfl
    omega
  · exact (written_iff h).mpr hmark

/-- What is read of a head is what the server writes just where no mark was dropped. -/
theorem written_raw_iff {raw : RawHead} {head : DraftKeyContext} (h : raw.Reads head)
    (hversion : bufferFrom head.keyVersion = raw.version) :
    written head head.keyVersion = raw ↔ ¬ mark <+: raw.origin ∧ ¬ mark <+: raw.site := by
  rw [← written_iff h.origin, ← written_iff h.site]
  constructor
  · rintro rfl
    exact ⟨rfl, rfl⟩
  · rintro ⟨horigin, hsite⟩
    cases raw
    unfold written
    rw [horigin, hsite, hversion, ← h.accountId, ← h.authVersion]

theorem fits_of_read (laws : UrlLaws parseUrl)
    (hown : canonicalOrigin parseUrl context.canonicalOrigin = some context.canonicalOrigin)
    (hshort : context.canonicalOrigin.length ≤ 2048) (haccount : isSafePositiveInteger context.accountId = true)
    (hauth : isSafeNonnegativeInteger context.authVersion = true) : Fits context ↔
    (bufferFrom context.siteId).length ≤ 256 := by
  obtain ⟨-, -, hvisible, -, -⟩ := canonicalOrigin_some laws hown
  simp only [isSafePositiveInteger, isSafeNonnegativeInteger, Bool.and_eq_true, decide_eq_true_eq] at haccount hauth
  refine ⟨fun h => h.site, fun hsite => ⟨?_, hsite, haccount.1, haccount.2, hauth⟩⟩
  rw [(Visible.exact hvisible).2]
  exact hshort

theorem draft_frame_canonical (laws : UrlLaws parseUrl) {bytes : Bytes} {expected : DraftKeyFrameExpectation}
    {parsed : ParsedDraftKeyFrame} (h : parseDraftKeyFrame parseUrl bytes expected = some parsed) :
    ∃ raw : RawHead, raw.Reads parsed.context
      ∧ bytes = OFFLINE_DRAFT_KEY_MAGIC ++ (raw.bytes ++ parsed.keyBytes)
      ∧ (encodeOfflineDraftKeyFrame parsed.context parsed.keyBytes = .ok bytes
          ↔ ¬ mark <+: raw.origin ∧ ¬ mark <+: raw.site ∧ raw.site.length ≤ 256) := by
  obtain ⟨hread, raw, hraw, hshort, hbytes⟩ := (parseDraftKeyFrame_iff laws).mp h
  have hversion : bufferFrom parsed.context.keyVersion = raw.version := by
    refine field_of_short hraw.version ?_ ?_
    · rw [hread.version]
      exact version_texts.2.2.1
    · rw [hread.version]
      exact hshort
  have hwritten := written_raw_iff hraw hversion
  rw [hread.version] at hwritten
  refine ⟨raw, hraw, hbytes, ?_⟩
  rw [encodeOfflineDraftKeyFrame_iff, fits_of_read laws hread.own hread.short hread.accountId hread.authVersion]
  constructor
  · rintro ⟨-, hsite, -, hsame⟩
    have hfits := (fits_of_read laws hread.own hread.short hread.accountId hread.authVersion).mpr hsite
    rw [hbytes] at hsame
    obtain ⟨heq, -⟩ := RawHead.bytes_inj hraw.small (hfits.small short_version.1) (append_cancel_left hsame)
    obtain ⟨horigin, hmark⟩ := hwritten.mp heq.symm
    refine ⟨horigin, hmark, ?_⟩
    rw [heq]
    exact hsite
  · rintro ⟨horigin, hmark, hsite⟩
    have heq := hwritten.mpr ⟨horigin, hmark⟩
    refine ⟨hread.version, ?_, hread.key, by rw [heq, hbytes]⟩
    rw [(written_iff hraw.site).mpr hmark]
    exact hsite

theorem reading_frame_canonical (laws : UrlLaws parseUrl) {bytes : Bytes} {expected : OfflineReadingKeyFrameExpectation}
    {parsed : ParsedOfflineReadingKeyFrame} (h : parseOfflineReadingKeyFrame parseUrl bytes expected = some parsed) :
    ∃ (raw : RawHead) (keyId : Bytes), raw.Reads parsed.context.toDraftKeyContext
      ∧ decodeText keyId = some parsed.context.keyId
      ∧ bytes = OFFLINE_READING_KEY_MAGIC ++ (raw.bytes ++ (lpBytes keyId ++ parsed.keyBytes))
      ∧ (encodeOfflineReadingKeyFrame parseUrl parsed.context parsed.keyBytes = .ok bytes
          ↔ ¬ mark <+: raw.origin ∧ ¬ mark <+: raw.site ∧ ¬ mark <+: keyId ∧ raw.site.length ≤ 256) := by
  obtain ⟨hread, raw, keyId, hraw, hshort, hfield, htext, hbytes⟩ := (parseOfflineReadingKeyFrame_iff laws).mp h
  have hversion : bufferFrom parsed.context.keyVersion = raw.version := by
    refine field_of_short hraw.version ?_ ?_
    · rw [hread.version]
      exact version_texts.2.2.2
    · rw [hread.version]
      exact hshort
  have hwritten := written_raw_iff hraw hversion
  rw [hread.version] at hwritten
  obtain ⟨hlength, -, hascii⟩ := isKeyId_units hread.keyId
  have hsmallId : keyId.length < 0x100000000 := lt_of_le_of_lt hfield (by decide)
  have hsmallText : (bufferFrom parsed.context.keyId).length < 0x100000000 := by
    rw [(ascii_exact hascii).2, hlength]
    decide
  refine ⟨raw, keyId, hraw, htext, hbytes, ?_⟩
  rw [encodeOfflineReadingKeyFrame_iff laws hread.own,
    fits_of_read laws hread.own hread.short hread.accountId hread.authVersion]
  constructor
  · rintro ⟨-, hsite, -, -, -, hsame⟩
    have hfits := (fits_of_read laws hread.own hread.short hread.accountId hread.authVersion).mpr hsite
    rw [hbytes] at hsame
    obtain ⟨heq, hrest⟩ := RawHead.bytes_inj hraw.small (hfits.small short_version.2) (append_cancel_left hsame)
    obtain ⟨horigin, hmark⟩ := hwritten.mp heq.symm
    obtain ⟨hsameId, -⟩ := lpBytes_inj hsmallId hsmallText hrest
    refine ⟨horigin, hmark, (written_iff htext).mp hsameId.symm, ?_⟩
    rw [heq]
    exact hsite
  · rintro ⟨horigin, hmark, hmarkId, hsite⟩
    have heq := hwritten.mpr ⟨horigin, hmark⟩
    have hne : parsed.context.siteId ≠ [] := by
      obtain ⟨hlow, -, -⟩ := siteAccepted_iff.mp hread.site
      exact ne_nil_of_length_pos hlow
    refine ⟨hread.version, ?_, hne, hread.keyId, hread.key, by rw [heq, (written_iff htext).mpr hmarkId, hbytes]⟩
    rw [(written_iff hraw.site).mpr hmark]
    exact hsite

/-! ## Encodings of their own -/

theorem encodeOfflineDraftKeyInfo_inj {context context' : DraftKeyContext} {bytes bytes' : Bytes}
    (h : encodeOfflineDraftKeyInfo context = .ok bytes) (h' : encodeOfflineDraftKeyInfo context' = .ok bytes')
    (horigin : WellFormed context.canonicalOrigin) (hsite : WellFormed context.siteId)
    (horigin' : WellFormed context'.canonicalOrigin) (hsite' : WellFormed context'.siteId) :
    bytes = bytes' ↔ context = context' := by
  obtain ⟨hversion, hfits, rfl⟩ := encodeOfflineDraftKeyInfo_iff.mp h
  obtain ⟨hversion', hfits', rfl⟩ := encodeOfflineDraftKeyInfo_iff.mp h'
  constructor
  · intro heq
    have heq := congrArg (· ++ ([] : Bytes)) (append_cancel_left heq)
    obtain ⟨hraw, -⟩ := RawHead.bytes_inj (hfits.small short_version.1) (hfits'.small short_version.1) heq
    have hsame := RawHead.mk.inj hraw
    obtain ⟨ho, hs, hi, ha, -⟩ := hsame
    cases context
    cases context'
    simp only [DraftKeyContext.mk.injEq]
    exact ⟨bufferFrom_inj horigin horigin' ho, bufferFrom_inj hsite hsite' hs, hi, ha, hversion.trans hversion'.symm⟩
  · rintro rfl
    rfl

/-- Short and well formed. -/
theorem short_identifier {value : JsString} (h : siteAccepted value = true) (hformed : WellFormed value) :
    (bufferFrom value).length < 0x100000000 := by
  obtain ⟨-, hhigh, -⟩ := siteAccepted_iff.mp h
  have := (length_bufferFrom hformed).2
  omega

def submissionBytes : Option JsString → Bytes
  | none => [0]
  | some submissionId => 1 :: lpBytes (bufferFrom submissionId)

theorem submissionBytes_inj {submission submission' : Option JsString} {rest rest' : Bytes}
    (h : submission.all siteAccepted = true) (h' : submission'.all siteAccepted = true)
    (hformed : ∀ value ∈ submission, WellFormed value) (hformed' : ∀ value ∈ submission', WellFormed value)
    (heq : submissionBytes submission ++ rest = submissionBytes submission' ++ rest') :
    submission = submission' ∧ rest = rest' := by
  cases submission with
  | none =>
    cases submission' with
    | none => exact ⟨rfl, append_cancel_left heq⟩
    | some value' => exact absurd (List.cons.inj heq).1 (by decide)
  | some value =>
    cases submission' with
    | none => exact absurd (List.cons.inj heq).1 (by decide)
    | some value' =>
      obtain ⟨hbytes, hrest⟩ := lpBytes_inj (short_identifier h (hformed value rfl))
        (short_identifier h' (hformed' value' rfl)) (List.cons.inj heq).2
      exact ⟨congrArg some (bufferFrom_inj (hformed value rfl) (hformed' value' rfl) hbytes), hrest⟩

theorem encodeOfflineDraftAad_some {input : OfflineDraftAadInput} {generation : Nat} {bytes : Bytes}
    (h : encodeOfflineDraftAad context input generation = some bytes) :
    assertAadInput input = true ∧ context.accountId ≤ MAX_SAFE_INTEGER ∧ context.authVersion ≤ MAX_SAFE_INTEGER
      ∧ generation ≤ MAX_SAFE_INTEGER
      ∧ bytes = uint32 OFFLINE_SCHEMA_VERSION ++ (lpBytes (bufferFrom input.recordId) ++ (u64 context.accountId
        ++ (u64 context.authVersion ++ (lpBytes (bufferFrom OFFLINE_KEY_VERSION) ++ (u64 generation
          ++ (u64 input.draftRevision ++ (submissionBytes input.submissionId ++ lpBytes input.nonce))))))) := by
  unfold encodeOfflineDraftAad at h
  split_ifs at h with haccepted
  obtain ⟨hinput, -, haccount, hauth, hgeneration⟩ := haccepted
  obtain ⟨-, haccount⟩ := Bool.and_eq_true_iff.mp haccount
  refine ⟨hinput, of_decide_eq_true haccount, of_decide_eq_true hauth, of_decide_eq_true hgeneration, ?_⟩
  rw [← Option.some.inj h]
  cases input.submissionId with
  | none | some => rfl

theorem encodeOfflineDraftAad_inj {context context' : DraftKeyContext} {input input' : OfflineDraftAadInput}
    {generation generation' : Nat} {bytes bytes' : Bytes}
    (h : encodeOfflineDraftAad context input generation = some bytes)
    (h' : encodeOfflineDraftAad context' input' generation' = some bytes') (hrecord : WellFormed input.recordId)
    (hrecord' : WellFormed input'.recordId) (hformed : ∀ value ∈ input.submissionId, WellFormed value)
    (hformed' : ∀ value ∈ input'.submissionId, WellFormed value) :
    bytes = bytes' ↔ context.accountId = context'.accountId ∧ context.authVersion = context'.authVersion
      ∧ generation = generation' ∧ input = input' := by
  obtain ⟨hinput, haccount, hauth, hgeneration, rfl⟩ := encodeOfflineDraftAad_some h
  obtain ⟨hinput', haccount', hauth', hgeneration', rfl⟩ := encodeOfflineDraftAad_some h'
  simp only [assertAadInput, isSafePositiveInteger, Bool.and_eq_true, decide_eq_true_eq] at hinput hinput'
  obtain ⟨⟨⟨hid, -, hrevision⟩, hsubmission⟩, hnonce⟩ := hinput
  obtain ⟨⟨⟨hid', -, hrevision'⟩, hsubmission'⟩, hnonce'⟩ := hinput'
  constructor
  · intro heq
    have heq := append_cancel_left heq
    obtain ⟨hrecords, heq⟩ := lpBytes_inj (short_identifier hid hrecord) (short_identifier hid' hrecord') heq
    obtain ⟨haccounts, heq⟩ := u64_inj haccount haccount' heq
    obtain ⟨hauths, heq⟩ := u64_inj hauth hauth' heq
    have heq := append_cancel_left heq
    obtain ⟨hgenerations, heq⟩ := u64_inj hgeneration hgeneration' heq
    obtain ⟨hrevisions, heq⟩ := u64_inj hrevision hrevision' heq
    obtain ⟨hsubmissions, heq⟩ := submissionBytes_inj hsubmission hsubmission' hformed hformed' heq
    have hnonces : input.nonce = input'.nonce := by
      have hlimit : OFFLINE_DRAFT_NONCE_BYTES < 0x100000000 := by decide
      have heq := congrArg (· ++ ([] : Bytes)) heq
      exact (lpBytes_inj (hnonce.symm ▸ hlimit) (hnonce'.symm ▸ hlimit) heq).1
    refine ⟨haccounts, hauths, hgenerations, ?_⟩
    cases input
    cases input'
    simp only [OfflineDraftAadInput.mk.injEq]
    exact ⟨bufferFrom_inj hrecord hrecord' hrecords, hrevisions, hsubmissions, hnonces⟩
  · rintro ⟨haccounts, hauths, rfl, rfl⟩
    rw [haccounts, hauths]

/-! ## Keys and their contexts -/

theorem offline_keys_bound {parseUrl : JsString → Option ParsedUrl} (laws : UrlLaws parseUrl) :
    (∀ session account config context,
      resolveOfflineDraftKeyContext parseUrl session account config = .ok context →
      ∀ key : Bytes, key.length = OFFLINE_KEY_BYTES → ∀ generation ≤ MAX_SAFE_INTEGER,
        ∃ frame, encodeOfflineDraftKeyFrame context key = .ok frame
          ∧ (parseDraftKeyFrame parseUrl frame ⟨context.canonicalOrigin, context.accountId, generation⟩
              = some ⟨context, generation, key⟩ ↔ trim context.siteId = context.siteId ∧ WellFormed context.siteId))
    ∧ (∀ session account config keyIdBytes context, keyIdBytes.length = 16 →
      resolveOfflineReadingContext parseUrl session account config keyIdBytes = .ok context →
      ∀ key : Bytes, key.length = OFFLINE_KEY_BYTES → ∀ expected : OfflineReadingKeyFrameExpectation,
        expected.canonicalOrigin = context.canonicalOrigin → expected.expectedAccountId = context.accountId →
        expected.expectedSessionGeneration ≤ MAX_SAFE_INTEGER →
        (∀ version ∈ expected.expectedAuthVersion, version = context.authVersion) →
        (∀ siteId ∈ expected.expectedSiteId, siteId = context.siteId) →
        ∃ frame, encodeOfflineReadingKeyFrame parseUrl context key = .ok frame
          ∧ (parseOfflineReadingKeyFrame parseUrl frame expected = some ⟨context, key⟩
              ↔ trim context.siteId = context.siteId ∧ WellFormed context.siteId))
    ∧ (∀ bytes expected parsed, parseDraftKeyFrame parseUrl bytes expected = some parsed →
      ∃ raw : RawHead, raw.Reads parsed.context
        ∧ bytes = OFFLINE_DRAFT_KEY_MAGIC ++ (raw.bytes ++ parsed.keyBytes)
        ∧ (encodeOfflineDraftKeyFrame parsed.context parsed.keyBytes = .ok bytes
            ↔ ¬ mark <+: raw.origin ∧ ¬ mark <+: raw.site ∧ raw.site.length ≤ 256))
    ∧ (∀ bytes expected parsed, parseOfflineReadingKeyFrame parseUrl bytes expected = some parsed →
      ∃ (raw : RawHead) (keyId : Bytes), raw.Reads parsed.context.toDraftKeyContext
        ∧ decodeText keyId = some parsed.context.keyId
        ∧ bytes = OFFLINE_READING_KEY_MAGIC ++ (raw.bytes ++ (lpBytes keyId ++ parsed.keyBytes))
        ∧ (encodeOfflineReadingKeyFrame parseUrl parsed.context parsed.keyBytes = .ok bytes
            ↔ ¬ mark <+: raw.origin ∧ ¬ mark <+: raw.site ∧ ¬ mark <+: keyId ∧ raw.site.length ≤ 256))
    ∧ (∀ context context' bytes bytes', encodeOfflineDraftKeyInfo context = .ok bytes →
      encodeOfflineDraftKeyInfo context' = .ok bytes' →
      WellFormed context.canonicalOrigin → WellFormed context.siteId → WellFormed context'.canonicalOrigin →
      WellFormed context'.siteId → (bytes = bytes' ↔ context = context'))
    ∧ ∀ context context' input input' generation generation' bytes bytes',
      encodeOfflineDraftAad context input generation = some bytes →
      encodeOfflineDraftAad context' input' generation' = some bytes' →
      WellFormed input.recordId → WellFormed input'.recordId → (∀ value ∈ input.submissionId, WellFormed value) →
      (∀ value ∈ input'.submissionId, WellFormed value) →
      (bytes = bytes' ↔ context.accountId = context'.accountId ∧ context.authVersion = context'.authVersion
        ∧ generation = generation' ∧ input = input') := by
  refine ⟨?_, ?_, ?_, ?_, ?_, ?_⟩
  · intro session account config context hresolve key hkey generation hgeneration
    obtain ⟨hresolved, hversion⟩ := resolveContext_ok laws hresolve
    exact draft_frame_read laws hresolved hversion hkey hgeneration
  · intro session account config keyIdBytes context hbytes hresolve key hkey expected horigin haccount hgeneration hauth
      hsite
    obtain ⟨fields, hfields, hcontext⟩ := bind_ok hresolve
    obtain rfl := Except.ok.inj hcontext
    obtain ⟨hresolved, hversion⟩ := resolveContext_ok laws hfields
    exact reading_frame_read laws hresolved hversion (isKeyId_encode hbytes) hkey horigin haccount hgeneration hauth
      hsite
  · exact fun _ _ _ h => draft_frame_canonical laws h
  · exact fun _ _ _ h => reading_frame_canonical laws h
  · exact fun _ _ _ _ h h' => encodeOfflineDraftKeyInfo_inj h h'
  · exact fun _ _ _ _ _ _ _ _ h h' => encodeOfflineDraftAad_inj h h'

/-! ## A wiki of its own -/

def exampleOrigin : JsString := js "https://wiki.test"

def exampleUrl (value : JsString) : Option ParsedUrl :=
  if value = exampleOrigin then some ⟨exampleOrigin, js "https:", js "wiki.test", [], [], js "/", [], []⟩ else none

theorem exampleUrl_laws : UrlLaws exampleUrl := by
  have hvisible : exampleOrigin.all (fun unit => 33 ≤ unit.toNat && unit.toNat ≤ 126) = true := by decide +kernel
  have hfound {value : JsString} {parsed : ParsedUrl} (h : exampleUrl value = some parsed) :
      parsed.origin = exampleOrigin := by
    unfold exampleUrl at h
    split_ifs at h
    rw [← Option.some.inj h]
  constructor
  · intro value parsed h _
    rw [hfound h]
    refine ⟨by decide, fun unit hunit => ?_⟩
    simpa using all_eq_true.mp hvisible unit hunit
  · intro value parsed h _
    rw [hfound h]
    exact ⟨_, if_pos rfl, rfl, by decide +kernel, by decide +kernel⟩

def exampleSession : UserSession := ⟨7, some 7, some 3⟩

def exampleAccount : Option Account := some ⟨7, true, some 3⟩

def exampleKey : Bytes := List.replicate 32 9

theorem offline_keys_bound_example :
    ∃ frame, encodeOfflineDraftKeyFrame ⟨exampleOrigin, js "wiki", 7, 3, OFFLINE_KEY_VERSION⟩ exampleKey = .ok frame
      ∧ parseDraftKeyFrame exampleUrl frame ⟨exampleOrigin, 7, 0⟩
        = some ⟨⟨exampleOrigin, js "wiki", 7, 3, OFFLINE_KEY_VERSION⟩, 0, exampleKey⟩ := by
  have hcontext : resolveOfflineDraftKeyContext exampleUrl exampleSession exampleAccount
      ⟨exampleOrigin, some (js "wiki")⟩ = .ok ⟨exampleOrigin, js "wiki", 7, 3, OFFLINE_KEY_VERSION⟩ := by
    decide +kernel
  obtain ⟨frame, hframe, hread⟩ := (offline_keys_bound exampleUrl_laws).1 _ _ _ _ hcontext exampleKey (by decide) 0
    (Nat.zero_le _)
  exact ⟨frame, hframe, hread.mpr ⟨by decide +kernel, [119, 105, 107, 105], by
    exact .unit rfl rfl (.unit rfl rfl (.unit rfl rfl (.unit rfl rfl .nil)))⟩⟩

def frameOfSite (site : Bytes) : Bytes :=
  OFFLINE_DRAFT_KEY_MAGIC ++ ((RawHead.bytes ⟨bufferFrom exampleOrigin, site, 7, 3,
    bufferFrom OFFLINE_KEY_VERSION⟩) ++ exampleKey)

/-- White space at the end of the site's identity has the client turn the frame down; a byte order mark is passed over,
and so is a site of 258 bytes, which are 129 letters; a lone surrogate is written as the replacement character, in what a
draft is bound to as well; and this does not name the site. -/
theorem offline_keys_apart :
    (∃ context frame,
      resolveOfflineDraftKeyContext exampleUrl exampleSession exampleAccount ⟨exampleOrigin, some (js "wiki ")⟩
          = .ok context
        ∧ encodeOfflineDraftKeyFrame context exampleKey = .ok frame
        ∧ parseDraftKeyFrame exampleUrl frame ⟨context.canonicalOrigin, context.accountId, 0⟩ = none)
    ∧ (∀ site ∈ [mark ++ bufferFrom (js "wiki"), bufferFrom (List.replicate 129 0xe9)],
        ∃ parsed, parseDraftKeyFrame exampleUrl (frameOfSite site) ⟨exampleOrigin, 7, 0⟩ = some parsed
          ∧ encodeOfflineDraftKeyFrame parsed.context parsed.keyBytes ≠ .ok (frameOfSite site))
    ∧ (∃ bytes, ∀ recordId ∈ [[0xd800], [0xfffd]],
        encodeOfflineDraftAad ⟨exampleOrigin, js "wiki", 7, 3, OFFLINE_KEY_VERSION⟩
          ⟨recordId, 1, none, List.replicate 12 0⟩ 0 = some bytes)
    ∧ (∃ bytes, encodeOfflineDraftKeyInfo ⟨exampleOrigin, [0xd800], 7, 3, OFFLINE_KEY_VERSION⟩ = .ok bytes
        ∧ encodeOfflineDraftKeyInfo ⟨exampleOrigin, [0xfffd], 7, 3, OFFLINE_KEY_VERSION⟩ = .ok bytes)
    ∧ ∃ bytes, encodeOfflineDraftAad ⟨exampleOrigin, js "wiki", 7, 3, OFFLINE_KEY_VERSION⟩
          ⟨js "draft", 1, none, List.replicate 12 0⟩ 0 = some bytes
        ∧ encodeOfflineDraftAad ⟨exampleOrigin, js "other", 7, 3, OFFLINE_KEY_VERSION⟩
          ⟨js "draft", 1, none, List.replicate 12 0⟩ 0 = some bytes := by
  refine ⟨⟨⟨exampleOrigin, js "wiki ", 7, 3, OFFLINE_KEY_VERSION⟩, _, by decide +kernel,
    encodeOfflineDraftKeyFrame_iff.mpr ⟨rfl, ⟨by decide +kernel, by decide +kernel, by decide, by decide, by decide⟩,
      by decide, rfl⟩, by decide +kernel⟩, forall_mem_cons.mpr ⟨?_, forall_mem_singleton.mpr ?_⟩,
    ⟨_, forall_mem_cons.mpr ⟨rfl, by decide +kernel⟩⟩, ?_, _, rfl, by decide +kernel⟩
  · exact ⟨⟨⟨exampleOrigin, js "wiki", 7, 3, OFFLINE_KEY_VERSION⟩, 0, exampleKey⟩, by decide +kernel, by decide +kernel⟩
  · exact ⟨⟨⟨exampleOrigin, List.replicate 129 0xe9, 7, 3, OFFLINE_KEY_VERSION⟩, 0, exampleKey⟩, by decide +kernel,
      by decide +kernel⟩
  · exact ⟨_, encodeOfflineDraftKeyInfo_iff.mpr ⟨rfl, ⟨by decide +kernel, by decide +kernel, by decide, by decide,
      by decide⟩, rfl⟩, by decide +kernel⟩

end TsEpistle.Offline.KeyFrames
