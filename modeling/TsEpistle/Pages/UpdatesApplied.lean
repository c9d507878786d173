import TsEpistle.Pages.Updates

/-! What `updatePage` does with each part of a request. -/

namespace TsEpistle.Pages.Updates
open Library Library.Checked Json List Option
open Okf (Entries property assign remove OkfMetadataMutation mutateOkfMetadata validateMetadata validateOptional
  ordinaryMetadata defaultMetadata trustedKeys)

section
variable {ν : Type} {env : Env ν} {call : Call} {opts : UpdatePageOptions ν}

/-! ## The OKF metadata -/

theorem property_mem {key : JsString} {value : JsonValue ν} {entries : Entries ν}
    (h : property key entries = some value) : (key, value) ∈ entries := by
  induction entries with
  | nil => cases h
  | cons entry entries ih =>
    unfold property at h
    split at h
    · rename_i hkey
      cases h
      exact hkey ▸ mem_cons_self
    · exact mem_cons_of_mem _ (ih h)

/-- The metadata that a value stands for. -/
inductive StandsFor (frontmatterBytes : Entries ν → Nat) : Option (JsonValue ν) → Entries ν → Prop
  | missing : StandsFor frontmatterBytes none defaultMetadata
  | written (metadata : Entries ν) : StandsFor frontmatterBytes (some (.object metadata)) metadata
  | checked {value : JsonValue ν} {metadata : Entries ν} (h : validateMetadata frontmatterBytes value = .ok metadata) :
      StandsFor frontmatterBytes (some value) metadata

/-- The metadata that a request asks for: what it names, laid over what is there or in its place. -/
def OkfAsked (env : Env ν) (opts : UpdatePageOptions ν) (before : StoredPage ν) (asked : Entries ν) : Prop :=
  ∃ existing proposed,
    (opts.replacing = false → validateOptional env.frontmatterBytes (existingOkfMetadata opts before) = .ok existing) ∧
    validateOptional env.frontmatterBytes (if opts.restoring then none else opts.okfMetadata) = .ok proposed ∧
    validateMetadata env.frontmatterBytes (.object (ordinaryMetadata opts.replacing existing proposed)) = .ok asked

/-- The fields of trust are kept, or written by `mutateOkfMetadata` for this call. -/
def OkfTrust (env : Env ν) (call : Call) (opts : UpdatePageOptions ν) (before after : StoredPage ν) : Prop :=
  property (js "okf") after.extra = property (js "okf") before.extra ∨
    ∃ replacement existing knowledgeChanged metadata, replacementOkfMetadata env call opts = .ok replacement ∧
      (existing = existingOkfMetadata opts before ∨ opts.replacing = true ∧ existing = none) ∧
      mutateOkfMetadata env.frontmatterBytes existing (okfMutation call opts replacement knowledgeChanged)
        = .ok metadata ∧
      (property (js "okf") after.extra = some (.object metadata) ∨
        property (js "okf") after.extra = some (.object (remove (js "verified") metadata)))

theorem normalized_ok {page : StoredPage ν} {normalized : Option (Entries ν)}
    (h : normalizedExistingOkfMetadata env call opts page = .ok normalized) :
    (opts.replacing = false → normalized.isSome = true) ∧ ∀ metadata, normalized = some metadata →
      mutateOkfMetadata env.frontmatterBytes (existingOkfMetadata opts page)
        ⟨none, opts.producer call, false, false, call.now, none⟩ = .ok metadata := by
  unfold normalizedExistingOkfMetadata at h
  split at h
  · rename_i metadata hmetadata
    cases h
    refine ⟨fun _ => rfl, fun metadata' hsame => ?_⟩
    cases hsame
    exact mapError_ok hmetadata
  · split at h
    · rename_i hreplacing
      cases h
      refine ⟨fun hnot => ?_, fun metadata hsame => by cases hsame⟩
      rw [hreplacing] at hnot
      cases hnot
    · cases h

theorem validate_null {metadata : Option (Entries ν)}
    (h : validateOptional env.frontmatterBytes (some .null) = .ok metadata) : False := by
  change (validateMetadata env.frontmatterBytes .null).map some = .ok metadata at h
  obtain ⟨entries, hentries, -⟩ := map_ok h
  obtain ⟨_, _, heq, -⟩ := Okf.validateMetadata_ok hentries
  cases heq

/-- A replacement has passed as metadata of its own. -/
theorem replacement_ok {replacement : Option (JsonValue ν)} (h : replacementOkfMetadata env call opts = .ok replacement) :
    (opts.replacing = false → replacement = none) ∧ (opts.replacing = true → ∃ value metadata asked proposed,
      opts.okfMetadata = some value ∧ replacement = some (.object metadata) ∧
      validateOptional env.frontmatterBytes (some value) = .ok proposed ∧
      validateMetadata env.frontmatterBytes (.object (ordinaryMetadata true none proposed)) = .ok asked ∧
      validateMetadata env.frontmatterBytes (.object metadata) = .ok metadata ∧
      ∀ key, key ∉ trustedKeys → property key metadata = property key asked) := by
  unfold replacementOkfMetadata at h
  split at h
  · rename_i hreplacing
    refine ⟨fun hnot => absurd (hreplacing.symm.trans hnot) (by simp), fun _ => ?_⟩
    obtain ⟨metadata, hmetadata, rfl⟩ := map_ok h
    have hmutated := mapError_ok hmetadata
    obtain ⟨validated, proposed, asked, hvalidated, hproposed, hasked, hkeys⟩ := Okf.mutateOkfMetadata_ordinary hmutated
    cases hvalidated
    cases hvalue : opts.okfMetadata with
    | none =>
      rw [hvalue] at hproposed
      exact (validate_null hproposed).elim
    | some value =>
      rw [hvalue] at hproposed
      exact ⟨value, metadata, asked, proposed, rfl, rfl, hproposed, hasked, Okf.mutateOkfMetadata_valid hmutated, hkeys⟩
  · rename_i hreplacing
    cases h
    exact ⟨fun _ => rfl, fun hnot => absurd hnot hreplacing⟩

/-- A mutation for a request gives the metadata that the request asks for, but for the fields of trust. -/
theorem mutated_asked {page : StoredPage ν} {replacement : Option (JsonValue ν)} {normalized : Option (Entries ν)}
    {knowledgeChanged : Bool} {metadata : Entries ν} (hreplacement : replacementOkfMetadata env call opts = .ok replacement)
    (hnormalized : normalizedExistingOkfMetadata env call opts page = .ok normalized)
    (h : mutateOkf env (if normalized.isSome then existingOkfMetadata opts page else none)
      (okfMutation call opts replacement knowledgeChanged) = .ok metadata) :
    ∃ asked, OkfAsked env opts page asked ∧ ∀ key, key ∉ trustedKeys → property key metadata = property key asked := by
  obtain ⟨validated, proposed, ordinary, hvalidated, hproposed, hordinary, hkeys⟩ :=
    Okf.mutateOkfMetadata_ordinary (mapError_ok h)
  cases hreplacing : opts.replacing with
  | false =>
    obtain rfl := (replacement_ok hreplacement).1 hreplacing
    rw [if_pos ((normalized_ok hnormalized).1 hreplacing)] at hvalidated
    exact ⟨ordinary, ⟨validated, proposed, fun _ => hvalidated, hproposed, hordinary⟩, hkeys⟩
  | true =>
    obtain ⟨value, replaced, asked, proposed', hvalue, rfl, hproposed', hasked, hvalid, hreplaced⟩ :=
      (replacement_ok hreplacement).2 hreplacing
    have hrestoring : opts.restoring = false := by
      rw [UpdatePageOptions.replacing, Bool.and_eq_true] at hreplacing
      simpa using hreplacing.1
    have hmutation : (okfMutation call opts (some (.object replaced)) knowledgeChanged).proposed
        = some (.object replaced) := by
      simp [okfMutation, hrestoring]
    rw [hmutation] at hproposed
    obtain rfl := Okf.validateOptional_some hvalid hproposed
    have hsame : ordinary = replaced := by
      change validateMetadata env.frontmatterBytes (.object (ordinaryMetadata opts.replacing validated (some replaced)))
        = .ok ordinary at hordinary
      rw [hreplacing] at hordinary
      exact Except.ok.inj (hordinary.symm.trans hvalid)
    refine ⟨asked, ⟨none, proposed', fun hnot => ?_, ?_, ?_⟩, fun key hkey => ?_⟩
    · rw [hreplacing] at hnot
      cases hnot
    · rw [hrestoring, hvalue]
      exact hproposed'
    · rw [hreplacing]
      exact hasked
    · rw [hkeys key hkey, hsame, hreplaced key hkey]

theorem ordinary_existing {frontmatterBytes : Entries ν → Nat} {value : Option (JsonValue ν)}
    {validated : Option (Entries ν)} {ordinary : Entries ν} (hvalidated : validateOptional frontmatterBytes value = .ok validated)
    (h : validateMetadata frontmatterBytes (.object (ordinaryMetadata false validated none)) = .ok ordinary) :
    ordinary = validated.getD defaultMetadata := by
  cases validated with
  | none => exact Okf.validate_default h
  | some entries => exact Except.ok.inj (h.symm.trans (Okf.validateOptional_again hvalidated))

theorem existing_stands {page : StoredPage ν} {validated : Option (Entries ν)} (hrestoring : opts.restoring = false)
    (h : validateOptional env.frontmatterBytes (existingOkfMetadata opts page) = .ok validated) :
    StandsFor env.frontmatterBytes (property (js "okf") page.extra) (validated.getD defaultMetadata) := by
  rw [existingOkfMetadata, hrestoring, if_neg (by simp)] at h
  cases hvalue : property (js "okf") page.extra with
  | none =>
    rw [hvalue] at h
    cases h
    exact .missing
  | some value =>
    rw [hvalue] at h
    obtain ⟨entries, hentries, rfl⟩ := map_ok h
    exact .checked hentries

section
variable [DecidableEq ν]

/-- Two properties with the same value, or with values that `_.isEqual` takes for the same. -/
inductive Agree : Option (JsonValue ν) → Option (JsonValue ν) → Prop
  | same (value : Option (JsonValue ν)) : Agree value value
  | equal {left right : JsonValue ν} (h : isEqual left right = true) : Agree (some left) (some right)

theorem isEqualEntries_mem {lefts right : Entries ν} (h : isEqualEntries lefts right = true)
    {entry : JsString × JsonValue ν} (hentry : entry ∈ lefts) :
    ∃ value, property entry.1 right = some value ∧ isEqual entry.2 value = true := by
  induction lefts with
  | nil => cases hentry
  | cons left lefts ih =>
    obtain ⟨key, value⟩ := left
    rw [isEqualEntries, Bool.and_eq_true] at h
    rcases mem_cons.mp hentry with rfl | hentry
    · cases hproperty : property key right with
      | none =>
        rw [hproperty] at h
        cases h.1
      | some other =>
        rw [hproperty] at h
        exact ⟨other, rfl, h.1⟩
    · exact ih h.2 hentry

/-- Objects that are taken for the same agree at every key. -/
theorem isEqual_agree {left right : Entries ν} (h : isEqual (.object left) (.object right) = true) (key : JsString) :
    Agree (property key left) (property key right) := by
  rw [isEqual_object, Bool.and_eq_true, List.all_eq_true] at h
  cases hleft : property key left with
  | some value =>
    obtain ⟨other, hother, hequal⟩ := isEqualEntries_mem h.1 (property_mem hleft)
    rw [hother]
    exact .equal hequal
  | none =>
    cases hright : property key right with
    | none => exact .same none
    | some other =>
      have hsome := h.2 _ (property_mem hright)
      rw [hleft] at hsome
      cases hsome

def OkfApplied (env : Env ν) (opts : UpdatePageOptions ν) (before after : StoredPage ν) : Prop :=
  ∃ asked held, OkfAsked env opts before asked ∧
    StandsFor env.frontmatterBytes (property (js "okf") after.extra) held ∧
    ∀ key, key ∉ trustedKeys → Agree (property key asked) (property key held)

theorem okfOutcome_ok {page : StoredPage ν} {willMove : Bool} {okf : OkfOutcome ν}
    (h : okfOutcome env call opts page willMove = .ok okf) : ∃ replacement normalized proposed metadata knowledgeChanged,
      replacementOkfMetadata env call opts = .ok replacement ∧
      normalizedExistingOkfMetadata env call opts page = .ok normalized ∧
      mutateOkf env (if normalized.isSome then existingOkfMetadata opts page else none)
        (okfMutation call opts replacement false) = .ok proposed ∧
      mutateOkf env (if normalized.isSome then existingOkfMetadata opts page else none)
        (okfMutation call opts replacement knowledgeChanged) = .ok metadata ∧
      (okf.metadata = metadata ∨ okf.metadata = remove (js "verified") metadata) ∧
      okf.authorityChanged = (!opts.restoring && opts.okfMetadata.isSome && ((existingOkfMetadata opts page).isNone
        || !normalized.any fun normalized => isEqual (.object proposed) (.object normalized))) := by
  unfold okfOutcome at h
  obtain ⟨replacement, hreplacement, h⟩ := bind_ok h
  obtain ⟨normalized, hnormalized, h⟩ := bind_ok h
  obtain ⟨proposed, hproposed, h⟩ := bind_ok h
  obtain ⟨metadata, hmetadata, h⟩ := bind_ok h
  cases h
  refine ⟨replacement, normalized, proposed, metadata, _, hreplacement, hnormalized, hproposed, hmetadata, ?_, rfl⟩
  dsimp only
  split
  · exact .inr rfl
  · exact .inl rfl

/-- A page that is left alone has the metadata that is asked for. -/
theorem okf_early {page : StoredPage ν} {willMove : Bool} {okf : OkfOutcome ν} (hrestoring : opts.restoring = false)
    (h : okfOutcome env call opts page willMove = .ok okf)
    (hauthority : opts.okfMetadata.isSome = true → okf.authorityChanged = false) : OkfApplied env opts page page := by
  obtain ⟨replacement, normalized, proposed, _, _, hreplacement, hnormalized, hproposed, -, -, hchanged⟩ := okfOutcome_ok h
  obtain ⟨asked, hasked, hkeys⟩ := mutated_asked hreplacement hnormalized hproposed
  cases hvalue : opts.okfMetadata with
  | none =>
    have hreplacing : opts.replacing = false := by
      by_contra hnot
      obtain ⟨value, _, _, _, hvalue', -⟩ := (replacement_ok hreplacement).2 (by simpa using hnot)
      rw [hvalue] at hvalue'
      cases hvalue'
    obtain ⟨validated, proposed', hvalidated, hproposed', hordinary⟩ := hasked
    rw [hrestoring, hvalue] at hproposed'
    cases hproposed'
    rw [hreplacing] at hordinary
    obtain rfl := ordinary_existing (hvalidated hreplacing) hordinary
    exact ⟨_, _, ⟨validated, none, hvalidated, by rw [hrestoring, hvalue]; rfl, by rw [hreplacing]; exact hordinary⟩,
      existing_stands hrestoring (hvalidated hreplacing), fun key _ => .same _⟩
  | some value =>
    have hfalse := hauthority (by rw [hvalue]; rfl)
    rw [hchanged, hrestoring, hvalue] at hfalse
    simp only [Bool.not_false, isSome_some, Bool.true_and, Bool.or_eq_false_iff, Bool.not_eq_false'] at hfalse
    obtain ⟨metadata, rfl, hequal⟩ : ∃ metadata, normalized = some metadata ∧
        isEqual (.object proposed) (.object metadata) = true := by
      cases normalized with
      | none => cases hfalse.2
      | some metadata => exact ⟨metadata, rfl, hfalse.2⟩
    obtain ⟨validated, none', ordinary, hvalidated, hnone, hordinary, hmetadata⟩ :=
      Okf.mutateOkfMetadata_ordinary ((normalized_ok hnormalized).2 metadata rfl)
    cases hnone
    obtain rfl := ordinary_existing hvalidated hordinary
    refine ⟨asked, _, hasked, existing_stands hrestoring hvalidated, fun key hkey => ?_⟩
    rw [← hkeys key hkey, ← hmetadata key hkey]
    exact isEqual_agree hequal key

theorem noOp_true {page : StoredPage ν} {features : Option PageFeatures} {branding : Option (Option ν)}
    {okf : OkfOutcome ν} {unchanged : Bool} (h : noOp env opts page features branding okf unchanged = true) :
    unchanged = true ∧ brandingChanged env.isAssetId page.extra branding = false ∧
      (opts.okfMetadata.isSome = true → okf.authorityChanged = false) := by
  simp only [noOp, Bool.or_eq_true, Bool.and_eq_true, Bool.not_eq_true'] at h
  have hnone : opts.okfMetadata.isNone = true → opts.okfMetadata.isSome = true → okf.authorityChanged = false := by
    intro hnone hsome
    rw [isNone_iff_eq_none] at hnone
    rw [hnone] at hsome
    cases hsome
  rcases h with (⟨⟨⟨-, hauthority⟩, hunchanged⟩, hbranding⟩ | ⟨⟨⟨-, hbranding⟩, hmissing⟩, hunchanged⟩) |
    ⟨⟨⟨-, hunchanged⟩, hbranding⟩, hmissing⟩
  · exact ⟨hunchanged, hbranding, fun _ => hauthority⟩
  · exact ⟨hunchanged, hbranding, hnone hmissing⟩
  · exact ⟨hunchanged, hbranding, hnone hmissing⟩

end

/-! ## The tags -/

/-- The page has the tags that the names stand for, or those that it had. -/
def TagsApplied (env : Env ν) (call : Call) (opts : UpdatePageOptions ν) (site : Site ν) (assigned : List Int) : Prop :=
  match opts.tags with
  | none => assigned = site.assigned
  | some names => ∃ tags canonical, canonicalTags env.toLowerCase call.fresh site.tags names = .ok (tags, canonical) ∧
      ∀ id, id ∈ assigned ↔ ∃ tag ∈ tags, tag.id = id ∧ tag.tag ∈ canonical

/-- The tags that a page gets are those that the names stand for. -/
theorem associated_applied {site : Site ν} {tags : List Taxonomy.TagRow} {assigned : List Int}
    (h : associated env call opts site = .ok (tags, assigned)) : TagsApplied env call opts site assigned := by
  unfold associated at h
  unfold TagsApplied
  cases hnames : opts.tags with
  | none =>
    rw [hnames] at h
    cases h
    rfl
  | some names =>
    rw [hnames] at h
    have hassociated := mapError_ok h
    unfold associateTags at hassociated
    obtain ⟨⟨tags', canonical⟩, hcanonical, hassigned⟩ := bind_ok hassociated
    cases hassigned
    refine ⟨tags, canonical, hcanonical, fun id => ?_⟩
    have htarget : id ∈ (tags.filter fun tag => canonical.contains tag.tag).map (·.id) ↔
        ∃ tag ∈ tags, tag.id = id ∧ tag.tag ∈ canonical := by
      simp only [List.mem_map, mem_filter, contains_iff_mem]
      constructor
      · rintro ⟨tag, ⟨htag, hname⟩, hid⟩
        exact ⟨tag, htag, hid, hname⟩
      · rintro ⟨tag, htag, hid, hname⟩
        exact ⟨tag, ⟨htag, hname⟩, hid⟩
    rw [← htarget, mem_append, mem_filter, mem_filter]
    by_cases hbefore : id ∈ site.assigned
    · simp [hbefore]
    · simp [hbefore]

/-! ## The keys of a patch -/

def extraKeys : List JsString := [js "js", js "css", js "pageFeatures", js "branding", js "okf"]

def BrandingApplied (env : Env ν) (before after : Entries ν) : Option (Option ν) → Prop
  | none => property (js "branding") after = property (js "branding") before
  | some none => property (js "branding") after = none
  | some (some assetId) => pageBrandingFromExtra env.isAssetId after = some assetId

theorem parseBranding_some {isAssetId : ν → Bool} {value : JsonValue ν} {assetId : ν}
    (h : parseBranding isAssetId value = some assetId) : isAssetId assetId = true := by
  unfold parseBranding at h
  split at h
  · split at h
    · rename_i hid
      cases h
      exact (Bool.and_eq_true_iff.mp hid).2
    · cases h
  · cases h

theorem requestedBranding_asset {assetId : ν} (h : requestedBranding env opts = .ok (some (some assetId))) :
    env.isAssetId assetId = true := by
  unfold requestedBranding at h
  split at h
  · cases h
  · cases h
  · split at h
    · cases h
    · rename_i hparsed
      cases h
      exact parseBranding_some hparsed

theorem scriptOf_string {key text : JsString} {extra : Entries ν} (h : property key extra = some (.string text)) :
    scriptOf key extra = text := by
  rw [scriptOf, h]

theorem property_setBranding_ne {key : JsString} (h : key ≠ js "branding") (branding : Option (Option ν))
    (extra : Entries ν) : property key (setBranding branding extra) = property key extra := by
  cases branding with
  | none => rfl
  | some branding => exact Okf.property_assignOrRemove_ne h _ _

section
variable [One ν] {page : StoredPage ν} {features : Option PageFeatures} {branding : Option (Option ν)} {okf : Entries ν}

theorem property_setFeatures_ne {key : JsString} (h : key ≠ js "pageFeatures") (features : Option PageFeatures)
    (extra : Entries ν) : property key (setFeatures features extra) = property key extra := by
  cases features with
  | none => rfl
  | some features => exact Okf.property_assign_ne h _ _

theorem patchedExtra_okf : property (js "okf") (patchedExtra env opts page features branding okf) = some (.object okf) :=
  Okf.property_assign _ _ _

/-- What stands under the other keys does not depend on the metadata. -/
theorem patchedExtra_ne {key : JsString} (h : key ≠ js "okf") :
    property key (patchedExtra env opts page features branding okf) = property key (setBranding branding (setFeatures features
      (assign (js "css") (.string ((requestedScriptCss env opts).getD (scriptOf (js "css") page.extra)))
        (assign (js "js") (.string (opts.scriptJs.getD (scriptOf (js "js") page.extra))) page.extra)))) :=
  Okf.property_assign_ne h _ _

theorem patchedExtra_js : property (js "js") (patchedExtra env opts page features branding okf)
    = some (.string (opts.scriptJs.getD (scriptOf (js "js") page.extra))) := by
  rw [patchedExtra_ne (by decide), property_setBranding_ne (by decide), property_setFeatures_ne (by decide),
    Okf.property_assign_ne (by decide), Okf.property_assign]

theorem patchedExtra_css : property (js "css") (patchedExtra env opts page features branding okf)
    = some (.string ((requestedScriptCss env opts).getD (scriptOf (js "css") page.extra))) := by
  rw [patchedExtra_ne (by decide), property_setBranding_ne (by decide), property_setFeatures_ne (by decide),
    Okf.property_assign]

theorem patchedExtra_other {key : JsString} (h : key ∉ extraKeys) :
    property key (patchedExtra env opts page features branding okf) = property key page.extra := by
  simp only [extraKeys, mem_cons, not_mem_nil, or_false, not_or] at h
  obtain ⟨hjs, hcss, hfeatures, hbranding, hokf⟩ := h
  rw [patchedExtra_ne hokf, property_setBranding_ne hbranding, property_setFeatures_ne hfeatures,
    Okf.property_assign_ne hcss, Okf.property_assign_ne hjs]

theorem patchedExtra_branding (h : requestedBranding env opts = .ok branding) :
    BrandingApplied env page.extra (patchedExtra env opts page features branding okf) branding := by
  have hrest : ∀ value, property (js "branding") (setFeatures features (assign (js "css") (.string value)
      (assign (js "js") (.string (opts.scriptJs.getD (scriptOf (js "js") page.extra))) page.extra)))
      = property (js "branding") page.extra := by
    intro value
    rw [property_setFeatures_ne (by decide), Okf.property_assign_ne (by decide), Okf.property_assign_ne (by decide)]
  match branding with
  | none =>
    change property _ _ = property _ _
    rw [patchedExtra_ne (by decide), setBranding, hrest]
  | some none =>
    change property _ _ = none
    rw [patchedExtra_ne (by decide), setBranding, Okf.property_assignOrRemove]
    rfl
  | some (some assetId) =>
    change pageBrandingFromExtra env.isAssetId _ = some assetId
    rw [pageBrandingFromExtra, patchedExtra_ne (by decide), setBranding, Okf.property_assignOrRemove]
    simp [brandingJson, parseBranding, requestedBranding_asset h]

end

variable [One ν] [DecidableEq ν]

/-! ## What is asked for -/

def FeaturesApplied (before after : Entries ν) : Option PageFeatures → Prop
  | none => property (js "pageFeatures") after = property (js "pageFeatures") before
  | some features => (property (js "pageFeatures") after).bind parsePageFeatures = some features

def moved (before after : StoredPage ν) : Bool := after.localeCode ≠ before.localeCode || after.path ≠ before.path

/-- Every field has the value that is asked for, or the one that it had. -/
structure FieldsApplied (env : Env ν) (call : Call) (opts : UpdatePageOptions ν) (before after : StoredPage ν) : Prop where
  content : after.content = opts.content.getD before.content
  title : after.title = opts.title.getD (if moved before after && before.title = lastSegment before.path
    then lastSegment after.path else before.title)
  description : after.description = opts.description.getD before.description
  editorKey : after.editorKey = opts.editor.getD before.editorKey
  contentType : after.contentType = opts.contentType.getD before.contentType
  isPublished : after.isPublished = opts.isPublished.getD before.isPublished
  isSearchable : after.isSearchable = opts.isSearchable.getD before.isSearchable
  publishStartDate : after.publishStartDate = requestedDate before.publishStartDate opts.publishStartDate
  publishEndDate : after.publishEndDate = requestedDate before.publishEndDate opts.publishEndDate
  scriptJs : scriptOf (js "js") after.extra = opts.scriptJs.getD (scriptOf (js "js") before.extra)
  scriptCss : scriptOf (js "css") after.extra = (requestedScriptCss env opts).getD (scriptOf (js "css") before.extra)
  pageFeatures : ∃ features, requestedPageFeatures opts = .ok features ∧
    FeaturesApplied before.extra after.extra features
  branding : ∃ branding, requestedBranding env opts = .ok branding ∧ BrandingApplied env before.extra after.extra branding
  otherExtra : ∀ key, key ∉ extraKeys → property key after.extra = property key before.extra
  locale : after.localeCode = opts.locale.getD before.localeCode
  pathNamed : ∀ path, opts.path = some path → checkedPath path = .ok after.path
  pathKept : opts.path = none → after.path = before.path
  hash : after.hash = if moved before after then env.generateHash after.path after.localeCode else before.hash
  okf : OkfApplied env opts before after
  okfTrust : OkfTrust env call opts before after

/-! ## What a call has done -/

/-- The values that a call works with. -/
structure Resolved (env : Env ν) (call : Call) (opts : UpdatePageOptions ν) (page : StoredPage ν)
    (reason : Option JsString) (features : Option PageFeatures) (branding : Option (Option ν)) (path : JsString)
    (okf : OkfOutcome ν) (unchanged : Bool) : Prop where
  hreason : pageChangeReason opts.changeReason = .ok reason
  hfeatures : requestedPageFeatures opts = .ok features
  hbranding : requestedBranding env opts = .ok branding
  hpath : destinationPath opts page = .ok path
  hokf : okfOutcome env call opts page (destinationLocale opts page ≠ page.localeCode || path ≠ page.path) = .ok okf
  hunchanged : noNonBrandingMutation opts page reason features = .ok unchanged

/-- The request is answered with the page as it is. -/
def ReturnsEarly (env : Env ν) (call : Call) (opts : UpdatePageOptions ν) (page : StoredPage ν) : Prop :=
  ∃ reason features branding path okf unchanged,
    Resolved env call opts page reason features branding path okf unchanged ∧
      noOp env opts page features branding okf unchanged = true

theorem updatePage_ok {site site' : Site ν} (h : updatePage env call opts site = .ok site') :
    ∃ reason features branding path okf unchanged,
      Resolved env call opts site.page reason features branding path okf unchanged ∧
      ((noOp env opts site.page features branding okf unchanged = true ∧ site' = site) ∨
        (noOp env opts site.page features branding okf unchanged = false ∧
          ∃ tags assigned, associated env call opts site = .ok (tags, assigned) ∧
            site' = ⟨patched env opts site.page reason (destinationLocale opts site.page) path
              (patchedExtra env opts site.page features branding okf.metadata), tags, assigned⟩)) := by
  unfold updatePage at h
  obtain ⟨reason, hreason, h⟩ := bind_ok h
  obtain ⟨_, -, h⟩ := bind_ok h
  split at h
  · cases h
  · obtain ⟨features, hfeatures, h⟩ := bind_ok h
    obtain ⟨branding, hbranding, h⟩ := bind_ok h
    obtain ⟨path, hpath, h⟩ := bind_ok h
    obtain ⟨okf, hokf, h⟩ := bind_ok h
    obtain ⟨unchanged, hunchanged, h⟩ := bind_ok h
    refine ⟨reason, features, branding, path, okf, unchanged,
      ⟨hreason, hfeatures, hbranding, hpath, hokf, hunchanged⟩, ?_⟩
    split at h
    · rename_i hnoOp
      exact .inl ⟨hnoOp, (Except.ok.inj h).symm⟩
    · rename_i hnoOp
      unfold commit at h
      obtain ⟨⟨tags, assigned⟩, hassociated, h⟩ := bind_ok h
      obtain ⟨_, -, h⟩ := bind_ok h
      exact .inr ⟨by simpa using hnoOp, tags, assigned, hassociated, (Except.ok.inj h).symm⟩

/-! ## The patch -/

theorem parse_toJson (features : PageFeatures) : parsePageFeatures (features.toJson : JsonValue ν) = some features := by
  have hlinks : js "schemaVersion" ≠ js "linksVisible" := by decide
  have hratings : js "schemaVersion" ≠ js "ratingsAllowed" ∧ js "linksVisible" ≠ js "ratingsAllowed" := by decide
  have heditor : js "schemaVersion" ≠ js "lastEditorVisible" ∧ js "linksVisible" ≠ js "lastEditorVisible" ∧
      js "ratingsAllowed" ≠ js "lastEditorVisible" := by decide
  simp [parsePageFeatures, PageFeatures.toJson, property, isSchemaVersion, featureKeys, booleanOf, hlinks, hratings,
    heditor]

section
variable {page : StoredPage ν} {features : Option PageFeatures} {branding : Option (Option ν)} {okf : Entries ν}

theorem patchedExtra_features :
    FeaturesApplied page.extra (patchedExtra env opts page features branding okf) features := by
  cases features with
  | none =>
    change property _ _ = property _ _
    rw [patchedExtra_ne (by decide), property_setBranding_ne (by decide), setFeatures,
      Okf.property_assign_ne (by decide), Okf.property_assign_ne (by decide)]
  | some features =>
    change (property _ _).bind _ = _
    rw [patchedExtra_ne (by decide), property_setBranding_ne (by decide), setFeatures, Okf.property_assign]
    exact parse_toJson features

end

/-! ## Requests that return early -/

theorem unchanged_true {page : StoredPage ν} {reason : Option JsString} {features : Option PageFeatures}
    (h : noNonBrandingMutation opts page reason features = .ok true) :
    opts.unnamed = true ∧ pageFeaturesChanged page.extra features = false := by
  unfold noNonBrandingMutation at h
  split at h
  · rename_i hunnamed
    obtain ⟨stored, -, h⟩ := bind_ok h
    have hboth : (decide (reason = stored) && !pageFeaturesChanged page.extra features) = true := Except.ok.inj h
    exact ⟨hunnamed, by simpa using (Bool.and_eq_true_iff.mp hboth).2⟩
  · cases h

/-- A page that is left alone has every field that is asked for. -/
theorem early_fields {page : StoredPage ν} {reason : Option JsString} {features : Option PageFeatures}
    {branding : Option (Option ν)} {path : JsString} {okf : OkfOutcome ν} {unchanged : Bool}
    (h : Resolved env call opts page reason features branding path okf unchanged)
    (hnoOp : noOp env opts page features branding okf unchanged = true) : FieldsApplied env call opts page page := by
  obtain ⟨rfl, hbranding, hauthority⟩ := noOp_true hnoOp
  obtain ⟨hunnamed, hfeatures⟩ := unchanged_true h.hunchanged
  simp only [UpdatePageOptions.unnamed, Bool.and_eq_true, isNone_iff_eq_none] at hunnamed
  obtain ⟨⟨⟨⟨⟨⟨⟨⟨⟨⟨⟨⟨⟨⟨hcontent, hdescription⟩, hpublished⟩, hsearchable⟩, htitle⟩, heditor⟩, hcontentType⟩, -⟩, hlocale⟩,
    hpath⟩, hend⟩, hstart⟩, hcss⟩, hjs⟩, hrestore⟩ := hunnamed
  have hmoved : moved page page = false := by simp [moved]
  exact {
    content := by rw [hcontent]; rfl
    title := by rw [htitle, hmoved]; rfl
    description := by rw [hdescription]; rfl
    editorKey := by rw [heditor]; rfl
    contentType := by rw [hcontentType]; rfl
    isPublished := by rw [hpublished]; rfl
    isSearchable := by rw [hsearchable]; rfl
    publishStartDate := by rw [hstart]; rfl
    publishEndDate := by rw [hend]; rfl
    scriptJs := by rw [hjs]; rfl
    scriptCss := by rw [requestedScriptCss, hcss]; rfl
    pageFeatures := by
      refine ⟨features, h.hfeatures, ?_⟩
      cases features with
      | none => rfl
      | some features => simpa [pageFeaturesChanged, FeaturesApplied] using hfeatures
    branding := by
      refine ⟨branding, h.hbranding, ?_⟩
      obtain _ | _ | assetId := branding
      · rfl
      · simpa [brandingChanged, BrandingApplied] using hbranding
      · simpa [brandingChanged, BrandingApplied] using hbranding
    otherExtra := fun key _ => rfl
    locale := by rw [hlocale]; rfl
    pathNamed := fun path hnamed => by rw [hpath] at hnamed; cases hnamed
    pathKept := fun _ => rfl
    hash := by rw [hmoved]; rfl
    okf := okf_early (by rw [UpdatePageOptions.restoring, hrestore]; rfl) h.hokf hauthority
    okfTrust := .inl rfl }

/-! ## Requests that are carried out -/

theorem patched_fields {page : StoredPage ν} {reason : Option JsString} {features : Option PageFeatures}
    {branding : Option (Option ν)} {path : JsString} {okf : OkfOutcome ν} {unchanged : Bool}
    (h : Resolved env call opts page reason features branding path okf unchanged)
    (hstored : checkedPath page.path = .ok page.path) :
    FieldsApplied env call opts page (patched env opts page reason (destinationLocale opts page) path
      (patchedExtra env opts page features branding okf.metadata)) := by
  have hpath := mapError_ok h.hpath
  obtain ⟨replacement, normalized, _, metadata, _, hreplacement, hnormalized, -, hmetadata, hverified, -⟩ :=
    okfOutcome_ok h.hokf
  obtain ⟨asked, hasked, hkeys⟩ := mutated_asked hreplacement hnormalized hmetadata
  exact {
    content := rfl
    title := rfl
    description := rfl
    editorKey := rfl
    contentType := rfl
    isPublished := rfl
    isSearchable := rfl
    publishStartDate := rfl
    publishEndDate := rfl
    scriptJs := scriptOf_string patchedExtra_js
    scriptCss := scriptOf_string patchedExtra_css
    pageFeatures := ⟨features, h.hfeatures, patchedExtra_features⟩
    branding := ⟨branding, h.hbranding, patchedExtra_branding h.hbranding⟩
    otherExtra := fun key hkey => patchedExtra_other hkey
    locale := rfl
    pathNamed := fun named hnamed => by
      rw [hnamed] at hpath
      exact hpath
    pathKept := fun hnone => by
      rw [hnone] at hpath
      exact Except.ok.inj (hpath.symm.trans hstored)
    hash := rfl
    okf := by
      refine ⟨asked, okf.metadata, hasked, ?_, fun key hkey => ?_⟩
      · change StandsFor _ (property (js "okf") (patchedExtra env opts page features branding okf.metadata)) _
        rw [patchedExtra_okf]
        exact .written _
      · have hsame : property key okf.metadata = property key asked := by
          rw [← hkeys key hkey]
          rcases hverified with heq | heq
          · rw [heq]
          · rw [heq, Okf.property_remove_ne]
            rintro rfl
            exact hkey (by simp [trustedKeys])
        rw [hsame]
        exact .same _
    okfTrust := by
      refine .inr ⟨replacement, _, _, metadata, hreplacement, ?_, mapError_ok hmetadata, ?_⟩
      · split
        · exact .inl rfl
        next hnone =>
          refine .inr ⟨Bool.not_eq_false _ ▸ fun hreplacing => hnone ((normalized_ok hnormalized).1 hreplacing), rfl⟩
      change property (js "okf") (patchedExtra env opts page features branding okf.metadata) = _ ∨
        property (js "okf") (patchedExtra env opts page features branding okf.metadata) = _
      rw [patchedExtra_okf]
      rcases hverified with heq | heq
      · exact .inl (by rw [heq])
      · exact .inr (by rw [heq]) }

/-- **Updates.** A request that succeeds has its fields carried out, and every part of it exactly where it does not
return early or names the tags that the page has. -/
theorem updatePage_applied {site site' : Site ν} (hstored : checkedPath site.page.path = .ok site.page.path)
    (h : updatePage env call opts site = .ok site') :
    FieldsApplied env call opts site.page site'.page ∧
      ((FieldsApplied env call opts site.page site'.page ∧ TagsApplied env call opts site site'.assigned) ↔
        (ReturnsEarly env call opts site.page → TagsApplied env call opts site site.assigned)) := by
  obtain ⟨reason, features, branding, path, okf, unchanged, hresolved, ⟨hnoOp, rfl⟩ | ⟨hnoOp, tags, assigned, htags, rfl⟩⟩ :=
    updatePage_ok h
  · refine ⟨early_fields hresolved hnoOp, fun happlied _ => happlied.2, fun htags => ?_⟩
    exact ⟨early_fields hresolved hnoOp, htags ⟨_, _, _, _, _, _, hresolved, hnoOp⟩⟩
  · refine ⟨patched_fields hresolved hstored, ?_, ?_⟩
    · rintro - ⟨reason', features', branding', path', okf', unchanged', hresolved', hnoOp'⟩
      -- the values of a call are unique
      obtain rfl := Except.ok.inj (hresolved.hreason.symm.trans hresolved'.hreason)
      obtain rfl := Except.ok.inj (hresolved.hfeatures.symm.trans hresolved'.hfeatures)
      obtain rfl := Except.ok.inj (hresolved.hbranding.symm.trans hresolved'.hbranding)
      obtain rfl := Except.ok.inj (hresolved.hpath.symm.trans hresolved'.hpath)
      obtain rfl := Except.ok.inj (hresolved.hokf.symm.trans hresolved'.hokf)
      obtain rfl := Except.ok.inj (hresolved.hunchanged.symm.trans hresolved'.hunchanged)
      rw [hnoOp] at hnoOp'
      cases hnoOp'
    · exact fun _ => ⟨patched_fields hresolved hstored, associated_applied htags⟩

end

/-! ## A request whose tags are dropped -/

def plainEnv : Env Nat where
  minify text := text
  toLowerCase text := text
  generateHash path locale := locale ++ 47 :: path
  isAssetId _ := true
  frontmatterBytes _ := 0

def plainCall : Call := ⟨1, js "2026-01-01T00:00:00Z", 1, .ok (), .ok ()⟩

def allFeatures : PageFeatures := ⟨true, true, true⟩

def guide : Site Nat where
  page :=
    { content := js "Text", title := js "Guide", description := [], editorKey := js "markdown",
      contentType := js "markdown", isPublished := true, isSearchable := true, publishStartDate := [],
      publishEndDate := [], localeCode := js "en", path := js "guide", hash := js "en/guide", changeReason := none,
      extra := [(js "pageFeatures", allFeatures.toJson)] }
  tags := []
  assigned := []

def noOptions : UpdatePageOptions Nat :=
  ⟨none, none, none, none, none, none, none, none, none, none, none, none, none, none, none, none, none, none, false, none,
    none, none⟩

theorem guide_stored : checkedPath guide.page.path = .ok guide.page.path := by decide

theorem updatePage_applied_example : ∃ site',
    updatePage plainEnv plainCall { noOptions with content := some (js "New") } guide = .ok site' ∧
    FieldsApplied plainEnv plainCall { noOptions with content := some (js "New") } guide.page site'.page ∧
    TagsApplied plainEnv plainCall { noOptions with content := some (js "New") } guide site'.assigned := by
  have hrun : (updatePage plainEnv plainCall { noOptions with content := some (js "New") } guide).toOption.isSome = true := by
    decide +kernel
  obtain ⟨site', hsite⟩ := isSome_iff_exists.mp hrun
  have hok : updatePage plainEnv plainCall { noOptions with content := some (js "New") } guide = .ok site' := by
    cases hresult : updatePage plainEnv plainCall { noOptions with content := some (js "New") } guide with
    | error error => rw [hresult] at hsite; cases hsite
    | ok result => rw [hresult] at hsite; cases hsite; rfl
  exact ⟨site', hok, (updatePage_applied guide_stored hok).2.mpr fun _ => rfl⟩

/-- Tags, and the features that the page has. -/
def tagging : UpdatePageOptions Nat :=
  { noOptions with tags := some [js "draft"], pageFeatures := some allFeatures.toJson }

/-- The request succeeds, and the page has no tag. -/
theorem tags_dropped : ¬ ∀ site', updatePage plainEnv plainCall tagging guide = .ok site' →
    FieldsApplied plainEnv plainCall tagging guide.page site'.page ∧
      TagsApplied plainEnv plainCall tagging guide site'.assigned := by
  intro h
  have hrun : (updatePage plainEnv plainCall tagging guide).toOption.map (·.assigned) = some [] := by decide +kernel
  obtain ⟨site', hsite, hassigned⟩ := map_eq_some_iff.mp hrun
  have hok : updatePage plainEnv plainCall tagging guide = .ok site' := by
    cases hresult : updatePage plainEnv plainCall tagging guide with
    | error error => rw [hresult] at hsite; cases hsite
    | ok result => rw [hresult] at hsite; cases hsite; rfl
  obtain ⟨tags, canonical, hcanonical, hids⟩ := (h site' hok).2
  have hcanonical' : canonicalTags plainEnv.toLowerCase plainCall.fresh guide.tags [js "draft"]
      = .ok ([⟨1, js "draft", js "draft", none, false⟩], [js "draft"]) := by decide +kernel
  cases hcanonical.symm.trans hcanonical'
  have hone := (hids 1).mpr ⟨_, mem_singleton_self _, rfl, mem_singleton_self _⟩
  rw [hassigned] at hone
  cases hone

end TsEpistle.Pages.Updates
