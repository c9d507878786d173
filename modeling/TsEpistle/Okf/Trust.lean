import TsEpistle.Okf.Validation

/-! The trust events of OKF metadata: who may have stamped them after any number of mutations
(`mutateOkfMetadata`), and that an edit outdates every earlier verification (`summarizeOkfTrust`). -/

namespace TsEpistle.Okf
open Library Library.Checked Json List Option
open Pages (isSpace trim)

/-! ## Texts of timestamps -/

theorem isSpace_digit {unit : UInt16} (h : isDigit unit = true) : isSpace unit = false := by
  simp only [isDigit, Bool.and_eq_true, decide_eq_true_eq, UInt16.le_iff_toNat_le] at h
  have h48 : 48 ≤ unit.toNat := h.1
  have h57 : unit.toNat ≤ 57 := h.2
  unfold isSpace
  simp only [← UInt16.toNat_inj, UInt16.le_iff_toNat_le, Bool.or_eq_false_iff, Bool.and_eq_false_iff,
    decide_eq_false_iff_not, UInt16.reduceToNat]
  omega

variable {text rest : JsString}

theorem digits_some {n value : Nat} (h : digits n text = some (value, rest)) :
    (text.take n).length = n ∧ (∀ unit ∈ text.take n, isDigit unit = true) ∧ rest = text.drop n := by
  unfold digits at h
  split at h
  · rename_i hdigits
    simp only [Bool.and_eq_true, decide_eq_true_eq, List.all_eq_true] at hdigits
    cases h
    exact ⟨hdigits.1, hdigits.2, rfl⟩
  · cases h

theorem literal_some {unit : UInt16} (h : literal unit text = some rest) : text = unit :: rest := by
  cases text with
  | nil => cases h
  | cons first others =>
    rw [literal] at h
    split at h
    · rename_i hfirst
      rw [hfirst, Option.some.inj h]
    · cases h

theorem digits_suffix {n value : Nat} (h : digits n text = some (value, rest)) : rest <:+ text := by
  rw [(digits_some h).2.2]
  exact drop_suffix n text

theorem literal_suffix {unit : UInt16} (h : literal unit text = some rest) : rest <:+ text := by
  rw [literal_some h]
  exact suffix_cons unit rest

theorem fractionOf_suffix (text : JsString) : (fractionOf text).2 <:+ text := by
  cases text with
  | nil => exact suffix_refl _
  | cons unit rest =>
    rw [fractionOf]
    split
    · exact (dropWhile_suffix _).trans (suffix_cons unit rest)
    · exact suffix_refl _

theorem fractionOf_digits (text : JsString) : ∀ unit ∈ (fractionOf text).1, isDigit unit = true := by
  cases text with
  | nil => intro unit hunit; cases hunit
  | cons unit rest =>
    intro other hother
    rw [fractionOf] at hother
    split at hother
    · exact mem_takeWhile_imp hother
    · cases hother

theorem getLast?_suffix (h : rest <:+ text) (hne : rest ≠ []) : text.getLast? = rest.getLast? := by
  obtain ⟨front, rfl⟩ := h
  exact getLast?_append_of_ne_nil front hne

/-- The end of a timestamp is no white space. -/
theorem offsetOf_last {text : JsString} {offset : Bool × Nat × Nat} (h : offsetOf text = some offset) :
    text ≠ [] ∧ (text.getLast?.all fun unit => !isSpace unit) = true := by
  cases text with
  | nil => cases h
  | cons unit rest =>
    refine ⟨cons_ne_nil _ _, ?_⟩
    rw [offsetOf] at h
    split at h
    · rename_i hunit
      split at h
      · rename_i hrest
        rw [hunit, hrest]
        decide
      · cases h
    · split at h
      · obtain ⟨⟨hour, rest₁⟩, hhour, h⟩ := bind_eq_some_iff.mp h
        obtain ⟨rest₂, hcolon, h⟩ := bind_eq_some_iff.mp h
        obtain ⟨⟨minute, rest₃⟩, hminute, h⟩ := bind_eq_some_iff.mp h
        obtain ⟨hlength, hdigits, hrest₃⟩ := digits_some hminute
        have hempty : rest₃ = [] := by
          by_contra hne
          simp only [if_neg hne] at h
          cases h
        have hall : rest₂.take 2 = rest₂ := by
          have happend := List.take_append_drop 2 rest₂
          rw [← hrest₃, hempty, append_nil] at happend
          exact happend
        rw [hall] at hlength hdigits
        have hne : rest₂ ≠ [] := fun hnil => by rw [hnil] at hlength; cases hlength
        have hsuffix := ((literal_suffix hcolon).trans (digits_suffix hhour)).trans (suffix_cons unit rest)
        rw [getLast?_suffix hsuffix hne, getLast?_eq_some_getLast hne]
        have hlast := isSpace_digit (hdigits _ (getLast_mem hne))
        simp [hlast]
      · cases h

/-- What the groups of a timestamp are taken from. -/
theorem isoParts_some {text : JsString} {parts : IsoParts} (h : isoParts text = some parts) :
    trim text = text ∧ ∀ unit ∈ parts.fraction, isDigit unit = true := by
  unfold isoParts at h
  obtain ⟨⟨year, rest₁⟩, hyear, h⟩ := bind_eq_some_iff.mp h
  obtain ⟨rest₂, hdash, h⟩ := bind_eq_some_iff.mp h
  obtain ⟨⟨month, rest₃⟩, hmonth, h⟩ := bind_eq_some_iff.mp h
  obtain ⟨rest₄, hdash', h⟩ := bind_eq_some_iff.mp h
  obtain ⟨⟨day, rest₅⟩, hday, h⟩ := bind_eq_some_iff.mp h
  obtain ⟨rest₆, htime, h⟩ := bind_eq_some_iff.mp h
  obtain ⟨⟨hour, rest₇⟩, hhour, h⟩ := bind_eq_some_iff.mp h
  obtain ⟨rest₈, hcolon, h⟩ := bind_eq_some_iff.mp h
  obtain ⟨⟨minute, rest₉⟩, hminute, h⟩ := bind_eq_some_iff.mp h
  obtain ⟨rest, hcolon', h⟩ := bind_eq_some_iff.mp h
  obtain ⟨⟨second, rest'⟩, hsecond, h⟩ := bind_eq_some_iff.mp h
  obtain ⟨⟨negative, offsetHour, offsetMinute⟩, hoffset, h⟩ := bind_eq_some_iff.mp h
  cases h
  refine ⟨?_, fractionOf_digits rest'⟩
  obtain ⟨hlength, hdigits, -⟩ := digits_some hyear
  obtain ⟨hne, hlast⟩ := offsetOf_last hoffset
  have hsuffix : (fractionOf rest').2 <:+ text :=
    (fractionOf_suffix rest').trans <| (digits_suffix hsecond).trans <| (literal_suffix hcolon').trans <|
      (digits_suffix hminute).trans <| (literal_suffix hcolon).trans <| (digits_suffix hhour).trans <|
      (literal_suffix htime).trans <| (digits_suffix hday).trans <| (literal_suffix hdash').trans <|
      (digits_suffix hmonth).trans <| (literal_suffix hdash).trans (digits_suffix hyear)
  refine trim_ends ?_ (by rw [getLast?_suffix hsuffix hne]; exact hlast)
  cases text with
  | nil => cases hlength
  | cons unit others =>
    have hunit := isSpace_digit (hdigits unit (by simp))
    simp [hunit]

theorem isOkfTimestamp_parts {text : JsString} (h : isOkfTimestamp text = true) :
    ∃ parts, isoParts text = some parts := by
  unfold isOkfTimestamp at h
  cases hparts : isoParts text with
  | none => rw [hparts] at h; cases h
  | some parts => exact ⟨parts, rfl⟩

theorem trim_timestamp {text : JsString} (h : isOkfTimestamp text = true) : trim text = text := by
  obtain ⟨parts, hparts⟩ := isOkfTimestamp_parts h
  exact (isoParts_some hparts).1

theorem instant_digits {text : JsString} {parts : IsoParts} (h : isoParts text = some parts) :
    ∀ unit ∈ parts.instant.subMilliseconds, isDigit unit = true := by
  intro unit hunit
  refine (isoParts_some h).2 unit (mem_of_mem_drop (i := 3) ?_)
  obtain ⟨n, hn⟩ := trimZeros_append (parts.fraction.drop 3)
  rw [hn]
  exact mem_append_left _ hunit

/-- Timestamps are compared by the times that they name. -/
theorem compare_parts {left right : JsString} {leftParts rightParts : IsoParts} (hleft : isoParts left = some leftParts)
    (hright : isoParts right = some rightParts) :
    compareOkfTimestampInstants leftParts.instant rightParts.instant < 0 ↔ leftParts.time < rightParts.time := by
  rw [compareOkfTimestampInstants_neg (instant_digits hleft) (instant_digits hright), instant_time, instant_time]

section
variable {ν : Type}

/-! ## One mutation -/

def trustedKeys : List JsString := [js "generated", js "verified", js "restored_from"]

theorem trusted_keys : js "generated" ≠ js "verified" ∧ js "generated" ≠ js "restored_from" ∧
    js "verified" ≠ js "restored_from" ∧ js "restored_from" ∉ fieldKeys := by decide +kernel

variable {frontmatterBytes : Entries ν → Nat}

theorem validateOptional_some {entries : Entries ν} {validated : Option (Entries ν)}
    (hvalid : validateMetadata frontmatterBytes (.object entries) = .ok entries)
    (h : validateOptional frontmatterBytes (some (.object entries)) = .ok validated) : validated = some entries := by
  rw [validateOptional, hvalid] at h
  exact (Except.ok.inj h).symm

theorem validateOptional_again {value : Option (JsonValue ν)} {entries : Entries ν}
    (h : validateOptional frontmatterBytes value = .ok (some entries)) :
    validateMetadata frontmatterBytes (.object entries) = .ok entries := by
  cases value with
  | none => cases h
  | some value =>
    obtain ⟨metadata, hmetadata, heq⟩ := map_ok h
    cases heq
    exact validate_again hmetadata

/-- The trusted fields before they are validated for the last time. -/
structure Mutation (frontmatterBytes : Entries ν → Nat) (input : OkfMetadataMutation ν)
    (existing : Option (Entries ν)) (metadata : Entries ν) : Prop where
  timestamp : isOkfTimestamp input.at_ = true
  generated : property (js "generated") metadata =
    if input.knowledgeChanged || existing.isNone then some (stamp (trim input.producer) input.at_)
    else existing.bind (property (js "generated"))
  verified : property (js "verified") metadata =
    if startsWith (trim input.producer) (js "import:") then none else existing.bind (property (js "verified"))
  restored : property (js "restored_from") metadata = existing.bind (property (js "restored_from")) ∨
    ∃ revision, input.restore = some revision ∧ property (js "restored_from") metadata =
      some (restoreStamp (trim revision) (trim input.producer) input.at_)

variable {input : OkfMetadataMutation ν} {result : Entries ν} {existing : Option (JsonValue ν)}

/-- What a mutation that succeeds has done. -/
theorem mutateOkfMetadata_ok (h : mutateOkfMetadata frontmatterBytes existing input = .ok result) :
    ∃ validated proposed ordinary metadata, validateOptional frontmatterBytes existing = .ok validated ∧
      validateOptional frontmatterBytes input.proposed = .ok proposed ∧
      validateMetadata frontmatterBytes (.object (ordinaryMetadata input.replace validated proposed)) = .ok ordinary ∧
      (∀ key, key ∉ trustedKeys → property key metadata = property key ordinary) ∧
      Mutation frontmatterBytes input validated metadata ∧ Stated 255 (trim input.producer) ∧
      validateMetadata frontmatterBytes (.object metadata) = .ok result := by
  obtain ⟨hgv, hgr, hvr, -⟩ := trusted_keys
  unfold mutateOkfMetadata fail at h
  obtain ⟨producer, hproducer, h⟩ := bind_ok h
  obtain ⟨given, hgiven, hproducer, hstated⟩ := nonEmptyString_ok hproducer
  cases hgiven
  split at h
  · cases h
  · split at h
    · cases h
    · rename_i htimestamp
      obtain ⟨validated, hvalidated, h⟩ := bind_ok h
      obtain ⟨proposed, hproposed, h⟩ := bind_ok h
      obtain ⟨ordinary, hordinary, h⟩ := bind_ok h
      subst hproducer
      have hat : isOkfTimestamp input.at_ = true := by simpa using htimestamp
      have hkeys : ∀ key, key ∉ trustedKeys →
          key ≠ js "generated" ∧ key ≠ js "verified" ∧ key ≠ js "restored_from" := by
        intro key hkey
        simpa [trustedKeys] using hkey
      -- the three fields are written one after the other
      generalize hmetadata₁ : (if (input.knowledgeChanged || validated.isNone) = true
        then assign (js "generated") (stamp (trim input.producer) input.at_) ordinary
        else trustedField (js "generated") validated ordinary) = metadata₁ at h
      have hgenerated : property (js "generated") metadata₁ =
          if input.knowledgeChanged || validated.isNone then some (stamp (trim input.producer) input.at_)
          else validated.bind (property (js "generated")) := by
        rw [← hmetadata₁]
        split
        · exact property_assign _ _ _
        · exact property_assignOrRemove _ _ _
      have hother₁ : ∀ key, key ≠ js "generated" → property key metadata₁ = property key ordinary := by
        intro key hkey
        rw [← hmetadata₁]
        split
        · exact property_assign_ne hkey _ _
        · exact property_assignOrRemove_ne hkey _ _
      simp only at h
      generalize hmetadata₂ : (if startsWith (trim input.producer) (js "import:") = true
        then remove (js "verified") metadata₁
        else trustedField (js "verified") validated metadata₁) = metadata₂ at h
      have hverified : property (js "verified") metadata₂ =
          if startsWith (trim input.producer) (js "import:") then none
          else validated.bind (property (js "verified")) := by
        rw [← hmetadata₂]
        split
        · exact property_remove _ _
        · exact property_assignOrRemove _ _ _
      have hother₂ : ∀ key, key ≠ js "verified" → property key metadata₂ = property key metadata₁ := by
        intro key hkey
        rw [← hmetadata₂]
        split
        · exact property_remove_ne hkey _
        · exact property_assignOrRemove_ne hkey _ _
      have hgenerated₂ := hother₂ _ hgv
      split at h
      · refine ⟨validated, proposed, ordinary, _, hvalidated, hproposed, hordinary, fun key hkey => ?_,
          ⟨hat, ?_, ?_, .inl ?_⟩, hstated, h⟩
        · obtain ⟨hg, hv, hr⟩ := hkeys key hkey
          exact (property_assignOrRemove_ne hr _ _).trans ((hother₂ key hv).trans (hother₁ key hg))
        · rw [← hgenerated, ← hgenerated₂]
          exact property_assignOrRemove_ne hgr _ _
        · rw [← hverified]
          exact property_assignOrRemove_ne hvr _ _
        · exact property_assignOrRemove _ _ _
      · rename_i given hrestore
        obtain ⟨revision, hrevision, h⟩ := bind_ok h
        obtain ⟨given, hgiven, hrevision, -⟩ := nonEmptyString_ok hrevision
        cases hgiven
        refine ⟨validated, proposed, ordinary, _, hvalidated, hproposed, hordinary, fun key hkey => ?_,
          ⟨hat, ?_, ?_, .inr ⟨_, hrestore, ?_⟩⟩, hstated, h⟩
        · obtain ⟨hg, hv, hr⟩ := hkeys key hkey
          exact (property_assign_ne hr _ _).trans ((hother₂ key hv).trans (hother₁ key hg))
        · rw [← hgenerated, ← hgenerated₂]
          exact property_assign_ne hgr _ _
        · rw [← hverified]
          exact property_assign_ne hvr _ _
        · rw [hrevision]
          exact property_assign _ _ _

/-- Validation leaves a property as it is where its field does, and a property that is no field. -/
theorem validateMetadata_property {metadata result : Entries ν} {key : JsString}
    (h : validateMetadata frontmatterBytes (.object metadata) = .ok result)
    (hsame : ∀ field ∈ fields, field.1 = key → ∀ value value', property key metadata = some value →
      field.2 value = .ok value' → value' = value) : property key result = property key metadata := by
  obtain ⟨entries, -, heq, -, -, hchecked, -⟩ := validateMetadata_ok h
  cases heq
  by_cases hkey : key ∈ (fields (ν := ν)).map fun field => field.1
  · obtain ⟨field, hfield, rfl⟩ := List.mem_map.mp hkey
    cases hvalue : property field.1 metadata with
    | none => exact hchecked.kept.absent _ hvalue
    | some value =>
      obtain ⟨value', hpassed, hproperty⟩ := hchecked.passed field hfield value hvalue
      rw [hproperty, hsame field hfield rfl value value' hvalue hpassed]
  · exact hchecked.kept.others key hkey

/-- A property of metadata that is valid passes the check of its field as it is. -/
theorem valid_property {metadata : Entries ν} (h : validateMetadata frontmatterBytes (.object metadata) = .ok metadata)
    {key : JsString} {value : JsonValue ν} (hvalue : property key metadata = some value)
    {check : JsonValue ν → Except OkfDocumentError (JsonValue ν)} (hfield : (key, check) ∈ fields) :
    check value = .ok value := by
  obtain ⟨entries, -, heq, -, -, hchecked, -⟩ := validateMetadata_ok h
  cases heq
  obtain ⟨value', hpassed, hproperty⟩ := hchecked.passed (key, check) hfield value hvalue
  rw [← Option.some.inj (hvalue.symm.trans hproperty)] at hpassed
  exact hpassed

theorem fields_same {field : JsString × (JsonValue ν → Except OkfDocumentError (JsonValue ν))}
    (field' : JsString × (JsonValue ν → Except OkfDocumentError (JsonValue ν))) (hfield : field ∈ fields)
    (hfield' : field' ∈ fields) (hkey : field.1 = field'.1) : field = field' :=
  inj_on_of_nodup_map (fields_keys (ν := ν) ▸ fieldKeys_nodup) hfield hfield' hkey

theorem stamp_checked {producer at_ : JsString} {field code : String} {value : JsonValue ν}
    (hproducer : Stated 255 producer) (hat : isOkfTimestamp at_ = true)
    (h : actorEvent (stamp producer at_) field code = .ok value) : value = stamp producer at_ := by
  have hby : property (js "by") [(js "by", JsonValue.string producer), (js "at", .string at_)]
      = some (.string producer : JsonValue ν) := by simp [property]
  have hat_ : property (js "at") [(js "by", JsonValue.string producer), (js "at", .string at_)]
      = some (.string at_ : JsonValue ν) := by simp [property, at_ne_by.symm]
  simp only [stamp, actorEvent, hby, nonEmptyString_again hproducer] at h
  obtain ⟨by_, hby_, hat'⟩ := bind_ok h
  obtain rfl := Except.ok.inj hby_
  simp only [assign_property hby, hat_] at hat'
  obtain ⟨text, htext, htimestamp⟩ := bind_ok hat'
  obtain ⟨checked, hchecked, hresult⟩ := bind_ok htimestamp
  obtain ⟨given, hgiven, htrim, -⟩ := nonEmptyString_ok htext
  have hsame := (timestampOnly_ok hchecked).1
  cases hgiven
  have hvalue := (Except.ok.inj hresult).symm
  rw [hsame, htrim, trim_timestamp hat, assign_property hat_] at hvalue
  exact hvalue

/-- The trusted fields of a result, by the fields of what was there before. -/
theorem mutateOkfMetadata_fields (h : mutateOkfMetadata frontmatterBytes existing input = .ok result) : ∃ validated,
    validateOptional frontmatterBytes existing = .ok validated ∧ Mutation frontmatterBytes input validated result := by
  obtain ⟨validated, _, _, metadata, hvalidated, -, -, -, hmutation, hstated, hresult⟩ := mutateOkfMetadata_ok h
  refine ⟨validated, hvalidated, hmutation.timestamp, ?_, ?_, ?_⟩
  · rw [← hmutation.generated]
    refine validateMetadata_property hresult fun field hfield hkey value value' hvalue hpassed => ?_
    obtain rfl := fields_same (js "generated", fun value => actorEvent value "generated" "INVALID_GENERATED") hfield
      (by simp [fields]) hkey
    rw [hmutation.generated] at hvalue
    split at hvalue
    · obtain rfl := Option.some.inj hvalue
      exact stamp_checked hstated hmutation.timestamp hpassed
    · obtain ⟨entries, rfl, hproperty⟩ := bind_eq_some_iff.mp hvalue
      have hsame := valid_property (validateOptional_again hvalidated) hproperty hfield
      exact (Except.ok.inj (hsame.symm.trans hpassed)).symm
  · rw [← hmutation.verified]
    refine validateMetadata_property hresult fun field hfield hkey value value' hvalue hpassed => ?_
    obtain rfl := fields_same (js "verified", verifiedField) hfield (by simp [fields]) hkey
    rw [hmutation.verified] at hvalue
    split at hvalue
    · cases hvalue
    · obtain ⟨entries, rfl, hproperty⟩ := bind_eq_some_iff.mp hvalue
      have hsame := valid_property (validateOptional_again hvalidated) hproperty hfield
      exact (Except.ok.inj (hsame.symm.trans hpassed)).symm
  · have hsame : property (js "restored_from") result = property (js "restored_from") metadata := by
      refine validateMetadata_property hresult fun field hfield hkey => ?_
      exact absurd (List.mem_map.mpr ⟨field, hfield, hkey⟩) trusted_keys.2.2.2
    rw [hsame]
    exact hmutation.restored

/-- Metadata whose fields pass as they are is kept. -/
theorem validate_same {metadata result : Entries ν}
    (hsame : ∀ field ∈ fields, ∀ value, property field.1 metadata = some value → field.2 value = .ok value)
    (h : validateMetadata frontmatterBytes (.object metadata) = .ok result) : result = metadata := by
  unfold validateMetadata fail at h
  simp only at h
  obtain ⟨nodes, -, h⟩ := bind_ok h
  split at h
  · cases h
  · obtain ⟨checked, hchecked, hsize⟩ := bind_ok h
    obtain rfl := Except.ok.inj (hchecked.symm.trans (checkFields_same hsame))
    split at hsize
    · cases hsize
    · exact (Except.ok.inj hsize).symm

theorem validate_remove {metadata result : Entries ν} {key : JsString}
    (hvalid : validateMetadata frontmatterBytes (.object metadata) = .ok metadata)
    (h : validateMetadata frontmatterBytes (.object (remove key metadata)) = .ok result) :
    result = remove key metadata := by
  refine validate_same (fun field hfield value hvalue => ?_) h
  have hne : field.1 ≠ key := by
    rintro rfl
    rw [property_remove] at hvalue
    cases hvalue
  rw [property_remove_ne hne] at hvalue
  exact valid_property hvalid hvalue hfield

theorem validate_default (h : validateMetadata frontmatterBytes (.object defaultMetadata) = .ok result) :
    result = defaultMetadata := by
  refine validate_same (fun field hfield value hvalue => ?_) h
  have hdefault : property field.1 (defaultMetadata : Entries ν) =
      if js "type" = field.1 then some (.string (js "Reference"))
      else if js "status" = field.1 then some (.string (js "stable")) else none := rfl
  rw [hdefault] at hvalue
  split at hvalue
  · rename_i hkey
    obtain rfl := fields_same (js "type", textField "type" 128 "INVALID_TYPE") hfield (by simp [fields]) hkey.symm
    have hstated : Stated 128 (js "Reference") := ⟨by decide +kernel, by decide +kernel, by decide +kernel⟩
    cases hvalue
    show textField (ν := ν) "type" 128 "INVALID_TYPE" (.string (js "Reference")) = _
    rw [textField, nonEmptyString_again hstated]
    rfl
  · split at hvalue
    · rename_i hkey
      obtain rfl := fields_same (js "status", statusField) hfield (by simp [fields]) hkey.symm
      cases hvalue
      show statusField (ν := ν) (.string (js "stable")) = _
      rw [statusField, if_pos (by decide)]
    · cases hvalue

/-- The fields that no trust is in are those of the ordinary metadata. -/
theorem mutateOkfMetadata_ordinary (h : mutateOkfMetadata frontmatterBytes existing input = .ok result) :
    ∃ validated proposed ordinary, validateOptional frontmatterBytes existing = .ok validated ∧
    validateOptional frontmatterBytes input.proposed = .ok proposed ∧
    validateMetadata frontmatterBytes (.object (ordinaryMetadata input.replace validated proposed)) = .ok ordinary ∧
    ∀ key, key ∉ trustedKeys → property key result = property key ordinary := by
  obtain ⟨validated, proposed, ordinary, metadata, hvalidated, hproposed, hordinary, hothers, -, -, hresult⟩ :=
    mutateOkfMetadata_ok h
  refine ⟨validated, proposed, ordinary, hvalidated, hproposed, hordinary, fun key hkey => ?_⟩
  rw [← hothers key hkey]
  refine validateMetadata_property hresult fun field hfield hsame value value' hvalue hpassed => ?_
  subst hsame
  rw [hothers _ hkey] at hvalue
  have hfixed := valid_property (validate_again hordinary) hvalue hfield
  exact (Except.ok.inj (hfixed.symm.trans hpassed)).symm

/-- A call that asks for no change. -/
structure Idle (input : OkfMetadataMutation ν) : Prop where
  proposed : input.proposed = none
  knowledgeChanged : input.knowledgeChanged = false
  restore : input.restore = none

/-- **No change.** In merge mode a call that asks for none keeps what is there, but for the verification that
an import does not keep. -/
theorem mutateOkfMetadata_idle {existing : JsonValue ν} (hidle : Idle input)
    (hmerge : input.replace = false)
    (h : mutateOkfMetadata frontmatterBytes (some existing) input = .ok result) :
    ∃ metadata, validateMetadata frontmatterBytes existing = .ok metadata ∧
      result = if startsWith (trim input.producer) (js "import:") then remove (js "verified") metadata else metadata := by
  unfold mutateOkfMetadata fail at h
  obtain ⟨producer, hproducer, h⟩ := bind_ok h
  obtain ⟨given, hgiven, hproducer, -⟩ := nonEmptyString_ok hproducer
  cases hgiven
  subst hproducer
  split at h
  · cases h
  · split at h
    · cases h
    · obtain ⟨validated, hvalidated, h⟩ := bind_ok h
      obtain ⟨metadata, hmetadata, hsome⟩ := map_ok hvalidated
      subst hsome
      have hvalid := validate_again hmetadata
      have hordinary : ordinaryMetadata false (some metadata) none = metadata := rfl
      have htrusted : ∀ key, trustedField key (some metadata) metadata = metadata := fun key =>
        assignOrRemove_property key metadata
      refine ⟨metadata, hmetadata, ?_⟩
      simp only [hidle.proposed, hidle.knowledgeChanged, hidle.restore, hmerge, validateOptional, hordinary, hvalid,
        isNone_some, Bool.or_self, Bool.false_eq_true, if_false, htrusted, bind, Except.bind] at h
      by_cases himport : startsWith (trim input.producer) (js "import:") = true
      · have hkept : trustedField (js "restored_from") (some metadata) (remove (js "verified") metadata)
            = remove (js "verified") metadata := by
          have hproperty := property_remove_ne trusted_keys.2.2.1.symm metadata
          rw [trustedField, bind_some, ← hproperty]
          exact assignOrRemove_property _ _
        rw [if_pos himport]
        rw [if_pos himport, hkept] at h
        exact validate_remove hvalid h
      · rw [if_neg himport]
        rw [if_neg himport, htrusted, hvalid] at h
        exact (Except.ok.inj h).symm

/-! ## Outdated verification -/

/-- The latest verification is one of the events. -/
theorem laterEvent_mem (events : List (Entries ν)) {text : JsString} {instant : OkfTimestampInstant}
    (h : events.foldl laterEvent none = some (text, instant)) :
    ∃ event ∈ events, eventAt event = some text ∧ parseOkfTimestampInstant text = some instant := by
  have hrun : ∀ latest : Option (JsString × OkfTimestampInstant), events.foldl laterEvent latest = some (text, instant) →
      latest = some (text, instant) ∨
        ∃ event ∈ events, eventAt event = some text ∧ parseOkfTimestampInstant text = some instant := by
    clear h
    induction events with
    | nil => exact fun latest h => .inl h
    | cons event events ih =>
      intro latest h
      rcases ih _ h with hlater | ⟨other, hother, hfound⟩
      · unfold laterEvent at hlater
        split at hlater
        · exact .inl hlater
        · rename_i given hgiven
          split at hlater
          · exact .inl hlater
          · rename_i hfound
            cases hlater
            exact .inr ⟨event, mem_cons_self, hgiven, hfound⟩
          · rename_i hfound
            split at hlater
            · cases hlater
              exact .inr ⟨event, mem_cons_self, hgiven, hfound⟩
            · exact .inl hlater
      · exact .inr ⟨other, mem_cons_of_mem _ hother, hfound⟩
  rcases hrun none h with hnone | hfound
  · cases hnone
  · exact hfound

/-- All verification events are from before the timestamp. -/
def VerifiedBefore (metadata : Entries ν) (at_ : JsString) : Prop :=
  ∀ event ∈ verificationEvents metadata, ∀ text, eventAt event = some text →
    ∀ parts ∈ isoParts text, ∀ generated ∈ isoParts at_, parts.time < generated.time

theorem summarize_outdated {metadata : Entries ν} {producer at_ : JsString} (now : OkfTimestampInstant)
    (hgenerated : property (js "generated") metadata = some (stamp producer at_)) (hat : isOkfTimestamp at_ = true)
    (hbefore : VerifiedBefore metadata at_) : (summarizeValidatedOkfTrust metadata now).verification ≠ .current := by
  obtain ⟨generated, hparts⟩ := isOkfTimestamp_parts hat
  have hinstant : (((property (js "generated") metadata).map entriesOf).bind eventAt).bind parseOkfTimestampInstant
      = some generated.instant := by
    have hevent : eventAt [(js "by", JsonValue.string producer), (js "at", (.string at_ : JsonValue ν))] = some at_ := by
      simp [eventAt, property, at_ne_by.symm, textOf]
    rw [hgenerated, map_some, bind_some, stamp, entriesOf, hevent, bind_some, parseOkfTimestampInstant, hparts]
    rfl
  simp only [summarizeValidatedOkfTrust, hinstant]
  split
  · decide
  · split
    · decide
    · rename_i verified hverified
      obtain ⟨event, hevent, htext, hfound⟩ := laterEvent_mem _ hverified
      obtain ⟨parts, hfoundParts, hfoundInstant⟩ := map_eq_some_iff.mp hfound
      have hlt := (compare_parts hfoundParts hparts).mpr
        (hbefore event hevent _ htext parts hfoundParts generated hparts)
      rw [if_pos (by rw [← hfoundInstant]; simpa using hlt)]
      decide

/-! ## Sequences of mutations -/

/-- The calls so far, where each result is the existing value of the next call. -/
inductive MutationChain (frontmatterBytes : Entries ν → Nat) (first : Option (JsonValue ν)) :
    List (OkfMetadataMutation ν) → Option (JsonValue ν) → Prop
  | start : MutationChain frontmatterBytes first [] first
  | call {calls : List (OkfMetadataMutation ν)} {existing : Option (JsonValue ν)} {input : OkfMetadataMutation ν}
      {result : Entries ν} (chain : MutationChain frontmatterBytes first calls existing)
      (hcall : mutateOkfMetadata frontmatterBytes existing input = .ok result) :
      MutationChain frontmatterBytes first (calls ++ [input]) (some (.object result))

/-- Where the trusted fields come from. -/
structure Trusted (origin current : Option (Entries ν)) (calls : List (OkfMetadataMutation ν)) : Prop where
  generated : current.bind (property (js "generated")) = origin.bind (property (js "generated")) ∨
    ∃ call ∈ calls, current.bind (property (js "generated")) = some (stamp (trim call.producer) call.at_)
  verified : current.bind (property (js "verified")) = none ∨
    current.bind (property (js "verified")) = origin.bind (property (js "verified"))
  restored : current.bind (property (js "restored_from")) = origin.bind (property (js "restored_from")) ∨
    ∃ call ∈ calls, ∃ revision, call.restore = some revision ∧ current.bind (property (js "restored_from")) =
      some (restoreStamp (trim revision) (trim call.producer) call.at_)

variable {calls : List (OkfMetadataMutation ν)}

theorem Trusted.step {origin current : Option (Entries ν)} (htrusted : Trusted origin current calls)
    (h : Mutation frontmatterBytes input current result) :
    Trusted origin (some result) (calls ++ [input]) where
  generated := by
    rw [bind_some, h.generated]
    split
    · exact .inr ⟨input, by simp, rfl⟩
    · rcases htrusted.generated with hsame | ⟨call, hcall, hstamp⟩
      · exact .inl hsame
      · exact .inr ⟨call, mem_append_left _ hcall, hstamp⟩
  verified := by
    rw [bind_some, h.verified]
    split
    · exact .inl rfl
    · exact htrusted.verified
  restored := by
    rw [bind_some]
    rcases h.restored with hkept | ⟨revision, hrestore, hstamp⟩
    · rw [hkept]
      rcases htrusted.restored with hsame | ⟨call, hcall, revision, hrestore, hstamp⟩
      · exact .inl hsame
      · exact .inr ⟨call, mem_append_left _ hcall, revision, hrestore, hstamp⟩
    · exact .inr ⟨input, by simp, revision, hrestore, hstamp⟩

theorem mutateOkfMetadata_valid (h : mutateOkfMetadata frontmatterBytes existing input = .ok result) :
    validateMetadata frontmatterBytes (.object result) = .ok result := by
  obtain ⟨_, _, _, metadata, -, -, -, -, -, -, hresult⟩ := mutateOkfMetadata_ok h
  exact validate_again hresult

/-- After a call the existing value is valid as it is. -/
theorem MutationChain.existing_valid {first existing : Option (JsonValue ν)}
    (h : MutationChain frontmatterBytes first calls existing) (hcalls : calls ≠ []) : ∃ metadata,
    existing = some (.object metadata) ∧ validateMetadata frontmatterBytes (.object metadata) = .ok metadata := by
  cases h with
  | start => exact absurd rfl hcalls
  | call chain hcall => exact ⟨_, rfl, mutateOkfMetadata_valid hcall⟩

theorem MutationChain.trusted {first existing : Option (JsonValue ν)}
    (h : MutationChain frontmatterBytes first calls existing) {validated : Option (Entries ν)}
    (hvalidated : validateOptional frontmatterBytes existing = .ok validated) :
    ∃ origin, validateOptional frontmatterBytes first = .ok origin ∧ Trusted origin validated calls := by
  induction h generalizing validated with
  | start => exact ⟨validated, hvalidated, ⟨.inl rfl, .inr rfl, .inl rfl⟩⟩
  | call chain hcall ih =>
    obtain ⟨current, hcurrent, hmutation⟩ := mutateOkfMetadata_fields hcall
    obtain ⟨origin, horigin, htrusted⟩ := ih hcurrent
    obtain rfl := validateOptional_some (mutateOkfMetadata_valid hcall) hvalidated
    exact ⟨origin, horigin, htrusted.step hmutation⟩

/-- **Trust is not forged.** After any calls, the next call leaves trusted fields that these calls stamped or
that were there at first; what it gives is valid, a call in merge mode that asks for nothing keeps what was
there (an import drops the verification), and an edit after all verifications outdates them. -/
theorem mutateOkfMetadata_trust {frontmatterBytes : Entries ν → Nat} {first existing : Option (JsonValue ν)}
    {calls : List (OkfMetadataMutation ν)} (hchain : MutationChain frontmatterBytes first calls existing)
    {input : OkfMetadataMutation ν} {result : Entries ν}
    (h : mutateOkfMetadata frontmatterBytes existing input = .ok result) :
    (∃ origin, validateOptional frontmatterBytes first = .ok origin ∧
        Trusted origin (some result) (calls ++ [input])) ∧
      validateMetadata frontmatterBytes (.object result) = .ok result ∧
      (Idle input → input.replace = false → existing.isSome → ∃ metadata,
        validateOptional frontmatterBytes existing = .ok (some metadata) ∧
        (calls ≠ [] → existing = some (.object metadata)) ∧
        result = if startsWith (trim input.producer) (js "import:") then remove (js "verified") metadata
          else metadata) ∧
      (input.knowledgeChanged = true → VerifiedBefore result input.at_ → ∀ now summary,
        summarizeOkfTrust frontmatterBytes (.object result) now = .ok summary →
        summary.verification ≠ .current) := by
  have hvalid := mutateOkfMetadata_valid h
  obtain ⟨current, hcurrent, hmutation⟩ := mutateOkfMetadata_fields h
  refine ⟨?_, hvalid, ?_, ?_⟩
  · obtain ⟨origin, horigin, htrusted⟩ := hchain.trusted hcurrent
    exact ⟨origin, horigin, htrusted.step hmutation⟩
  · intro hidle hmerge hsome
    obtain ⟨value, rfl⟩ := isSome_iff_exists.mp hsome
    obtain ⟨metadata, hmetadata, hresult⟩ := mutateOkfMetadata_idle hidle hmerge h
    refine ⟨metadata, by rw [validateOptional, hmetadata]; rfl, fun hcalls => ?_, hresult⟩
    obtain ⟨entries, hexisting, hentries⟩ := hchain.existing_valid hcalls
    rw [Option.some.inj hexisting, hentries] at hmetadata
    rw [hexisting, Except.ok.inj hmetadata]
  · intro hchanged hbefore now summary hsummary
    have hgenerated := hmutation.generated
    rw [hchanged, Bool.true_or, if_pos rfl] at hgenerated
    rw [summarizeOkfTrust, hvalid] at hsummary
    rw [← Except.ok.inj hsummary]
    exact summarize_outdated now hgenerated hmutation.timestamp hbefore

end

/-! ## Examples -/

/-- The YAML text of fields and events whose texts need no quotes. -/
def plainBytes (entries : Entries Int) : Nat :=
  (entries.map fun entry => entry.1.length + 2 + ((textOf entry.2).map fun text => text.length + 1).getD 0
    + ((entriesOf entry.2).map fun field => field.1.length + ((textOf field.2).getD []).length + 5).sum).sum - 1

/-- Metadata that was verified at noon. -/
def verifiedNote : JsonValue Int :=
  .object [(js "type", .string (js "Note")), (js "title", .string (js "Lamps")),
    (js "verified", stamp (js "human:2") (js "2026-03-01T12:00:00Z"))]

def editAt (at_ : JsString) : OkfMetadataMutation Int where
  proposed := none
  producer := js "human:7"
  knowledgeChanged := true
  replace := false
  at_
  restore := none

/-- A save of `verifiedNote` outdates its verification, and a call that asks for nothing keeps what it left. -/
theorem mutateOkfMetadata_trust_example : ∃ result,
    mutateOkfMetadata plainBytes (some verifiedNote) (editAt (js "2026-03-01T13:00:00.5+01:00")) = .ok result ∧
    (property (js "verified") result).isSome ∧
    (∃ origin, validateOptional plainBytes (some verifiedNote) = .ok origin ∧
      Trusted origin (some result) ([] ++ [editAt (js "2026-03-01T13:00:00.5+01:00")])) ∧
    (∀ now summary, summarizeOkfTrust plainBytes (.object result) now = .ok summary → summary.verification ≠ .current) ∧
    let again := { editAt (js "2026-03-02T12:00:00Z") with knowledgeChanged := false }
    mutateOkfMetadata plainBytes (some (.object result)) again = .ok result ∧
      ∃ origin, validateOptional plainBytes (some verifiedNote) = .ok origin ∧
        Trusted origin (some result) ([editAt (js "2026-03-01T13:00:00.5+01:00")] ++ [again]) := by
  generalize hrun : mutateOkfMetadata plainBytes (some verifiedNote) (editAt (js "2026-03-01T13:00:00.5+01:00")) = run
  have hcheck : (run.toOption.any fun result => ((property (js "verified") result).isSome &&
      (mutateOkfMetadata plainBytes (some (.object result))
        { editAt (js "2026-03-02T12:00:00Z") with knowledgeChanged := false }).isOk) &&
      (verificationEvents result).all fun event => (eventAt event).all fun text => (isoParts text).all fun parts =>
        (isoParts (js "2026-03-01T13:00:00.5+01:00")).all fun generated => decide (parts.time < generated.time)) = true := by
    rw [← hrun]
    decide +kernel
  cases run with
  | error e => cases hcheck
  | ok result =>
    obtain ⟨hfirst, hbefore⟩ := Bool.and_eq_true_iff.mp (show _ = true from hcheck)
    obtain ⟨hverified, hagain⟩ := Bool.and_eq_true_iff.mp hfirst
    obtain ⟨htrusted, -, -, houtdated⟩ := mutateOkfMetadata_trust .start hrun
    refine ⟨result, rfl, hverified, htrusted, houtdated rfl ?_, ?_⟩
    · intro event hevent text htext parts hparts generated hgenerated
      have hall := List.all_eq_true.mp hbefore event hevent
      simp only [htext, all_some, mem_def.mp hparts] at hall
      have hgenerated' : isoParts (js "2026-03-01T13:00:00.5+01:00") = some generated := hgenerated
      rw [hgenerated'] at hall
      exact of_decide_eq_true hall
    · intro again
      cases hsecond : mutateOkfMetadata plainBytes (some (.object result)) again with
      | error e =>
        rw [show mutateOkfMetadata plainBytes _ _ = _ from hsecond] at hagain
        cases hagain
      | ok second =>
        obtain ⟨htrusted', -, hidle, -⟩ := mutateOkfMetadata_trust (.call .start hrun) hsecond
        obtain ⟨metadata, -, hexisting, hkept⟩ := hidle ⟨rfl, rfl, rfl⟩ rfl rfl
        obtain rfl : result = metadata := JsonValue.object.inj (Option.some.inj (hexisting (by simp)))
        obtain rfl : second = result := hkept.trans (if_neg (by decide))
        exact ⟨rfl, htrusted'⟩

/-- An edit in the same instant as a verification leaves it current; and two calls that ask for nothing do not
keep what is there: an import drops the verification, and replace mode drops every field. -/
theorem trust_exceptions :
    (mutateOkfMetadata plainBytes (some verifiedNote) (editAt (js "2026-03-01T13:00:00+01:00"))).toOption.map
        (fun result => (summarizeOkfTrust plainBytes (.object result) ⟨0, []⟩).toOption.map (·.verification))
      = some (some .current) ∧
    (mutateOkfMetadata plainBytes (some verifiedNote)
        { editAt (js "2026-03-02T12:00:00Z") with producer := js "import:feed", knowledgeChanged := false }).toOption.map
        (fun result => ((property (js "verified") result).isSome, (property (js "title") result).isSome))
      = some (false, true) ∧
    (mutateOkfMetadata plainBytes (some verifiedNote)
        { editAt (js "2026-03-02T12:00:00Z") with replace := true, knowledgeChanged := false }).toOption.map
        (fun result => ((property (js "verified") result).isSome, (property (js "title") result).isSome))
      = some (true, false) := by
  decide +kernel

end TsEpistle.Okf
