import TsEpistle.Json.Canonical
import TsEpistle.Okf.Metadata

/-! Metadata that passed `validateMetadata` passes it again as it is. -/

namespace TsEpistle.Okf
open Library Library.Checked Json List
open Pages (isSpace trim)

section
variable {ν : Type}

/-! ## Objects -/

theorem property_assign (key : JsString) (value : JsonValue ν) (entries : Entries ν) :
    property key (assign key value entries) = some value := by
  induction entries with
  | nil => simp [assign, property]
  | cons entry entries ih =>
    by_cases h : entry.1 = key
    · simp [assign, property, h]
    · simp [assign, property, h, ih]

theorem property_assign_ne {key key' : JsString} (h : key' ≠ key) (value : JsonValue ν) (entries : Entries ν) :
    property key' (assign key value entries) = property key' entries := by
  induction entries with
  | nil => simp [assign, property, h.symm]
  | cons entry entries ih =>
    by_cases hkey : entry.1 = key
    · have hne : entry.1 ≠ key' := fun heq => h (heq.symm.trans hkey)
      rw [assign, if_pos hkey, property, property, if_neg h.symm, if_neg hne]
    · rw [assign, if_neg hkey, property, property, ih]

theorem assign_property {key : JsString} {value : JsonValue ν} {entries : Entries ν}
    (h : property key entries = some value) : assign key value entries = entries := by
  induction entries with
  | nil => cases h
  | cons entry entries ih =>
    unfold property at h
    unfold assign
    split at h
    · rename_i hkey
      rw [if_pos hkey, ← hkey, ← Option.some.inj h]
    · rename_i hkey
      rw [if_neg hkey, ih h]

theorem property_remove (key : JsString) (entries : Entries ν) : property key (remove key entries) = none := by
  induction entries with
  | nil => rfl
  | cons entry entries ih =>
    unfold remove at ih ⊢
    rw [filter_cons]
    split
    · rename_i hkey
      rw [property, if_neg (by simpa using hkey), ih]
    · exact ih

theorem property_remove_ne {key key' : JsString} (h : key' ≠ key) (entries : Entries ν) :
    property key' (remove key entries) = property key' entries := by
  induction entries with
  | nil => rfl
  | cons entry entries ih =>
    unfold remove at ih ⊢
    rw [filter_cons]
    split
    · rw [property, property, ih]
    · rename_i hkey
      have hne : entry.1 ≠ key' := by
        intro heq
        exact h (heq.symm.trans (by simpa using hkey))
      rw [property, if_neg hne, ih]

theorem remove_missing {key : JsString} {entries : Entries ν} (h : property key entries = none) :
    remove key entries = entries := by
  induction entries with
  | nil => rfl
  | cons entry entries ih =>
    unfold property at h
    split at h
    · cases h
    · rename_i hkey
      have hrest := ih h
      unfold remove at hrest ⊢
      rw [filter_cons, if_pos (by simpa using hkey), hrest]

theorem property_assignOrRemove (key : JsString) (value : Option (JsonValue ν)) (entries : Entries ν) :
    property key (assignOrRemove key value entries) = value := by
  cases value with
  | none => exact property_remove key entries
  | some value => exact property_assign key value entries

theorem property_assignOrRemove_ne {key key' : JsString} (h : key' ≠ key) (value : Option (JsonValue ν))
    (entries : Entries ν) : property key' (assignOrRemove key value entries) = property key' entries := by
  cases value with
  | none => exact property_remove_ne h entries
  | some value => exact property_assign_ne h value entries

theorem assignOrRemove_property (key : JsString) (entries : Entries ν) :
    assignOrRemove key (property key entries) entries = entries := by
  cases h : property key entries with
  | none => exact remove_missing h
  | some value => exact assign_property h

/-! ## Shapes -/

mutual
/-- The value without its texts. -/
def shape : JsonValue ν → JsonValue ν
  | .string _ => .string []
  | .array items => .array (shapeItems items)
  | .object entries => .object (shapeEntries entries)
  | .null => .null
  | .boolean value => .boolean value
  | .number value => .number value

def shapeItems : List (JsonValue ν) → List (JsonValue ν)
  | [] => []
  | item :: items => shape item :: shapeItems items

def shapeEntries : List (JsString × JsonValue ν) → List (JsString × JsonValue ν)
  | [] => []
  | (key, value) :: entries => (key, shape value) :: shapeEntries entries
end

/-- The tree of a value is told by its shape. -/
theorem visit_shape (value : JsonValue ν) (nodes depth : Nat) :
    visit nodes (shape value) depth = visit nodes value depth := by
  induction value using JsonValue.induct generalizing nodes depth with
  | hnull | hboolean | hnumber | hstring => rfl
  | harray items ih =>
    have hitems : ∀ nodes depth, visitItems nodes (shapeItems items) depth = visitItems nodes items depth := by
      clear nodes depth
      induction items with
      | nil => intro nodes depth; rfl
      | cons item items ihitems =>
        intro nodes depth
        rw [shapeItems, visitItems, visitItems, ih item mem_cons_self]
        congr 1
        funext nodes
        exact ihitems (fun other hother => ih other (mem_cons_of_mem _ hother)) nodes depth
    rw [shape, visit, visit]
    simp only [hitems]
  | hobject entries ih =>
    have hentries : ∀ nodes depth,
        visitEntries nodes (shapeEntries entries) depth = visitEntries nodes entries depth := by
      clear nodes depth
      induction entries with
      | nil => intro nodes depth; rfl
      | cons entry entries ihentries =>
        intro nodes depth
        have hrest : ∀ nodes, visitEntries nodes (shapeEntries entries) depth = visitEntries nodes entries depth :=
          fun nodes => ihentries (fun other hother => ih other (mem_cons_of_mem _ hother)) nodes depth
        rw [shapeEntries, visitEntries, visitEntries, ih entry mem_cons_self]
        simp only [hrest]
    rw [shape, visit, visit]
    simp only [hentries]

theorem shapeEntries_assign {key : JsString} {value : JsonValue ν} (value' : JsonValue ν) {entries : Entries ν}
    (h : property key entries = some value) (hshape : shape value' = shape value) :
    shapeEntries (assign key value' entries) = shapeEntries entries := by
  induction entries with
  | nil => cases h
  | cons entry entries ih =>
    obtain ⟨key', other⟩ := entry
    unfold property at h
    split at h
    · rename_i hkey
      rw [assign, if_pos hkey, shapeEntries, shapeEntries, hshape, ← Option.some.inj h, ← hkey]
    · rename_i hkey
      rw [assign, if_neg hkey, shapeEntries, shapeEntries, ih h]

/-! ## Checks that keep what they have kept -/

def Settled (check : JsonValue ν → Except OkfDocumentError (JsonValue ν)) : Prop :=
  ∀ value value', check value = .ok value' → check value' = .ok value' ∧ shape value' = shape value

/-- A text that `nonEmptyString` gives. -/
structure Stated (maximum : Nat) (text : JsString) : Prop where
  trimmed : trim text = text
  nonempty : text ≠ []
  short : text.length ≤ maximum

theorem dropWhile_head {p : UInt16 → Bool} {text : JsString} (h : text.head?.all fun unit => !p unit) :
    text.dropWhile p = text := by
  cases text with
  | nil => rfl
  | cons unit rest =>
    have hunit : p unit = false := by simpa using h
    simp [hunit]

theorem head_dropWhile (p : UInt16 → Bool) (text : JsString) :
    ((text.dropWhile p).head?.all fun unit => !p unit) = true := by
  cases hhead : (text.dropWhile p).head? with
  | none => rfl
  | some unit =>
    have := head?_dropWhile_not p text
    rw [hhead] at this
    simpa using this

theorem trim_ends {text : JsString} (hhead : (text.head?.all fun unit => !isSpace unit) = true)
    (hlast : (text.getLast?.all fun unit => !isSpace unit) = true) : trim text = text := by
  unfold trim
  rw [dropWhile_head hhead, dropWhile_head (by rwa [head?_reverse]), reverse_reverse]

theorem trim_trim (text : JsString) : trim (trim text) = trim text := by
  have hlast : ((trim text).getLast?.all fun unit => !isSpace unit) = true := by
    unfold trim
    rw [getLast?_reverse]
    exact head_dropWhile _ _
  refine trim_ends ?_ hlast
  -- what is left at the end begins where the first cut left it
  have hfront : trim text <+: text.dropWhile isSpace := by
    unfold trim
    rw [← reverse_suffix, reverse_reverse]
    exact dropWhile_suffix _
  cases htrim : trim text with
  | nil => rfl
  | cons unit rest =>
    have hhead := head_dropWhile isSpace text
    obtain ⟨tail, htail⟩ := hfront
    rw [← htail, htrim] at hhead
    exact hhead

theorem nonEmptyString_ok {value : Option (JsonValue ν)} {field : String} {maximum : Nat} {code : String}
    {text : JsString} (h : nonEmptyString value field maximum code = .ok text) :
    ∃ given, value = some (.string given) ∧ text = trim given ∧ Stated maximum text := by
  unfold nonEmptyString fail at h
  split at h
  · rename_i given
    split at h
    · cases h
    · rename_i hempty
      split at h
      · cases h
      · rename_i hshort
        cases h
        exact ⟨given, rfl, rfl, trim_trim given, fun hnil => hempty (by rw [hnil]; rfl), not_lt.mp hshort⟩
  · cases h

theorem nonEmptyString_again {text : JsString} {maximum : Nat} (h : Stated maximum text) (field code : String) :
    nonEmptyString (some (.string text) : Option (JsonValue ν)) field maximum code = .ok text := by
  have hempty : text.isEmpty = false := by simpa using h.nonempty
  rw [nonEmptyString, h.trimmed, hempty, if_neg (by simp), if_neg (not_lt.mpr h.short)]

theorem textField_settled (field : String) (maximum : Nat) (code : String) :
    Settled (textField (ν := ν) field maximum code) := by
  intro value value' h
  obtain ⟨text, htext, rfl⟩ := map_ok h
  obtain ⟨given, hgiven, -, hstated⟩ := nonEmptyString_ok htext
  cases hgiven
  exact ⟨by rw [textField, nonEmptyString_again hstated]; rfl, rfl⟩

theorem mapItems_settled {f : Nat → JsonValue ν → Except OkfDocumentError (JsonValue ν)}
    (hf : ∀ index, Settled (f index)) {items items' : List (JsonValue ν)} {index : Nat}
    (h : mapItems f index items = .ok items') :
    mapItems f index items' = .ok items' ∧ shapeItems items' = shapeItems items ∧ items'.length = items.length := by
  induction items generalizing items' index with
  | nil =>
    cases h
    exact ⟨rfl, rfl, rfl⟩
  | cons item items ih =>
    obtain ⟨item', hitem, h⟩ := bind_ok h
    obtain ⟨rest, hrest, h⟩ := bind_ok h
    cases h
    obtain ⟨hagain, hshape⟩ := hf index item item' hitem
    obtain ⟨hagain', hshape', hlength⟩ := ih hrest
    refine ⟨?_, by rw [shapeItems, shapeItems, hshape, hshape'], by rw [length_cons, length_cons, hlength]⟩
    rw [mapItems, hagain]
    simp only [bind, Except.bind, hagain']
    rfl

theorem tagsField_settled : Settled (tagsField (ν := ν)) := by
  intro value value' h
  unfold tagsField fail at h
  split at h
  · rename_i items
    split at h
    · cases h
    · rename_i hlength
      obtain ⟨tags, htags, h⟩ := bind_ok h
      cases h
      obtain ⟨hagain, hshape, hsame⟩ := mapItems_settled
        (fun index => textField_settled (indexed "tags" index) 255 "INVALID_TAGS") htags
      refine ⟨?_, by rw [shape, shape, hshape]⟩
      rw [tagsField, hsame, if_neg hlength]
      unfold textField at hagain
      rw [hagain]
      rfl
  · cases h

theorem statusField_settled : Settled (statusField (ν := ν)) := by
  intro value value' h
  unfold statusField fail at h
  split at h
  · split at h
    · rename_i hstatus
      cases h
      exact ⟨by rw [statusField, if_pos hstatus], rfl⟩
    · cases h
  · cases h

theorem timestampOnly_ok {text text' : JsString} {field code : String} (h : timestampOnly text field code = .ok text') :
    text' = text ∧ isOkfTimestamp text = true := by
  unfold timestampOnly fail at h
  split at h
  · cases h
    exact ⟨rfl, ‹_›⟩
  · cases h

theorem at_ne_by : js "at" ≠ js "by" := by decide

theorem actorEvent_settled (field code : String) : Settled fun value : JsonValue ν => actorEvent value field code := by
  intro value value' h
  change actorEvent value field code = .ok value' at h
  unfold actorEvent fail at h
  split at h
  · rename_i entries
    obtain ⟨by_, hby, h⟩ := bind_ok h
    obtain ⟨given, hgiven, -, hstated⟩ := nonEmptyString_ok hby
    have hagain := nonEmptyString_again (ν := ν) hstated (field ++ ".by") code
    have hshape := shapeEntries_assign (.string by_) hgiven rfl
    split at h
    · rename_i hat
      cases h
      refine ⟨?_, by rw [shape, shape, hshape]⟩
      simp only [actorEvent, property_assign, property_assign_ne at_ne_by, hat, hagain, bind, Except.bind]
      rw [assign_property (property_assign _ _ _)]
      rfl
    · rename_i value hat
      obtain ⟨text, htext, h⟩ := bind_ok h
      obtain ⟨at_, hat_, h⟩ := bind_ok h
      cases h
      obtain ⟨givenAt, hgivenAt, -, hstatedAt⟩ := nonEmptyString_ok htext
      obtain ⟨rfl, htimestamp⟩ := timestampOnly_ok hat_
      have hagainAt := nonEmptyString_again (ν := ν) hstatedAt (field ++ ".at") code
      have hbyLater := (property_assign_ne at_ne_by.symm (.string at_) (assign (js "by") (.string by_) entries)).trans
        (property_assign (js "by") (.string by_) entries)
      have hshapeAt := shapeEntries_assign (.string at_)
        ((property_assign_ne at_ne_by (.string by_) entries).trans hat) (by rw [Option.some.inj hgivenAt]; rfl)
      refine ⟨?_, by rw [shape, shape, hshapeAt, hshape]⟩
      simp only [actorEvent, property_assign, hbyLater, hagain, hagainAt, timestampOnly, if_pos htimestamp, bind,
        Except.bind]
      rw [assign_property hbyLater, assign_property (property_assign _ _ _)]
      rfl
  · cases h

theorem actorEvent_object {value value' : JsonValue ν} {field code : String}
    (h : actorEvent value field code = .ok value') : ∃ entries, value' = .object entries := by
  unfold actorEvent fail at h
  split at h
  · obtain ⟨by_, -, h⟩ := bind_ok h
    split at h
    · cases h
      exact ⟨_, rfl⟩
    · obtain ⟨text, -, h⟩ := bind_ok h
      obtain ⟨at_, -, h⟩ := bind_ok h
      cases h
      exact ⟨_, rfl⟩
  · cases h

theorem verifiedField_settled : Settled (verifiedField (ν := ν)) := by
  intro value value' h
  unfold verifiedField fail at h
  split at h
  · rename_i items
    split at h
    · cases h
    · rename_i hlength
      obtain ⟨events, hevents, h⟩ := bind_ok h
      cases h
      obtain ⟨hagain, hshape, hsame⟩ := mapItems_settled
        (fun index => actorEvent_settled (indexed "verified" index) "INVALID_VERIFIED") hevents
      refine ⟨?_, by rw [shape, shape, hshape]⟩
      rw [verifiedField, hsame, if_neg hlength, hagain]
      rfl
  · obtain ⟨hagain, hshape⟩ := actorEvent_settled _ _ _ _ h
    obtain ⟨entries, rfl⟩ := actorEvent_object h
    exact ⟨hagain, hshape⟩

theorem staleAfterField_settled : Settled (staleAfterField (ν := ν)) := by
  intro value value' h
  unfold staleAfterField at h
  obtain ⟨text, htext, h⟩ := bind_ok h
  obtain ⟨text', htimestamp, h⟩ := bind_ok h
  cases h
  obtain ⟨given, hgiven, -, hstated⟩ := nonEmptyString_ok htext
  obtain ⟨rfl, hvalid⟩ := timestampOnly_ok htimestamp
  cases hgiven
  refine ⟨?_, rfl⟩
  simp only [staleAfterField, nonEmptyString_again hstated, timestampOnly, if_pos hvalid, bind, Except.bind]
  rfl

/-- What a check of some fields of an object leaves. -/
structure Kept (keys : List JsString) (entries entries' : Entries ν) : Prop where
  sameShape : shapeEntries entries' = shapeEntries entries
  others : ∀ key, key ∉ keys → property key entries' = property key entries
  absent : ∀ key, property key entries = none → property key entries' = none

theorem kept_assign {key : JsString} {value : JsonValue ν} (value' : JsonValue ν) {entries : Entries ν}
    (h : property key entries = some value) (hshape : shape value' = shape value) :
    Kept [key] entries (assign key value' entries) where
  sameShape := shapeEntries_assign value' h hshape
  others other hother := property_assign_ne (by simpa using hother) value' entries
  absent other hother := by
    by_cases heq : other = key
    · rw [heq, h] at hother
      cases hother
    · rw [property_assign_ne heq, hother]

theorem stringField_ok {key : JsString} {field code : String} {maximum : Nat} {entries entries' : Entries ν}
    (h : stringField key field maximum code entries = .ok entries') :
    Kept [key] entries entries' ∧ stringField key field maximum code entries' = .ok entries' := by
  unfold stringField at h
  split at h
  · rename_i hkey
    cases h
    refine ⟨⟨rfl, fun _ _ => rfl, fun _ h => h⟩, ?_⟩
    rw [stringField, hkey]
  · rename_i value hkey
    obtain ⟨text, htext, h⟩ := bind_ok h
    cases h
    obtain ⟨given, hgiven, -, hstated⟩ := nonEmptyString_ok htext
    refine ⟨kept_assign (.string text) hkey (by rw [Option.some.inj hgiven]; rfl), ?_⟩
    simp only [stringField, property_assign, nonEmptyString_again hstated, bind, Except.bind]
    rw [assign_property (property_assign _ _ _)]
    rfl

/-- A field is checked as before where its value is. -/
theorem stringField_same {key : JsString} {field code : String} {maximum : Nat} {entries others : Entries ν}
    (hsame : property key others = property key entries)
    (h : stringField key field maximum code entries = .ok entries) :
    stringField key field maximum code others = .ok others := by
  unfold stringField at h ⊢
  rw [hsame]
  split at h
  · rfl
  · rename_i value hkey
    obtain ⟨text, htext, h⟩ := bind_ok h
    have hvalue : value = .string text := by
      have hread := congrArg (property key) (Except.ok.inj h)
      rw [property_assign, hkey] at hread
      exact (Option.some.inj hread).symm
    simp only [htext, bind, Except.bind, pure, Except.pure]
    rw [assign_property (hsame.trans (hkey.trans (congrArg some hvalue)))]

theorem source_keys : js "id" ≠ js "resource" ∧ js "title" ≠ js "resource" ∧ js "title" ≠ js "id" := by
  decide

theorem sourceItem_settled (index : Nat) : Settled (sourceItem (ν := ν) index) := by
  intro value value' h
  unfold sourceItem fail at h
  split at h
  · rename_i entries
    obtain ⟨resource, hresource, h⟩ := bind_ok h
    obtain ⟨given, hgiven, -, hstated⟩ := nonEmptyString_ok hresource
    have hkept := kept_assign (.string resource) hgiven rfl
    obtain ⟨entries₁, hid, h⟩ := bind_ok h
    obtain ⟨entries₂, htitle, h⟩ := bind_ok h
    cases h
    obtain ⟨hkeptId, hagainId⟩ := stringField_ok hid
    obtain ⟨hkeptTitle, hagainTitle⟩ := stringField_ok htitle
    obtain ⟨hid_resource, htitle_resource, htitle_id⟩ := source_keys
    have hproperty : property (js "resource") entries₂ = some (.string resource) := by
      rw [hkeptTitle.others _ (by simpa using htitle_resource.symm), hkeptId.others _ (by simpa using hid_resource.symm),
        property_assign]
    have hagainId' := stringField_same (hkeptTitle.others (js "id") (by simpa using htitle_id.symm)) hagainId
    refine ⟨?_, by rw [shape, shape, hkeptTitle.sameShape, hkeptId.sameShape, hkept.sameShape]⟩
    simp only [sourceItem, hproperty, nonEmptyString_again hstated, assign_property hproperty, hagainId', hagainTitle,
      bind, Except.bind, pure, Except.pure]
  · cases h

theorem sourcesField_settled : Settled (sourcesField (ν := ν)) := by
  intro value value' h
  unfold sourcesField fail at h
  split at h
  · rename_i items
    split at h
    · cases h
    · rename_i hlength
      obtain ⟨sources, hsources, h⟩ := bind_ok h
      cases h
      obtain ⟨hagain, hshape, hsame⟩ := mapItems_settled sourceItem_settled hsources
      refine ⟨?_, by rw [shape, shape, hshape]⟩
      rw [sourcesField, hsame, if_neg hlength, hagain]
      rfl
  · cases h

/-! ## The fields -/

theorem fields_settled : ∀ field ∈ fields (ν := ν), Settled field.2 := by
  intro field hfield
  simp only [fields, mem_cons, not_mem_nil, or_false] at hfield
  rcases hfield with rfl | rfl | rfl | rfl | rfl | rfl | rfl | rfl | rfl | rfl
  · exact textField_settled _ _ _
  · exact textField_settled _ _ _
  · exact textField_settled _ _ _
  · exact textField_settled _ _ _
  · exact tagsField_settled
  · exact statusField_settled
  · exact actorEvent_settled _ _
  · exact verifiedField_settled
  · exact staleAfterField_settled
  · exact sourcesField_settled

def fieldKeys : List JsString :=
  [js "type", js "title", js "description", js "resource", js "tags", js "status", js "generated", js "verified",
    js "stale_after", js "sources"]

theorem fields_keys : (fields (ν := ν)).map (·.1) = fieldKeys := rfl

theorem fieldKeys_nodup : fieldKeys.Nodup := by decide

/-- Every field that is there has passed its own check, and the other properties are as they were. -/
structure Checked (checks : List (JsString × (JsonValue ν → Except OkfDocumentError (JsonValue ν))))
    (entries entries' : Entries ν) : Prop where
  kept : Kept (checks.map (·.1)) entries entries'
  passed : ∀ field ∈ checks, ∀ value, property field.1 entries = some value →
    ∃ value', field.2 value = .ok value' ∧ property field.1 entries' = some value'

theorem checkFields_ok {checks : List (JsString × (JsonValue ν → Except OkfDocumentError (JsonValue ν)))}
    (hsettled : ∀ field ∈ checks, Settled field.2) (hnodup : (checks.map (·.1)).Nodup) {entries entries' : Entries ν}
    (h : checkFields checks entries = .ok entries') : Checked checks entries entries' := by
  induction checks generalizing entries with
  | nil =>
    cases h
    exact ⟨⟨rfl, fun _ _ => rfl, fun _ h => h⟩, fun _ hfield => by cases hfield⟩
  | cons field rest ih =>
    obtain ⟨key, check⟩ := field
    have hrest := fun field hfield => hsettled field (mem_cons_of_mem _ hfield)
    obtain ⟨hkey, hnodup⟩ := nodup_cons.mp hnodup
    unfold checkFields at h
    split at h
    · rename_i hmissing
      have hchecked := ih hrest hnodup h
      refine ⟨⟨hchecked.kept.sameShape, ?_, hchecked.kept.absent⟩, ?_⟩
      · exact fun other hother => hchecked.kept.others other fun hmem => hother (mem_cons_of_mem _ hmem)
      · intro field hfield value hvalue
        rcases mem_cons.mp hfield with rfl | hfield
        · rw [hmissing] at hvalue
          cases hvalue
        · exact hchecked.passed field hfield value hvalue
    · rename_i given hgiven
      obtain ⟨value, hvalue, h⟩ := bind_ok h
      have hshape := (hsettled (key, check) mem_cons_self given value hvalue).2
      have hassign := kept_assign value hgiven hshape
      have hchecked := ih hrest hnodup h
      refine ⟨⟨hchecked.kept.sameShape.trans hassign.sameShape, ?_, ?_⟩, ?_⟩
      · intro other hother
        obtain ⟨hne, hother⟩ := not_or.mp (mt mem_cons.mpr hother)
        exact (hchecked.kept.others other hother).trans (hassign.others other (by simpa using hne))
      · exact fun other hother => hchecked.kept.absent other (hassign.absent other hother)
      · intro field hfield other hother
        rcases mem_cons.mp hfield with rfl | hfield
        · rw [Option.some.inj (hgiven.symm.trans hother)] at hvalue
          exact ⟨value, hvalue, (hchecked.kept.others key hkey).trans (property_assign _ _ _)⟩
        · have hne : field.1 ≠ key := fun heq => hkey (mem_map.mpr ⟨field, hfield, heq⟩)
          exact hchecked.passed field hfield other ((hassign.others field.1 (by simpa using hne)).trans hother)

/-- Where every field passes as it is, nothing is written. -/
theorem checkFields_same {checks : List (JsString × (JsonValue ν → Except OkfDocumentError (JsonValue ν)))}
    {entries : Entries ν} (h : ∀ field ∈ checks, ∀ value, property field.1 entries = some value →
      field.2 value = .ok value) : checkFields checks entries = .ok entries := by
  induction checks with
  | nil => rfl
  | cons field rest ih =>
    obtain ⟨key, check⟩ := field
    have hrest := ih fun field hfield => h field (mem_cons_of_mem _ hfield)
    unfold checkFields
    split
    · exact hrest
    · rename_i value hvalue
      have hcheck : check value = .ok value := h (key, check) mem_cons_self value hvalue
      simp only [hcheck, bind, Except.bind, assign_property hvalue, hrest]

/-- What `validateMetadata` keeps. -/
theorem validateMetadata_ok {frontmatterBytes : Entries ν → Nat} {value : JsonValue ν} {metadata : Entries ν}
    (h : validateMetadata frontmatterBytes value = .ok metadata) : ∃ entries nodes, value = .object entries ∧
    assertJsonTree (.object entries) = .ok nodes ∧ (property (js "type") entries).isSome ∧
    Checked fields entries metadata ∧ frontmatterBytes metadata ≤ MAX_FRONTMATTER_BYTES := by
  unfold validateMetadata fail at h
  split at h
  · rename_i entries
    obtain ⟨nodes, htree, h⟩ := bind_ok h
    split at h
    · cases h
    · rename_i htype
      obtain ⟨checked, hchecked, h⟩ := bind_ok h
      split at h
      · cases h
      · rename_i hbytes
        cases h
        exact ⟨entries, nodes, rfl, htree, by simpa [Option.isSome_iff_ne_none] using htype,
          checkFields_ok fields_settled (fields_keys ▸ fieldKeys_nodup) hchecked, not_lt.mp hbytes⟩
  · cases h

/-- **Validated once.** Metadata that was validated is valid as it is. -/
theorem validate_again {frontmatterBytes : Entries ν → Nat} {value : JsonValue ν} {metadata : Entries ν}
    (h : validateMetadata frontmatterBytes value = .ok metadata) :
    validateMetadata frontmatterBytes (.object metadata) = .ok metadata := by
  obtain ⟨entries, nodes, -, htree, htype, hchecked, hbytes⟩ := validateMetadata_ok h
  have hsame : checkFields fields metadata = .ok metadata := by
    refine checkFields_same fun field hfield value' hvalue' => ?_
    cases hvalue : property field.1 entries with
    | none =>
      rw [hchecked.kept.absent _ hvalue] at hvalue'
      cases hvalue'
    | some value =>
      obtain ⟨checked, hcheck, hproperty⟩ := hchecked.passed field hfield value hvalue
      rw [Option.some.inj (hvalue'.symm.trans hproperty)]
      exact (fields_settled field hfield value checked hcheck).1
  have htree' : assertJsonTree (.object metadata) = .ok nodes := by
    rw [← htree, assertJsonTree, assertJsonTree, ← visit_shape, ← visit_shape (.object entries), shape, shape,
      hchecked.kept.sameShape]
  have htype' : (property (js "type") metadata).isNone = false := by
    obtain ⟨value, hvalue⟩ := Option.isSome_iff_exists.mp htype
    obtain ⟨checked, -, hproperty⟩ := hchecked.passed (js "type", textField "type" 128 "INVALID_TYPE")
      (by simp [fields]) value hvalue
    rw [hproperty]
    rfl
  simp only [validateMetadata, htree', htype', hsame, bind, Except.bind, pure, Except.pure]
  rw [if_neg (by simp), if_neg (not_lt.mpr hbytes)]

end

end TsEpistle.Okf
