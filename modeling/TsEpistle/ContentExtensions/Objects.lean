import TsEpistle.ContentExtensions.Checks

/-! Objects of content extensions: their properties are read one after another, and unknown ones are
refused (`shared/content-extensions.ts`). -/

namespace TsEpistle.ContentExtensions
open Library Json List

variable {ν α β γ : Type} {arithmetic : Arithmetic ν}

/-! ## Properties -/

theorem property_filter {fields : List (JsString × Value ν)} (hkeys : (fields.map (·.1)).Nodup)
    {field : JsString × Value ν} (h : field ∈ fields) :
    property (fields.filter fun field => !field.2.isUndefined) field.1 = field.2 := by
  induction fields with
  | nil => cases h
  | cons other fields ih =>
    rw [map_cons, nodup_cons] at hkeys
    have hmissing : field ∈ fields → other.1 ≠ field.1 := by
      intro hmem hsame
      exact hkeys.1 (hsame ▸ mem_map_of_mem hmem)
    rcases mem_cons.mp h with rfl | h
    · cases hundefined : field.2.isUndefined with
      | false =>
        rw [filter_cons_of_pos (by simp [hundefined]), property, lookup_cons_self]
        rfl
      | true =>
        have hlookup : (fields.filter fun field => !field.2.isUndefined).lookup field.1 = none := by
          refine lookup_eq_none_iff.mpr fun other hother => ?_
          have hmem := mem_map_of_mem (f := (·.1)) (mem_of_mem_filter hother)
          rw [bne_iff_ne]
          rintro hsame
          exact hkeys.1 (hsame ▸ hmem)
        rw [filter_cons_of_neg (by simp [hundefined]), property, hlookup]
        cases hvalue : field.2 with
        | undefined => rfl
        | _ => rw [hvalue] at hundefined; cases hundefined
    · have hne : (field.1 == other.1) = false := by
        rw [beq_eq_false_iff_ne]
        exact fun hsame => hmissing h hsame.symm
      by_cases hundefined : other.2.isUndefined = true
      · rw [filter_cons_of_neg (by simp [hundefined])]
        exact ih hkeys.2 h
      · rw [filter_cons_of_pos (by simp [hundefined])]
        have hrest := ih hkeys.2 h
        unfold property at hrest ⊢
        rw [lookup_cons, hne]
        exact hrest

/-- Some properties of an object: which these are, and how they are read and written. -/
structure Fields (arithmetic : Arithmetic ν) (α : Type) where
  keys : List JsString
  read : (JsString → Value ν) → Except JsString α
  write : α → List (JsString × Value ν)
  unsigned : α → α
  keys_write (a : α) : (write a).map (·.1) = keys
  read_write (a : α) (get : JsString → Value ν) (h : ∀ field ∈ write a, get field.1 = field.2) : read get = .ok a
  write_unsigned (a : α) : (write a).map (onValue (Value.unsigned arithmetic)) = write (unsigned a)
  plain (a : α) : ∀ field ∈ write a, field.2.isUndefined = false → Plain field.2

/-- One property. -/
def field (key : JsString) (codec : Codec arithmetic α) : Fields arithmetic α where
  keys := [key]
  read get := codec.read (get key)
  write a := [(key, codec.write a)]
  unsigned := codec.unsigned
  keys_write _ := rfl
  read_write a get h := by rw [h _ mem_cons_self, codec.read_write]
  write_unsigned a := by rw [map_singleton, onValue, codec.write_unsigned]
  plain a := by
    intro field hfield
    rw [mem_singleton.mp hfield]
    exact codec.plain a

/-- Properties that follow others. -/
def Fields.and (first : Fields arithmetic α) (second : Fields arithmetic β) : Fields arithmetic (α × β) where
  keys := first.keys ++ second.keys
  read get := do
    let a ← first.read get
    let b ← second.read get
    return (a, b)
  write pair := first.write pair.1 ++ second.write pair.2
  unsigned pair := (first.unsigned pair.1, second.unsigned pair.2)
  keys_write pair := by rw [map_append, first.keys_write, second.keys_write]
  read_write pair get h := by
    rw [forall_mem_append] at h
    rw [first.read_write pair.1 get h.1, second.read_write pair.2 get h.2]
    rfl
  write_unsigned pair := by rw [map_append, first.write_unsigned, second.write_unsigned]
  plain pair := forall_mem_append.mpr ⟨first.plain pair.1, second.plain pair.2⟩

/-- The same properties, of which those that are written last are read first. -/
def Fields.readLast (first : Fields arithmetic α) (second : Fields arithmetic β) : Fields arithmetic (α × β) :=
  { first.and second with
    read := fun get => do
      let b ← second.read get
      let a ← first.read get
      return (a, b)
    read_write := fun pair get h => by
      replace h := forall_mem_append.mp h
      rw [first.read_write pair.1 get h.1, second.read_write pair.2 get h.2]
      rfl }

/-- A further check of what was read. -/
def Fields.via (fields : Fields arithmetic α) (decode : α → Except JsString β) (encode : β → α) (unsigned : β → β)
    (hdecode : ∀ b, decode (encode b) = .ok b) (hunsigned : ∀ b, fields.unsigned (encode b) = encode (unsigned b)) :
    Fields arithmetic β where
  keys := fields.keys
  read get := do
    let a ← fields.read get
    decode a
  write b := fields.write (encode b)
  unsigned := unsigned
  keys_write b := fields.keys_write (encode b)
  read_write b get h := by
    rw [fields.read_write (encode b) get h]
    exact hdecode b
  write_unsigned b := by rw [fields.write_unsigned, hunsigned]
  plain b := fields.plain (encode b)

/-- The properties under names of their own. -/
def Fields.named (fields : Fields arithmetic α) (make : α → β) (parts : β → α) (hmake : ∀ b, make (parts b) = b)
    (hparts : ∀ a, parts (make a) = a) : Fields arithmetic β :=
  fields.via (fun a => .ok (make a)) parts (fun b => make (fields.unsigned (parts b)))
    (fun b => congrArg Except.ok (hmake b)) fun _ => (hparts _).symm

/-! ## Objects -/

def requireJsonObject (value : Value ν) (path : JsString) : Except JsString (List (JsString × Value ν)) :=
  match value with
  | .object entries => .ok entries
  | _ => .error (path ++ js " must be an object.")

/-- The first unknown key is named. -/
def rejectUnknownProperties (entries : List (JsString × Value ν)) (allowed : List JsString) (path : JsString) :
    Except JsString Unit :=
  match (ownOrder entries).find? fun entry => !allowed.contains entry.1 with
  | some entry => .error (path ++ js " contains unknown property \"" ++ entry.1 ++ js "\".")
  | none => .ok ()

theorem rejectUnknownProperties_ok {entries : List (JsString × Value ν)} {allowed : List JsString}
    (h : ∀ entry ∈ entries, entry.1 ∈ allowed) (path : JsString) :
    rejectUnknownProperties entries allowed path = .ok () := by
  have hnone : ((ownOrder entries).find? fun entry => !allowed.contains entry.1) = none := by
    rw [find?_eq_none]
    intro entry hentry
    simpa using h entry ((ownOrder_perm entries).mem_iff.mp hentry)
  rw [rejectUnknownProperties, hnone]

def readObject (fields : Fields arithmetic α) (allowed : List JsString) (path : JsString) (value : Value ν) :
    Except JsString α := do
  let entries ← requireJsonObject value path
  rejectUnknownProperties entries allowed path
  fields.read (property entries)

theorem readObject_record (fields : Fields arithmetic α) (hkeys : fields.keys.Nodup) (path : JsString) (a : α) :
    readObject fields fields.keys path (record (fields.write a)) = .ok a := by
  have hwritten := fields.keys_write a
  have hknown : ∀ entry ∈ (fields.write a).filter (fun field => !field.2.isUndefined), entry.1 ∈ fields.keys := by
    intro entry hentry
    rw [← hwritten]
    exact mem_map_of_mem (mem_of_mem_filter hentry)
  have hread := fields.read_write a (property ((fields.write a).filter fun field => !field.2.isUndefined))
    fun field hfield => property_filter (hwritten ▸ hkeys) hfield
  unfold readObject record requireJsonObject
  simp only [bind, Except.bind, rejectUnknownProperties_ok hknown]
  exact hread

theorem isUndefined_unsigned (value : Value ν) : (value.unsigned arithmetic).isUndefined = value.isUndefined := by
  cases value <;> rfl

theorem record_unsigned (fields : List (JsString × Value ν)) :
    (record fields).unsigned arithmetic = record (fields.map (onValue (Value.unsigned arithmetic))) := by
  rw [record, Value.unsigned, unsignedEntries_eq, record, filter_map]
  refine congrArg Value.object (congrArg (List.map _) (filter_congr fun field _ => ?_))
  exact congrArg Bool.not (isUndefined_unsigned field.2).symm

theorem plain_record {fields : List (JsString × Value ν)} (hkeys : (fields.map (·.1)).Nodup)
    (h : ∀ field ∈ fields, field.2.isUndefined = false → Plain field.2) : Plain (record fields) := by
  refine .object (hkeys.sublist (filter_sublist.map _)) fun field hfield => ?_
  obtain ⟨hmem, hdefined⟩ := mem_filter.mp hfield
  exact h field hmem (by simpa using hdefined)

/-- An object with the allowed properties. -/
def object (path : JsString) (allowed : List JsString) (fields : Fields arithmetic α) (hallowed : fields.keys = allowed)
    (hkeys : allowed.Nodup) : Codec arithmetic α where
  read := readObject fields allowed path
  write a := record (fields.write a)
  unsigned := fields.unsigned
  read_write := hallowed ▸ readObject_record fields (hallowed ▸ hkeys) path
  write_unsigned a := by rw [record_unsigned, fields.write_unsigned]
  plain a _ := plain_record (by rwa [fields.keys_write, hallowed]) (fields.plain a)

end TsEpistle.ContentExtensions
