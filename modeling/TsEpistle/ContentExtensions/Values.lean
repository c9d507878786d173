import TsEpistle.Json.Canonical

/-! Values as a content extension is checked in, and what JSON makes of them
(`shared/content-extensions.ts`). -/

namespace TsEpistle.ContentExtensions
open Library Json List

/-- A number. JSON knows finite ones only, and writes -0 as 0. -/
inductive Number (ν : Type)
  | finite (value : ν)
  | negativeZero
  | other

/-- A value. Arrays are dense, objects have the properties of their own, in the order of insertion;
functions, symbols and the like are `other`. -/
inductive Value (ν : Type)
  | undefined
  | null
  | boolean (value : Bool)
  | number (value : Number ν)
  | string (value : JsString)
  | array (items : List (Value ν))
  | object (entries : List (JsString × Value ν))
  | other

/-- Finite numbers but -0: their texts, whole numbers and comparisons with these. -/
structure Arithmetic (ν : Type) extends Numbers ν where
  faithful : toNumbers.Faithful
  whole : Int → ν
  integer : ν → Option Int
  within : ν → Int → Int → Bool
  integer_whole (n : Int) (h : n.natAbs < 2 ^ 53) : integer (whole n) = some n
  within_whole (n minimum maximum : Int) (h : n.natAbs < 2 ^ 53) :
    within (whole n) minimum maximum = (decide (minimum ≤ n) && decide (n ≤ maximum))

variable {ν : Type}

def Value.isUndefined : Value ν → Bool
  | .undefined => true
  | _ => false

/-- `value ?? fallback`. -/
def Value.orElse (value fallback : Value ν) : Value ν :=
  match value with
  | .undefined => fallback
  | .null => fallback
  | value => value

/-- A property of an object. -/
def property (entries : List (JsString × Value ν)) (key : JsString) : Value ν :=
  (entries.lookup key).getD .undefined

/-- An object whose undefined properties are left out. -/
def record (fields : List (JsString × Value ν)) : Value ν :=
  .object (fields.filter fun field => !field.2.isUndefined)

section
variable (arithmetic : Arithmetic ν)

/-! ## -0 -/

def Number.unsigned : Number ν → Number ν
  | .negativeZero => .finite (arithmetic.whole 0)
  | value => value

mutual
/-- The value with 0 for -0. -/
def Value.unsigned : Value ν → Value ν
  | .number value => .number (value.unsigned arithmetic)
  | .array items => .array (unsignedItems items)
  | .object entries => .object (unsignedEntries entries)
  | value => value

def unsignedItems : List (Value ν) → List (Value ν)
  | [] => []
  | item :: items => item.unsigned :: unsignedItems items

def unsignedEntries : List (JsString × Value ν) → List (JsString × Value ν)
  | [] => []
  | (key, value) :: entries => (key, value.unsigned) :: unsignedEntries entries
end

theorem unsignedItems_eq (items : List (Value ν)) :
    unsignedItems arithmetic items = items.map (Value.unsigned arithmetic) := by
  induction items with
  | nil => rfl
  | cons item items ih => rw [unsignedItems, ih, map_cons]

theorem unsignedEntries_eq (entries : List (JsString × Value ν)) :
    unsignedEntries arithmetic entries = entries.map (onValue (Value.unsigned arithmetic)) := by
  induction entries with
  | nil => rfl
  | cons entry entries ih =>
    rw [unsignedEntries, ih, map_cons]
    rfl

/-! ## JSON -/

mutual
/-- What `JSON.stringify` writes. -/
def toJson : Value ν → JsonValue ν
  | .undefined => .null
  | .null => .null
  | .boolean value => .boolean value
  | .number (.finite value) => .number value
  | .number .negativeZero => .number (arithmetic.whole 0)
  | .number .other => .null
  | .string value => .string value
  | .array items => .array (toJsonItems items)
  | .object entries => .object (toJsonEntries entries)
  | .other => .null

def toJsonItems : List (Value ν) → List (JsonValue ν)
  | [] => []
  | item :: items => toJson item :: toJsonItems items

/-- Undefined properties are left out, and so are those of other types. -/
def toJsonEntries : List (JsString × Value ν) → List (JsString × JsonValue ν)
  | [] => []
  | (_, .undefined) :: entries => toJsonEntries entries
  | (_, .other) :: entries => toJsonEntries entries
  | (key, value) :: entries => (key, toJson value) :: toJsonEntries entries
end

mutual
/-- The value that `JSON.parse` makes. A text with -0, which is never written, would give -0 and not 0. -/
def ofJson : JsonValue ν → Value ν
  | .null => .null
  | .boolean value => .boolean value
  | .number value => .number (.finite value)
  | .string value => .string value
  | .array items => .array (ofJsonItems items)
  | .object entries => .object (ofJsonEntries entries)

def ofJsonItems : List (JsonValue ν) → List (Value ν)
  | [] => []
  | item :: items => ofJson item :: ofJsonItems items

def ofJsonEntries : List (JsString × JsonValue ν) → List (JsString × Value ν)
  | [] => []
  | (key, value) :: entries => (key, ofJson value) :: ofJsonEntries entries
end

/-- Values that JSON can tell: no property is undefined and none comes twice. -/
inductive Plain : Value ν → Prop
  | null : Plain .null
  | boolean (value : Bool) : Plain (.boolean value)
  | finite (value : ν) : Plain (.number (.finite value))
  | negativeZero : Plain (.number .negativeZero)
  | string (value : JsString) : Plain (.string value)
  | array {items : List (Value ν)} (h : ∀ item ∈ items, Plain item) : Plain (.array items)
  | object {entries : List (JsString × Value ν)} (hkeys : (entries.map (·.1)).Nodup)
      (h : ∀ entry ∈ entries, Plain entry.2) : Plain (.object entries)

theorem toJsonItems_eq (items : List (Value ν)) : toJsonItems arithmetic items = items.map (toJson arithmetic) := by
  induction items with
  | nil => rfl
  | cons item items ih => rw [toJsonItems, ih, map_cons]

theorem ofJsonItems_eq (items : List (JsonValue ν)) : ofJsonItems items = items.map ofJson := by
  induction items with
  | nil => rfl
  | cons item items ih => rw [ofJsonItems, ih, map_cons]

theorem ofJsonEntries_eq (entries : List (JsString × JsonValue ν)) :
    ofJsonEntries entries = entries.map (onValue ofJson) := by
  induction entries with
  | nil => rfl
  | cons entry entries ih =>
    rw [ofJsonEntries, ih, map_cons]
    rfl

theorem toJsonEntries_eq {entries : List (JsString × Value ν)} (h : ∀ entry ∈ entries, Plain entry.2) :
    toJsonEntries arithmetic entries = entries.map (onValue (toJson arithmetic)) := by
  induction entries with
  | nil => rfl
  | cons entry entries ih =>
    obtain ⟨hentry, hentries⟩ := forall_mem_cons.mp h
    obtain ⟨key, value⟩ := entry
    rw [map_cons, ← ih hentries]
    cases hentry <;> rfl

/-- A copy through JSON. -/
theorem ofJson_toJson {value : Value ν} (h : Plain value) :
    ofJson (toJson arithmetic value) = value.unsigned arithmetic := by
  induction h with
  | null | boolean | finite | negativeZero | string => rfl
  | array h ih =>
    rw [toJson, ofJson, Value.unsigned, toJsonItems_eq, ofJsonItems_eq, unsignedItems_eq, map_map]
    exact congrArg Value.array (map_congr_left ih)
  | object hkeys h ih =>
    rw [toJson, ofJson, Value.unsigned, toJsonEntries_eq arithmetic h, ofJsonEntries_eq, unsignedEntries_eq, map_map]
    refine congrArg Value.object (map_congr_left fun entry hentry => ?_)
    exact Prod.ext rfl (ih entry hentry)

theorem toJson_ofJson (value : JsonValue ν) : toJson arithmetic (ofJson value) = value := by
  induction value using JsonValue.induct with
  | hnull | hboolean | hnumber | hstring => rfl
  | harray items ih =>
    rw [ofJson, toJson, ofJsonItems_eq, toJsonItems_eq, map_map]
    exact congrArg JsonValue.array ((map_congr_left ih).trans (map_id items))
  | hobject entries ih =>
    rw [ofJson, toJson]
    congr 1
    induction entries with
    | nil => rfl
    | cons entry entries ihentries =>
      obtain ⟨hentry, hentries⟩ := forall_mem_cons.mp ih
      obtain ⟨key, value⟩ := entry
      have hkept : toJsonEntries arithmetic (ofJsonEntries ((key, value) :: entries))
          = (key, toJson arithmetic (ofJson value)) :: toJsonEntries arithmetic (ofJsonEntries entries) := by
        cases value <;> rfl
      rw [hkept, hentry, ihentries hentries]

theorem valid_toJson {value : Value ν} (h : Plain value) : Valid (toJson arithmetic value) := by
  induction h with
  | null => exact .null
  | boolean value => exact .boolean value
  | finite value => exact .number value
  | negativeZero => exact .number _
  | string value => exact .string value
  | array h ih =>
    rw [toJson, toJsonItems_eq]
    refine .array fun item hitem => ?_
    obtain ⟨before, hbefore, rfl⟩ := mem_map.mp hitem
    exact ih before hbefore
  | object hkeys h ih =>
    rw [toJson, toJsonEntries_eq arithmetic h]
    refine .object ?_ fun entry hentry => ?_
    · rw [map_map]
      exact hkeys
    · obtain ⟨before, hbefore, rfl⟩ := mem_map.mp hentry
      exact ih before hbefore

end

end TsEpistle.ContentExtensions
