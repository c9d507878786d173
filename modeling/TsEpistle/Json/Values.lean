import TsEpistle.LinePatch.Source

/-! JSON values, their texts and `canonicalJson` (`server/helpers/canonical-json.ts`). -/

namespace TsEpistle.Json
open Library LinePatch

/-- A value that is written as JSON: an object has its properties in the order of insertion. Values of
other types, and objects with other prototypes, are refused. -/
inductive JsonValue (ν : Type)
  | null
  | boolean (value : Bool)
  | number (value : ν)
  | string (value : JsString)
  | array (items : List (JsonValue ν))
  | object (entries : List (JsString × JsonValue ν))

/-- Finite numbers, with -0 as 0, their texts and the reading of these. -/
structure Numbers (ν : Type) where
  text : ν → JsString
  read : JsString → Option ν

/-! ## Strings -/

def hexDigit (n : Nat) : UInt16 := if n < 10 then (48 + n).toUInt16 else (87 + n).toUInt16

def unicodeEscape (unit : UInt16) : JsString :=
  [92, 117, hexDigit (unit.toNat / 4096), hexDigit (unit.toNat / 256 % 16),
    hexDigit (unit.toNat / 16 % 16), hexDigit (unit.toNat % 16)]

def escapeUnit (unit : UInt16) : JsString :=
  if unit = 34 then [92, 34]
  else if unit = 92 then [92, 92]
  else if unit = 8 then [92, 98]
  else if unit = 12 then [92, 102]
  else if unit = 10 then [92, 110]
  else if unit = 13 then [92, 114]
  else if unit = 9 then [92, 116]
  else if unit < 32 || isHighSurrogate unit || isLowSurrogate unit then unicodeEscape unit
  else [unit]

/-- Only surrogates that stand alone are escaped. -/
def quoteBody : JsString → JsString
  | [] => []
  | [unit] => escapeUnit unit
  | unit :: next :: rest =>
    if isHighSurrogate unit && isLowSurrogate next then unit :: next :: quoteBody rest
    else escapeUnit unit ++ quoteBody (next :: rest)

/-- `JSON.stringify` of a string. -/
def quote (value : JsString) : JsString := 34 :: (quoteBody value ++ [34])

/-! ## Texts -/

section
variable {ν : Type} (numbers : Numbers ν)

def joinComma (texts : List JsString) : JsString := [44].intercalate texts

mutual
/-- `JSON.stringify` with the properties as they stand. -/
def write : JsonValue ν → JsString
  | .null => js "null"
  | .boolean value => if value then js "true" else js "false"
  | .number value => numbers.text value
  | .string value => quote value
  | .array items => 91 :: (joinComma (writeItems items) ++ [93])
  | .object entries => 123 :: (joinComma (writeEntries entries) ++ [125])

def writeItems : List (JsonValue ν) → List JsString
  | [] => []
  | item :: items => write item :: writeItems items

def writeEntries : List (JsString × JsonValue ν) → List JsString
  | [] => []
  | (key, value) :: entries => (quote key ++ 58 :: write value) :: writeEntries entries
end

/-! ## The order of properties -/

def isDigit (unit : UInt16) : Bool := 48 ≤ unit && unit ≤ 57

/-- The array index that a key is. -/
def indexOf (key : JsString) : Option Nat :=
  let value := key.foldl (fun value unit => value * 10 + (unit.toNat - 48)) 0
  if key ≠ [] && key.all isDigit && (key.head? ≠ some 48 || key.length = 1) && value < 2 ^ 32 - 1 then
    some value
  else none

/-- `Object.entries`: indices come first, in their order, then the other keys as they were
inserted. -/
def ownOrder {β : Type} (entries : List (JsString × β)) : List (JsString × β) :=
  (entries.filter fun entry => (indexOf entry.1).isSome).insertionSort
      (fun left right => (indexOf left.1).getD 0 ≤ (indexOf right.1).getD 0)
    ++ entries.filter fun entry => (indexOf entry.1).isNone

variable (localeCompare : JsString → JsString → Int)

/-- `sort` by the keys; it is stable. -/
def sortKeys {β : Type} (entries : List (JsString × β)) : List (JsString × β) :=
  entries.insertionSort fun left right => localeCompare left.1 right.1 ≤ 0

mutual
def canonicalJson : JsonValue ν → JsString
  | .null => js "null"
  | .boolean value => if value then js "true" else js "false"
  | .number value => numbers.text value
  | .string value => quote value
  | .array items => 91 :: (joinComma (canonicalItems items) ++ [93])
  | .object entries =>
    123 :: (joinComma ((sortKeys localeCompare (ownOrder (canonicalEntries entries))).map
      fun entry => quote entry.1 ++ 58 :: entry.2) ++ [125])

def canonicalItems : List (JsonValue ν) → List JsString
  | [] => []
  | item :: items => canonicalJson item :: canonicalItems items

/-- The values are written before the entries are sorted, which goes by the keys alone. -/
def canonicalEntries : List (JsString × JsonValue ν) → List (JsString × JsString)
  | [] => []
  | (key, value) :: entries => (key, canonicalJson value) :: canonicalEntries entries
end

/-! ## Reading -/

def hexValue (unit : UInt16) : Option Nat :=
  if 48 ≤ unit && unit ≤ 57 then some (unit.toNat - 48)
  else if 97 ≤ unit && unit ≤ 102 then some (unit.toNat - 87)
  else if 65 ≤ unit && unit ≤ 70 then some (unit.toNat - 55)
  else none

def hexUnit (a b c d : UInt16) : Option UInt16 := do
  let a ← hexValue a
  let b ← hexValue b
  let c ← hexValue c
  let d ← hexValue d
  return (a * 4096 + b * 256 + c * 16 + d).toUInt16

def simpleEscape (unit : UInt16) : Option UInt16 :=
  if unit = 34 then some 34
  else if unit = 92 then some 92
  else if unit = 47 then some 47
  else if unit = 98 then some 8
  else if unit = 102 then some 12
  else if unit = 110 then some 10
  else if unit = 114 then some 13
  else if unit = 116 then some 9
  else none

def prepend (unit : UInt16) (read : JsString × JsString) : JsString × JsString :=
  (unit :: read.1, read.2)

/-- A string behind its opening quotation mark, and what follows it. -/
def readString : JsString → Option (JsString × JsString)
  | [] => none
  | unit :: rest =>
    if unit = 34 then some ([], rest)
    else if unit = 92 then
      match rest with
      | [] => none
      | escape :: rest =>
        if escape = 117 then
          match rest with
          | a :: b :: c :: d :: rest =>
            match hexUnit a b c d with
            | some unit => (readString rest).map (prepend unit)
            | none => none
          | _ => none
        else
          match simpleEscape escape with
          | some unit => (readString rest).map (prepend unit)
          | none => none
    else if unit < 32 then none
    else (readString rest).map (prepend unit)

/-- What a number is written with. -/
def isNumeric (unit : UInt16) : Bool :=
  isDigit unit || unit = 43 || unit = 45 || unit = 46 || unit = 69 || unit = 101

/-- A key that comes again overrides. -/
def putEntry (entries : List (JsString × JsonValue ν)) (entry : JsString × JsonValue ν) :
    List (JsString × JsonValue ν) :=
  if entries.any (·.1 = entry.1) then
    entries.map fun other => if other.1 = entry.1 then entry else other
  else entries ++ [entry]

mutual
/-- A value at the start of a text without white space, and what follows it. -/
def readValue : Nat → JsString → Option (JsonValue ν × JsString)
  | 0, _ => none
  | steps + 1, text =>
    match text with
    | [] => none
    | unit :: rest =>
      if unit = 34 then (readString rest).map fun read => (.string read.1, read.2)
      else if unit = 91 then
        if rest.head? = some 93 then some (.array [], rest.tail)
        else (readItems steps rest).map fun read => (.array read.1, read.2)
      else if unit = 123 then
        if rest.head? = some 125 then some (.object [], rest.tail)
        else (readEntries steps rest).map fun read =>
          (.object (read.1.foldl putEntry []), read.2)
      else if (js "null").isPrefixOf text then some (.null, text.drop 4)
      else if (js "true").isPrefixOf text then some (.boolean true, text.drop 4)
      else if (js "false").isPrefixOf text then some (.boolean false, text.drop 5)
      else (numbers.read (text.takeWhile isNumeric)).map fun value =>
        (.number value, text.dropWhile isNumeric)

/-- Items up to the closing bracket. -/
def readItems : Nat → JsString → Option (List (JsonValue ν) × JsString)
  | 0, _ => none
  | steps + 1, text => do
      let (item, text) ← readValue steps text
      match text with
      | [] => none
      | unit :: text =>
        if unit = 93 then some ([item], text)
        else if unit = 44 then (readItems steps text).map fun read => (item :: read.1, read.2)
        else none

/-- Properties up to the closing brace. -/
def readEntries : Nat → JsString → Option (List (JsString × JsonValue ν) × JsString)
  | 0, _ => none
  | steps + 1, text => do
      if text.head? ≠ some 34 then none
      else
        let (key, text) ← readString text.tail
        if text.head? ≠ some 58 then none
        else
          let (value, text) ← readValue steps text.tail
          match text with
          | [] => none
          | unit :: text =>
            if unit = 125 then some ([(key, value)], text)
            else if unit = 44 then
              (readEntries steps text).map fun read => ((key, value) :: read.1, read.2)
            else none
end

/-- `JSON.parse` of a text without white space. -/
def parse (text : JsString) : Option (JsonValue ν) :=
  match readValue numbers text.length text with
  | some (value, []) => some value
  | _ => none

end

end TsEpistle.Json
