import TsEpistle.ContentExtensions.Values
import TsEpistle.Library.Decimal
import TsEpistle.Library.Checked

/-! The checks that content extensions share (`shared/content-extensions.ts`). Each comes with the way its
result is written, and reads what it has written. -/

namespace TsEpistle.ContentExtensions
open Library Checked Json List

variable {ν α β : Type} (arithmetic : Arithmetic ν)

/-- A check and the values of its results. -/
structure Codec (α : Type) where
  read : Value ν → Except JsString α
  write : α → Value ν
  unsigned : α → α
  read_write (a : α) : read (write a) = .ok a
  write_unsigned (a : α) : (write a).unsigned arithmetic = write (unsigned a)
  plain (a : α) : (write a).isUndefined = false → Plain (write a)

variable {arithmetic}

/-- Nothing is written as undefined. -/
def Codec.Defined (codec : Codec arithmetic α) : Prop := ∀ a, (codec.write a).isUndefined = false

/-- Nothing is written as what `??` replaces. -/
def Codec.Present (codec : Codec arithmetic α) : Prop :=
  ∀ a fallback, (codec.write a).orElse fallback = codec.write a

/-! ## Fallbacks -/

/-- `undefined` is let through. -/
def Codec.optional (codec : Codec arithmetic α) (h : codec.Defined) : Codec arithmetic (Option α) where
  read value := if value.isUndefined then .ok none else (codec.read value).map some
  write value := (value.map codec.write).getD .undefined
  unsigned := Option.map codec.unsigned
  read_write value := by
    cases value with
    | none => rfl
    | some a => simp [h a, codec.read_write, Except.map]
  write_unsigned value := by
    cases value with
    | none => rfl
    | some a => exact codec.write_unsigned a
  plain value hdefined := by
    cases value with
    | none => cases hdefined
    | some a => exact codec.plain a hdefined

/-- A default for `undefined` alone. -/
def Codec.defaulted (codec : Codec arithmetic α) (h : codec.Defined) (default : α) : Codec arithmetic α where
  read value := if value.isUndefined then .ok default else codec.read value
  write := codec.write
  unsigned := codec.unsigned
  read_write a := by rw [if_neg (by simp [h a]), codec.read_write]
  write_unsigned := codec.write_unsigned
  plain := codec.plain

/-- `value ?? fallback`, which is checked like any other value. -/
def Codec.orElse (codec : Codec arithmetic α) (h : codec.Present) (fallback : Value ν) : Codec arithmetic α where
  read value := codec.read (value.orElse fallback)
  write := codec.write
  unsigned := codec.unsigned
  read_write a := by rw [h a, codec.read_write]
  write_unsigned := codec.write_unsigned
  plain := codec.plain

/-! ## Strings -/

variable (arithmetic)

/-- A string that is valid. What is refused may say what was read. -/
def checkedString (valid : JsString → Bool) (refuse : Option JsString → JsString) :
    Codec arithmetic { text : JsString // valid text = true } where
  read
    | .string text => if h : valid text = true then .ok ⟨text, h⟩ else .error (refuse (some text))
    | _ => .error (refuse none)
  write text := .string text.1
  unsigned := id
  read_write text := dif_pos text.2
  write_unsigned _ := rfl
  plain text _ := .string text.1

theorem checkedString_defined (valid : JsString → Bool) (refuse : Option JsString → JsString) :
    (checkedString arithmetic valid refuse).Defined := fun _ => rfl

def ofLength (minimum maximum : Nat) (text : JsString) : Bool := minimum ≤ text.length && text.length ≤ maximum

abbrev Bounded (minimum maximum : Nat) := { text : JsString // ofLength minimum maximum text = true }

def boundedMessage (path : JsString) (minimum maximum : Nat) : JsString :=
  path ++ js " must be a string between " ++ decimal minimum ++ js " and " ++ decimal maximum ++ js " characters."

def boundedString (path : JsString) (minimum maximum : Nat) : Codec arithmetic (Bounded minimum maximum) :=
  checkedString arithmetic (ofLength minimum maximum) fun _ => boundedMessage path minimum maximum

def longMessage (path : JsString) (maximum : Nat) : JsString :=
  path ++ js " must be a string no longer than " ++ decimal maximum ++ js " characters."

/-- The string that `optionalBoundedString` lets through. -/
def shortString (path : JsString) (maximum : Nat) : Codec arithmetic (Bounded 0 maximum) :=
  checkedString arithmetic (ofLength 0 maximum) fun _ => longMessage path maximum

def optionalBoundedString (path : JsString) (maximum : Nat) : Codec arithmetic (Option (Bounded 0 maximum)) :=
  (shortString arithmetic path maximum).optional (checkedString_defined arithmetic _ _)

/-- `optionalBoundedString(...) ?? default`. -/
def stringOr (path : JsString) (maximum : Nat) (default : Bounded 0 maximum) : Codec arithmetic (Bounded 0 maximum) :=
  (shortString arithmetic path maximum).defaulted (checkedString_defined arithmetic _ _) default

/-! ## Numbers -/

def integerText (n : Int) : JsString := if n < 0 then 45 :: decimal n.natAbs else decimal n.natAbs

/-- The integer that a number is. -/
def Number.integer : Number ν → Option Int
  | .finite value => arithmetic.integer value
  | .negativeZero => some 0
  | .other => none

def Number.inRange (minimum maximum : Int) (number : Number ν) : Bool :=
  (number.integer arithmetic).any fun value => decide (minimum ≤ value) && decide (value ≤ maximum)

abbrev Whole (minimum maximum : Int) := { number : Number ν // number.inRange arithmetic minimum maximum = true }

def Number.between (minimum maximum : Int) : Number ν → Bool
  | .finite value => arithmetic.within value minimum maximum
  | .negativeZero => decide (minimum ≤ 0) && decide (0 ≤ maximum)
  | .other => false

abbrev Between (minimum maximum : Int) := { number : Number ν // number.between arithmetic minimum maximum = true }

theorem inRange_unsigned {minimum maximum : Int} {number : Number ν}
    (h : number.inRange arithmetic minimum maximum = true) :
    (number.unsigned arithmetic).inRange arithmetic minimum maximum = true := by
  cases number with
  | finite | other => exact h
  | negativeZero =>
    change (arithmetic.integer (arithmetic.whole 0)).any _ = true
    rw [arithmetic.integer_whole 0 (by decide)]
    exact h

theorem between_unsigned {minimum maximum : Int} {number : Number ν}
    (h : number.between arithmetic minimum maximum = true) :
    (number.unsigned arithmetic).between arithmetic minimum maximum = true := by
  cases number with
  | finite | other => exact h
  | negativeZero =>
    change arithmetic.within (arithmetic.whole 0) minimum maximum = true
    rw [arithmetic.within_whole 0 minimum maximum (by decide)]
    exact h

/-- A number for which a test holds that does not see the sign of 0. -/
def checkedNumber (valid : Number ν → Bool) (hother : valid .other = false)
    (h : ∀ number, valid number = true → valid (number.unsigned arithmetic) = true) (message : JsString) :
    Codec arithmetic { number : Number ν // valid number = true } where
  read
    | .number number => if h : valid number = true then .ok ⟨number, h⟩ else .error message
    | _ => .error message
  write number := .number number.1
  unsigned number := ⟨number.1.unsigned arithmetic, h number.1 number.2⟩
  read_write number := dif_pos number.2
  write_unsigned _ := rfl
  plain number _ := by
    obtain ⟨number, hvalid⟩ := number
    cases number with
    | finite value => exact .finite value
    | negativeZero => exact .negativeZero
    | other => exact absurd hvalid (by simp [hother])

/-- `boundedInteger` of what is not left out. -/
def wholeNumber (path : JsString) (minimum maximum : Int) : Codec arithmetic (Whole arithmetic minimum maximum) :=
  checkedNumber arithmetic (Number.inRange arithmetic minimum maximum) rfl (fun _ h => inRange_unsigned arithmetic h)
    (path ++ js " must be a whole number from " ++ integerText minimum ++ js " to " ++ integerText maximum ++ js ".")

def boundedInteger (path : JsString) (minimum maximum fallback : Int) :
    Codec arithmetic (Whole arithmetic minimum maximum) :=
  (wholeNumber arithmetic path minimum maximum).orElse (fun _ _ => rfl) (.number (.finite (arithmetic.whole fallback)))

def boundedNumber (path : JsString) (minimum maximum : Int) : Codec arithmetic (Between arithmetic minimum maximum) :=
  checkedNumber arithmetic (Number.between arithmetic minimum maximum) rfl (fun _ h => between_unsigned arithmetic h)
    (path ++ js " must be a finite number from " ++ integerText minimum ++ js " to " ++ integerText maximum ++ js ".")

/-! ## Words -/

/-- Texts that are told apart. -/
structure Words (α : Type) where
  all : List α
  text : α → JsString
  find (a : α) : all.find? (fun other => text other = text a) = some a

def word (words : Words α) (message : JsString) : Codec arithmetic α where
  read
    | .string text =>
      match words.all.find? fun other => words.text other = text with
      | some a => .ok a
      | none => .error message
    | _ => .error message
  write a := .string (words.text a)
  unsigned := id
  read_write a := by simp only [words.find]
  write_unsigned _ := rfl
  plain a _ := .string (words.text a)

def oneOf (words : Words α) (fallback : α) (message : JsString) : Codec arithmetic α :=
  (word arithmetic words message).orElse (fun _ _ => rfl) (.string (words.text fallback))

def boolean (message : JsString) : Codec arithmetic Bool where
  read
    | .boolean value => .ok value
    | _ => .error message
  write := .boolean
  unsigned := id
  read_write _ := rfl
  write_unsigned _ := rfl
  plain value _ := .boolean value

def strictBoolean (path : JsString) (fallback : Bool) : Codec arithmetic Bool :=
  (boolean arithmetic (path ++ js " must be a boolean.")).orElse (fun _ _ => rfl) (.boolean fallback)

/-! ## Arrays -/

section
variable {arithmetic}
variable (item : Nat → Codec arithmetic α)

def readItems : Nat → List (Value ν) → Except JsString (List α)
  | _, [] => .ok []
  | index, value :: values => do
      let a ← (item index).read value
      let rest ← readItems (index + 1) values
      return a :: rest

def writeItems : Nat → List α → List (Value ν)
  | _, [] => []
  | index, a :: rest => (item index).write a :: writeItems (index + 1) rest

def unsignedResults : Nat → List α → List α
  | _, [] => []
  | index, a :: rest => (item index).unsigned a :: unsignedResults (index + 1) rest

theorem readItems_writeItems (index : Nat) (items : List α) :
    readItems item index (writeItems item index items) = .ok items := by
  induction items generalizing index with
  | nil => rfl
  | cons a rest ih =>
    rw [writeItems, readItems, (item index).read_write, ih]
    rfl

theorem unsigned_writeItems (index : Nat) (items : List α) :
    unsignedItems arithmetic (writeItems item index items)
      = writeItems item index (unsignedResults item index items) := by
  induction items generalizing index with
  | nil => rfl
  | cons a rest ih => rw [writeItems, unsignedItems, (item index).write_unsigned, ih, unsignedResults, writeItems]

theorem length_writeItems (index : Nat) (items : List α) : (writeItems item index items).length = items.length := by
  induction items generalizing index with
  | nil => rfl
  | cons a rest ih => rw [writeItems, length_cons, length_cons, ih]

@[simp] theorem length_unsignedResults (index : Nat) (items : List α) :
    (unsignedResults item index items).length = items.length := by
  induction items generalizing index with
  | nil => rfl
  | cons a rest ih => rw [unsignedResults, length_cons, length_cons, ih]

theorem length_readItems {index : Nat} {values : List (Value ν)} {items : List α}
    (h : readItems item index values = .ok items) : items.length = values.length := by
  induction values generalizing index items with
  | nil =>
    cases h
    rfl
  | cons value values ih =>
    obtain ⟨a, -, h⟩ := bind_ok h
    obtain ⟨rest, hrest, h⟩ := bind_ok h
    cases h
    rw [length_cons, length_cons, ih hrest]

theorem plain_writeItems (hdefined : ∀ index, (item index).Defined) (index : Nat) (items : List α) :
    ∀ value ∈ writeItems item index items, Plain value := by
  induction items generalizing index with
  | nil => nofun
  | cons a rest ih =>
    refine forall_mem_cons.mpr ⟨?_, ih (index + 1)⟩
    exact (item index).plain a (hdefined index a)

/-- Arrays of a length between the bounds. -/
abbrev Sized (α : Type) (minimum maximum : Nat) :=
  { items : List α // minimum ≤ items.length ∧ items.length ≤ maximum }

def arrayOf (hdefined : ∀ index, (item index).Defined) (minimum maximum : Nat) (message : JsString) :
    Codec arithmetic (Sized α minimum maximum) where
  read
    | .array values =>
      if hsize : minimum ≤ values.length ∧ values.length ≤ maximum then
        match hread : readItems item 0 values with
        | .ok items => .ok ⟨items, by rw [length_readItems item hread]; exact hsize⟩
        | .error error => .error error
      else .error message
    | _ => .error message
  write items := .array (writeItems item 0 items.1)
  unsigned items := ⟨unsignedResults item 0 items.1, by rw [length_unsignedResults]; exact items.2⟩
  read_write items := by
    have hsize : minimum ≤ (writeItems item 0 items.1).length ∧ (writeItems item 0 items.1).length ≤ maximum := by
      rw [length_writeItems]
      exact items.2
    simp only [dif_pos hsize]
    split
    · rename_i read hread
      rw [readItems_writeItems] at hread
      cases hread
      rfl
    · rename_i error hread
      rw [readItems_writeItems] at hread
      cases hread
  write_unsigned items := by rw [Value.unsigned, unsigned_writeItems]
  plain items _ := .array (plain_writeItems item hdefined 0 items.1)

end

end TsEpistle.ContentExtensions
