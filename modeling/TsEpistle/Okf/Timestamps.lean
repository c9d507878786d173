import TsEpistle.Json.Values
import TsEpistle.Pages.Approvals

/-! Timestamps of OKF metadata (`isOkfTimestamp` and `compareOkfTimestampInstants` in
`server/okf/format.ts`). -/

namespace TsEpistle.Okf
open Library List
open Json (isDigit)

/-! ## The grammar -/

def digitOf (unit : UInt16) : Nat := unit.toNat - 48

/-- `Number` of digits. -/
def number (digits : JsString) : Nat := digits.foldl (fun value unit => value * 10 + digitOf unit) 0

/-- What the groups of `ISO_WITH_OFFSET` hold; the sign of an offset is in no group. -/
structure IsoParts where
  (year month day hour minute second : Nat)
  fraction : JsString
  negative : Bool
  (offsetHour offsetMinute : Nat)
  deriving DecidableEq, Repr

def digits (n : Nat) (text : JsString) : Option (Nat × JsString) :=
  if (text.take n).length = n && (text.take n).all isDigit then some (number (text.take n), text.drop n) else none

def literal (unit : UInt16) : JsString → Option JsString
  | [] => none
  | first :: rest => if first = unit then some rest else none

/-- `(\.\d+)?`, without its dot. -/
def fractionOf : JsString → JsString × JsString
  | [] => ([], [])
  | unit :: rest =>
    if unit = 46 && rest.head?.any isDigit then (rest.takeWhile isDigit, rest.dropWhile isDigit)
    else ([], unit :: rest)

/-- `(?:Z|[+-](\d{2}):(\d{2}))$`. -/
def offsetOf : JsString → Option (Bool × Nat × Nat)
  | [] => none
  | unit :: rest =>
    if unit = 90 then if rest = [] then some (false, 0, 0) else none
    else if unit = 43 || unit = 45 then do
      let (hour, rest) ← digits 2 rest
      let rest ← literal 58 rest
      let (minute, rest) ← digits 2 rest
      if rest = [] then some (unit = 45, hour, minute) else none
    else none

/-- `ISO_WITH_OFFSET`. -/
def isoParts (value : JsString) : Option IsoParts := do
  let (year, rest) ← digits 4 value
  let rest ← literal 45 rest
  let (month, rest) ← digits 2 rest
  let rest ← literal 45 rest
  let (day, rest) ← digits 2 rest
  let rest ← literal 84 rest
  let (hour, rest) ← digits 2 rest
  let rest ← literal 58 rest
  let (minute, rest) ← digits 2 rest
  let rest ← literal 58 rest
  let (second, rest) ← digits 2 rest
  let (negative, offsetHour, offsetMinute) ← offsetOf (fractionOf rest).2
  return ⟨year, month, day, hour, minute, second, (fractionOf rest).1, negative, offsetHour, offsetMinute⟩

def daysInMonth (year month : Nat) : Nat :=
  if month = 2 then if year % 4 = 0 && (year % 100 ≠ 0 || year % 400 = 0) then 29 else 28
  else if month = 4 || month = 6 || month = 9 || month = 11 then 30 else 31

def IsoParts.valid (parts : IsoParts) : Bool :=
  let validOffset := parts.offsetHour ≤ 14 && parts.offsetMinute ≤ 59
    && (parts.offsetHour < 14 || parts.offsetMinute = 0)
  1 ≤ parts.month && parts.month ≤ 12 && 1 ≤ parts.day && parts.day ≤ daysInMonth parts.year parts.month
    && parts.hour ≤ 23 && parts.minute ≤ 59 && parts.second ≤ 59 && validOffset

/-- `Date.parse` is finite wherever the fields are valid. -/
def isOkfTimestamp (value : JsString) : Bool := (isoParts value).any IsoParts.valid

/-! ## Instants -/

/-- Days from the start of 1970 to the start of a day. -/
def dayNumber (year month day : Nat) : Int :=
  (365 * year + (year + 3) / 4 + (year + 399) / 400 + ((List.range month).tail.map (daysInMonth year)).sum + day : Nat)
    - ((year + 99) / 100 : Nat) - 719529

/-- `Date.parse` of the timestamp without its fraction. -/
def IsoParts.milliseconds (parts : IsoParts) : Int :=
  let offset : Int := ((parts.offsetHour * 60 + parts.offsetMinute : Nat) : Int)
  ((dayNumber parts.year parts.month parts.day * 24 + parts.hour) * 60 + parts.minute
    - (if parts.negative then -offset else offset)) * 60000 + parts.second * 1000

def padEnd (n : Nat) (text : JsString) : JsString := text ++ List.replicate (n - text.length) 48

/-- `replace(/0+$/u, '')`. -/
def trimZeros (text : JsString) : JsString := (text.reverse.dropWhile (· = 48)).reverse

structure OkfTimestampInstant where
  milliseconds : Int
  subMilliseconds : JsString
  deriving DecidableEq, Repr

def IsoParts.instant (parts : IsoParts) : OkfTimestampInstant where
  milliseconds := parts.milliseconds + number (padEnd 3 (parts.fraction.take 3))
  subMilliseconds := trimZeros (parts.fraction.drop 3)

/-- The timestamp has been checked before. -/
def parseOkfTimestampInstant (value : JsString) : Option OkfTimestampInstant :=
  (isoParts value).map IsoParts.instant

def compareOkfTimestampInstants (left right : OkfTimestampInstant) : Int :=
  if left.milliseconds ≠ right.milliseconds then if left.milliseconds < right.milliseconds then -1 else 1
  else
    let precision := max left.subMilliseconds.length right.subMilliseconds.length
    let leftFraction := padEnd precision left.subMilliseconds
    let rightFraction := padEnd precision right.subMilliseconds
    if leftFraction = rightFraction then 0 else if leftFraction < rightFraction then -1 else 1

example : (isoParts (js "1970-01-01T01:00:00.25+01:00")).map IsoParts.instant = some ⟨250, []⟩ := by
  decide

/-! ## The order of instants -/

/-- The value of digits behind the point. -/
def fractionValue : JsString → ℚ
  | [] => 0
  | unit :: rest => (digitOf unit + fractionValue rest) / 10

/-- The time that a timestamp names, in milliseconds. -/
def IsoParts.time (parts : IsoParts) : ℚ := parts.milliseconds + 1000 * fractionValue parts.fraction

def OkfTimestampInstant.time (instant : OkfTimestampInstant) : ℚ :=
  instant.milliseconds + fractionValue instant.subMilliseconds

theorem digitOf_lt {unit : UInt16} (h : isDigit unit = true) : digitOf unit < 10 := by
  simp only [isDigit, Bool.and_eq_true, decide_eq_true_eq, UInt16.le_iff_toNat_le] at h
  have h57 : unit.toNat ≤ 57 := h.2
  unfold digitOf
  omega

theorem digitOf_lt_iff {unit unit' : UInt16} (h : isDigit unit = true) (h' : isDigit unit' = true) :
    unit < unit' ↔ digitOf unit < digitOf unit' := by
  simp only [isDigit, Bool.and_eq_true, decide_eq_true_eq, UInt16.le_iff_toNat_le] at h h'
  have h48 : 48 ≤ unit.toNat := h.1
  have h48' : 48 ≤ unit'.toNat := h'.1
  rw [UInt16.lt_iff_toNat_lt]
  unfold digitOf
  omega

theorem digitOf_inj {unit unit' : UInt16} (h : isDigit unit = true) (h' : isDigit unit' = true)
    (heq : digitOf unit = digitOf unit') : unit = unit' := by
  simp only [isDigit, Bool.and_eq_true, decide_eq_true_eq, UInt16.le_iff_toNat_le] at h h'
  have h48 : 48 ≤ unit.toNat := h.1
  have h48' : 48 ≤ unit'.toNat := h'.1
  unfold digitOf at heq
  exact UInt16.toNat_inj.mp (by omega)

theorem fractionValue_cons (unit : UInt16) (rest : JsString) :
    fractionValue (unit :: rest) = (digitOf unit + fractionValue rest) / 10 := rfl

theorem fractionValue_nonneg (text : JsString) : 0 ≤ fractionValue text := by
  induction text with
  | nil => exact le_refl _
  | cons unit rest ih =>
    unfold fractionValue
    positivity

theorem fractionValue_lt_one {text : JsString} (h : ∀ unit ∈ text, isDigit unit = true) : fractionValue text < 1 := by
  induction text with
  | nil => exact one_pos
  | cons unit rest ih =>
    have hrest := ih fun other hother => h other (mem_cons_of_mem _ hother)
    have hunit : (digitOf unit : ℚ) ≤ 9 := by
      exact_mod_cast Nat.le_of_lt_succ (digitOf_lt (h unit mem_cons_self))
    unfold fractionValue
    linarith

theorem fractionValue_zeros (n : Nat) : fractionValue (List.replicate n 48) = 0 := by
  induction n with
  | zero => rfl
  | succ n ih => simp [replicate_succ, fractionValue, ih, digitOf]

theorem fractionValue_append_zeros (text : JsString) (n : Nat) :
    fractionValue (text ++ List.replicate n 48) = fractionValue text := by
  induction text with
  | nil => exact fractionValue_zeros n
  | cons unit rest ih => simp [fractionValue, ih]

theorem trimZeros_append (text : JsString) : ∃ n, text = trimZeros text ++ List.replicate n 48 := by
  refine ⟨(text.reverse.takeWhile (· = 48)).length, ?_⟩
  have hzeros : text.reverse.takeWhile (· = 48)
      = List.replicate (text.reverse.takeWhile (· = 48)).length 48 :=
    eq_replicate_of_mem fun unit hunit => by simpa using mem_takeWhile_imp hunit
  have hsplit : text.reverse.takeWhile (· = 48) ++ text.reverse.dropWhile (· = 48) = text.reverse :=
    takeWhile_append_dropWhile
  have hreverse := congrArg List.reverse hsplit
  rw [reverse_append, reverse_reverse] at hreverse
  refine hreverse.symm.trans (congrArg _ ?_)
  conv_lhs => rw [hzeros]
  rw [reverse_replicate]

theorem fractionValue_trimZeros (text : JsString) : fractionValue (trimZeros text) = fractionValue text := by
  obtain ⟨n, hn⟩ := trimZeros_append text
  conv_rhs => rw [hn]
  rw [fractionValue_append_zeros]

/-- Digits of one length are ordered as strings. -/
theorem fractionValue_lt_iff {left right : JsString} (hlength : left.length = right.length)
    (hleft : ∀ unit ∈ left, isDigit unit = true) (hright : ∀ unit ∈ right, isDigit unit = true) :
    left < right ↔ fractionValue left < fractionValue right := by
  induction left generalizing right with
  | nil =>
    cases right with
    | nil => simp [fractionValue]
    | cons unit rest => cases hlength
  | cons unit rest ih =>
    cases right with
    | nil => cases hlength
    | cons unit' rest' =>
      have hunit := hleft unit mem_cons_self
      have hunit' := hright unit' mem_cons_self
      have hrest : ∀ other ∈ rest, isDigit other = true := fun other h => hleft other (mem_cons_of_mem _ h)
      have hrest' : ∀ other ∈ rest', isDigit other = true := fun other h => hright other (mem_cons_of_mem _ h)
      have hlt := fractionValue_lt_one hrest
      have hlt' := fractionValue_lt_one hrest'
      have hnonneg := fractionValue_nonneg rest
      have hnonneg' := fractionValue_nonneg rest'
      rw [cons_lt_cons_iff, ih (Nat.succ.inj hlength) hrest hrest', digitOf_lt_iff hunit hunit',
        fractionValue_cons, fractionValue_cons]
      rcases lt_trichotomy (digitOf unit) (digitOf unit') with h | h | h
      · have hq : (digitOf unit : ℚ) + 1 ≤ digitOf unit' := by exact_mod_cast h
        exact iff_of_true (.inl h) (by linarith)
      · obtain rfl := digitOf_inj hunit hunit' h
        constructor
        · rintro (h' | ⟨-, h'⟩)
          · exact absurd h' (lt_irrefl _)
          · linarith
        · exact fun h' => .inr ⟨rfl, by linarith⟩
      · have hq : (digitOf unit' : ℚ) + 1 ≤ digitOf unit := by exact_mod_cast h
        have hne : unit ≠ unit' := fun heq => by
          rw [heq] at h
          exact lt_irrefl _ h
        refine iff_of_false ?_ (by linarith)
        rintro (h' | ⟨h', -⟩)
        · omega
        · exact hne h'

theorem isDigit_padEnd {n : Nat} {text : JsString} (h : ∀ unit ∈ text, isDigit unit = true) :
    ∀ unit ∈ padEnd n text, isDigit unit = true := by
  intro unit hunit
  rcases mem_append.mp hunit with hunit | hunit
  · exact h unit hunit
  · rw [eq_of_mem_replicate hunit]
    rfl

theorem length_padEnd {n : Nat} {text : JsString} (h : text.length ≤ n) : (padEnd n text).length = n := by
  unfold padEnd
  rw [length_append, length_replicate]
  omega

/-- **Comparison.** Instants are compared as the times that they stand for. -/
theorem compareOkfTimestampInstants_neg {left right : OkfTimestampInstant}
    (hleft : ∀ unit ∈ left.subMilliseconds, isDigit unit = true)
    (hright : ∀ unit ∈ right.subMilliseconds, isDigit unit = true) :
    compareOkfTimestampInstants left right < 0 ↔ left.time < right.time := by
  have hlt := fractionValue_lt_one hleft
  have hlt' := fractionValue_lt_one hright
  have hnonneg := fractionValue_nonneg left.subMilliseconds
  have hnonneg' := fractionValue_nonneg right.subMilliseconds
  unfold compareOkfTimestampInstants OkfTimestampInstant.time
  rcases lt_trichotomy left.milliseconds right.milliseconds with h | h | h
  · rw [if_pos h.ne, if_pos h]
    have hq : (left.milliseconds : ℚ) + 1 ≤ right.milliseconds := by exact_mod_cast h
    exact iff_of_true (by decide) (by linarith)
  · rw [if_neg (not_not.mpr h)]
    simp only
    generalize hn : max left.subMilliseconds.length right.subMilliseconds.length = n
    have hpad := fractionValue_lt_iff
      ((length_padEnd (le_trans (le_max_left _ _) hn.le)).trans (length_padEnd (le_trans (le_max_right _ _) hn.le)).symm)
      (isDigit_padEnd hleft) (isDigit_padEnd hright)
    unfold padEnd at hpad ⊢
    rw [fractionValue_append_zeros, fractionValue_append_zeros] at hpad
    rw [h, add_lt_add_iff_left, ← hpad]
    split
    · rename_i heq
      rw [heq]
      exact iff_of_false (by decide) (List.lt_irrefl _)
    · split
      · exact iff_of_true (by decide) ‹_›
      · exact iff_of_false (by decide) ‹_›
  · rw [if_pos h.ne', if_neg (by omega)]
    have hq : (right.milliseconds : ℚ) + 1 ≤ left.milliseconds := by exact_mod_cast h
    exact iff_of_false (by decide) (by linarith)

theorem number_pad (fraction : JsString) :
    (number (padEnd 3 (fraction.take 3)) : ℚ) + fractionValue (fraction.drop 3) = 1000 * fractionValue fraction := by
  have hzero : digitOf 48 = 0 := rfl
  match fraction with
  | [] => simp [padEnd, number, fractionValue, hzero, replicate_succ]
  | [a] => simp [padEnd, number, fractionValue, hzero, replicate_succ]; ring
  | [a, b] => simp [padEnd, number, fractionValue, hzero, replicate_succ]; ring
  | a :: b :: c :: rest => simp [padEnd, number, fractionValue]; ring

/-- The instant of a timestamp is its time. -/
theorem instant_time (parts : IsoParts) : parts.instant.time = parts.time := by
  have hpad := number_pad parts.fraction
  unfold IsoParts.instant OkfTimestampInstant.time IsoParts.time
  simp only [fractionValue_trimZeros]
  push_cast
  linarith

end TsEpistle.Okf
