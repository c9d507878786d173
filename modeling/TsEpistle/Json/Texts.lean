import TsEpistle.Json.Canonical

/-! `JSON.parse` of texts with white space. It reads what is read without white space. -/

namespace TsEpistle.Json
open Library LinePatch List Option

variable {ν : Type} (numbers : Numbers ν)

def isJsonSpace (unit : UInt16) : Bool := unit = 32 || unit = 9 || unit = 10 || unit = 13

def skipSpace (text : JsString) : JsString := text.dropWhile isJsonSpace

mutual
/-- A value behind white space, and what follows it. -/
def readSpaced : Nat → JsString → Option (JsonValue ν × JsString)
  | 0, _ => none
  | steps + 1, text =>
    match skipSpace text with
    | [] => none
    | unit :: rest =>
      if unit = 34 then (readString rest).map fun read => (.string read.1, read.2)
      else if unit = 91 then
        if (skipSpace rest).head? = some 93 then some (.array [], (skipSpace rest).tail)
        else (readSpacedItems steps rest).map fun read => (.array read.1, read.2)
      else if unit = 123 then
        if (skipSpace rest).head? = some 125 then some (.object [], (skipSpace rest).tail)
        else (readSpacedEntries steps rest).map fun read => (.object (read.1.foldl putEntry []), read.2)
      else if (js "null").isPrefixOf (unit :: rest) then some (.null, (unit :: rest).drop 4)
      else if (js "true").isPrefixOf (unit :: rest) then some (.boolean true, (unit :: rest).drop 4)
      else if (js "false").isPrefixOf (unit :: rest) then some (.boolean false, (unit :: rest).drop 5)
      else if (unit :: rest).takeWhile isNumeric = [] then none
      else (numbers.read ((unit :: rest).takeWhile isNumeric)).map fun value =>
        (.number value, (unit :: rest).dropWhile isNumeric)

/-- Items up to the closing bracket. -/
def readSpacedItems : Nat → JsString → Option (List (JsonValue ν) × JsString)
  | 0, _ => none
  | steps + 1, text => do
      let (item, text) ← readSpaced steps text
      match skipSpace text with
      | [] => none
      | unit :: text =>
        if unit = 93 then some ([item], text)
        else if unit = 44 then (readSpacedItems steps text).map fun read => (item :: read.1, read.2)
        else none

/-- Properties up to the closing brace. -/
def readSpacedEntries : Nat → JsString → Option (List (JsString × JsonValue ν) × JsString)
  | 0, _ => none
  | steps + 1, text => do
      if (skipSpace text).head? ≠ some 34 then none
      else
        let (key, text) ← readString (skipSpace text).tail
        if (skipSpace text).head? ≠ some 58 then none
        else
          let (value, text) ← readSpaced steps (skipSpace text).tail
          match skipSpace text with
          | [] => none
          | unit :: text =>
            if unit = 125 then some ([(key, value)], text)
            else if unit = 44 then
              (readSpacedEntries steps text).map fun read => ((key, value) :: read.1, read.2)
            else none
end

/-- `JSON.parse`. -/
def parseText (text : JsString) : Option (JsonValue ν) :=
  match readSpaced numbers (text.length + 1) text with
  | some (value, rest) => if skipSpace rest = [] then some value else none
  | none => none

/-! ## Texts without white space -/

/-- Numbers of which no text is empty. -/
def nonempty : Numbers ν where
  text := numbers.text
  read text := if text = [] then none else numbers.read text

variable {numbers}

theorem nonempty_faithful (hfaithful : numbers.Faithful) : (nonempty numbers).Faithful where
  nonempty := hfaithful.nonempty
  numeric := hfaithful.numeric
  read value := by
    change (if numbers.text value = [] then none else numbers.read (numbers.text value)) = some value
    rw [if_neg (hfaithful.nonempty value), hfaithful.read]

theorem skipSpace_cons {unit : UInt16} (h : isJsonSpace unit = false) (rest : JsString) :
    skipSpace (unit :: rest) = unit :: rest := by
  rw [skipSpace, dropWhile_cons_of_neg (by simp [h])]

variable {text : JsString}

theorem skipSpace_of_head {unit : UInt16} (hhead : text.head? = some unit)
    (h : isJsonSpace unit = false) : skipSpace text = text := by
  cases text with
  | nil => cases hhead
  | cons other rest =>
    cases hhead
    exact skipSpace_cons h rest

/-- White space is no part of a value. -/
theorem not_space_of_readValue {steps : Nat} {unit : UInt16} {rest : JsString} {read : JsonValue ν × JsString}
    (h : readValue (nonempty numbers) (steps + 1) (unit :: rest) = some read) : isJsonSpace unit = false := by
  by_contra hspace
  simp only [isJsonSpace, Bool.not_eq_false, Bool.or_eq_true, decide_eq_true_eq] at hspace
  have hnone : readValue (nonempty numbers) (steps + 1) (unit :: rest) = none := by
    rcases hspace with ((rfl | rfl) | rfl) | rfl <;> rfl
  rw [hnone] at h
  cases h

theorem head_of_readItems {steps : Nat} {read : List (JsonValue ν) × JsString}
    (h : readItems (nonempty numbers) steps text = some read) :
    ∃ unit, text.head? = some unit ∧ isJsonSpace unit = false := by
  cases steps with
  | zero => cases h
  | succ steps =>
    rw [readItems] at h
    obtain ⟨item, hitem, -⟩ := bind_eq_some_iff.mp h
    cases steps with
    | zero => cases hitem
    | succ steps =>
      cases text with
      | nil => cases hitem
      | cons unit rest => exact ⟨unit, rfl, not_space_of_readValue hitem⟩

theorem head_of_readEntries {steps : Nat} {read : List (JsString × JsonValue ν) × JsString}
    (h : readEntries (nonempty numbers) steps text = some read) :
    ∃ unit, text.head? = some unit ∧ isJsonSpace unit = false := by
  cases steps with
  | zero => cases h
  | succ steps =>
    rw [readEntries] at h
    by_cases hquote : text.head? = some 34
    · exact ⟨34, hquote, by decide⟩
    · rw [if_pos hquote] at h
      cases h

/-- Nothing is skipped in front of something else. -/
theorem not_closing {closing : UInt16} (h : ¬ text.head? = some closing)
    (hhead : ∃ unit, text.head? = some unit ∧ isJsonSpace unit = false) : ¬ (skipSpace text).head? = some closing := by
  obtain ⟨unit, hunit, hspace⟩ := hhead
  rwa [skipSpace_of_head hunit hspace]

theorem write_nonempty (value : JsonValue ν) : write (nonempty numbers) value = write numbers value := by
  induction value using JsonValue.induct with
  | hnull | hboolean | hnumber | hstring => rfl
  | harray items ih => rw [write, write, writeItems_eq, writeItems_eq, map_congr_left ih]
  | hobject entries ih =>
    rw [write, write, writeEntries_eq, writeEntries_eq]
    exact congrArg (fun texts => 123 :: (joinComma texts ++ [125]))
      (map_congr_left fun entry hentry => by rw [ih entry hentry])

/-- Nothing is skipped behind an item of a list. -/
theorem skipSpace_of_after {α : Type} {rest : JsString} {closing : UInt16} (hclosing : isJsonSpace closing = false)
    {last more : JsString → Option α} {read : α} (h : (match rest with
      | [] => none
      | unit :: text => if unit = closing then last text else if unit = 44 then more text else none) = some read) :
    skipSpace rest = rest := by
  cases rest with
  | nil => cases h
  | cons unit text =>
    dsimp only at h
    have hspace : isJsonSpace unit = false := by
      split_ifs at h with hunit hcomma
      · exact hunit ▸ hclosing
      · exact hcomma ▸ by decide
    exact skipSpace_cons hspace text

section
variable {steps : Nat}
  (hvalue : ∀ text read, readValue (nonempty numbers) steps text = some read
    → readSpaced numbers steps text = some read)
  (hitems : ∀ text read, readItems (nonempty numbers) steps text = some read →
    readSpacedItems numbers steps text = some read)
  (hentries : ∀ text read, readEntries (nonempty numbers) steps text = some read →
    readSpacedEntries numbers steps text = some read)

include hitems hentries in
theorem readSpaced_succ {read : JsonValue ν × JsString}
    (h : readValue (nonempty numbers) (steps + 1) text = some read) :
    readSpaced numbers (steps + 1) text = some read := by
  cases text with
  | nil => cases h
  | cons unit rest =>
    have hspace := not_space_of_readValue h
    rw [readSpaced, skipSpace_cons hspace]
    unfold readValue at h
    dsimp only at h ⊢
    by_cases hstring : unit = 34
    · rwa [if_pos hstring] at h ⊢
    rw [if_neg hstring] at h ⊢
    by_cases harray : unit = 91
    · rw [if_pos harray] at h ⊢
      by_cases hempty : rest.head? = some 93
      · rw [if_pos hempty] at h
        rwa [skipSpace_of_head hempty (by decide), if_pos hempty]
      · rw [if_neg hempty, map_eq_some_iff] at h
        obtain ⟨items, hread, h⟩ := h
        rw [if_neg (not_closing hempty (head_of_readItems hread)), hitems _ _ hread, map_some, h]
    rw [if_neg harray] at h ⊢
    by_cases hobject : unit = 123
    · rw [if_pos hobject] at h ⊢
      by_cases hempty : rest.head? = some 125
      · rw [if_pos hempty] at h
        rwa [skipSpace_of_head hempty (by decide), if_pos hempty]
      · rw [if_neg hempty, map_eq_some_iff] at h
        obtain ⟨entries, hread, h⟩ := h
        rw [if_neg (not_closing hempty (head_of_readEntries hread)), hentries _ _ hread, map_some, h]
    rw [if_neg hobject] at h ⊢
    split_ifs at h ⊢ with hnull htrue hfalse hnumber
    · exact h
    · exact h
    · exact h
    · rw [hnumber] at h
      cases h
    · change Option.map _ (if _ = [] then none else _) = _ at h
      rwa [if_neg hnumber] at h

include hvalue hitems in
theorem readSpacedItems_succ {read : List (JsonValue ν) × JsString}
    (h : readItems (nonempty numbers) (steps + 1) text = some read) :
    readSpacedItems numbers (steps + 1) text = some read := by
  rw [readItems] at h
  obtain ⟨⟨item, rest⟩, hitem, h⟩ := bind_eq_some_iff.mp h
  rw [readSpacedItems, hvalue _ _ hitem]
  change (match skipSpace rest with | [] => none | unit :: text => _) = _
  rw [skipSpace_of_after (by decide) h]
  cases rest with
  | nil => cases h
  | cons unit text =>
    dsimp only at h ⊢
    split_ifs at h ⊢ with hclosing hcomma
    · exact h
    · obtain ⟨items, hread, h⟩ := map_eq_some_iff.mp h
      rw [hitems _ _ hread, map_some, h]

include hvalue hentries in
theorem readSpacedEntries_succ {read : List (JsString × JsonValue ν) × JsString}
    (h : readEntries (nonempty numbers) (steps + 1) text = some read) :
    readSpacedEntries numbers (steps + 1) text = some read := by
  rw [readEntries] at h
  by_cases hquote : text.head? = some 34
  · rw [if_neg (by simp [hquote])] at h
    obtain ⟨⟨key, rest⟩, hkey, h⟩ := bind_eq_some_iff.mp h
    dsimp only at h
    by_cases hcolon : rest.head? = some 58
    · rw [if_neg (by simp [hcolon])] at h
      obtain ⟨⟨value, tail⟩, hread, h⟩ := bind_eq_some_iff.mp h
      rw [readSpacedEntries, skipSpace_of_head hquote (by decide), if_neg (by simp [hquote]), hkey]
      change (if (skipSpace rest).head? ≠ some 58 then none else _) = _
      rw [skipSpace_of_head hcolon (by decide), if_neg (by simp [hcolon]), hvalue _ _ hread]
      change (match skipSpace tail with | [] => none | unit :: text => _) = _
      rw [skipSpace_of_after (by decide) h]
      cases tail with
      | nil => cases h
      | cons unit text =>
        dsimp only at h ⊢
        split_ifs at h ⊢ with hclosing hcomma
        · exact h
        · obtain ⟨entries, hmore, h⟩ := map_eq_some_iff.mp h
          rw [hentries _ _ hmore, map_some, h]
    · rw [if_pos hcolon] at h
      cases h
  · rw [if_pos hquote] at h
    cases h

end

/-- What is read without white space is read alike. -/
theorem readSpaced_of_readValue (steps : Nat) :
    (∀ text read, readValue (nonempty numbers) steps text = some read → readSpaced numbers steps text = some read) ∧
    (∀ text read, readItems (nonempty numbers) steps text = some read
    → readSpacedItems numbers steps text = some read) ∧
    (∀ text read, readEntries (nonempty numbers) steps text = some read →
      readSpacedEntries numbers steps text = some read) := by
  induction steps with
  | zero => exact ⟨nofun, nofun, nofun⟩
  | succ steps ih =>
    obtain ⟨hvalue, hitems, hentries⟩ := ih
    exact ⟨fun _ _ => readSpaced_succ hitems hentries, fun _ _ => readSpacedItems_succ hvalue hitems,
      fun _ _ => readSpacedEntries_succ hvalue hentries⟩

/-- **Reading.** White space may follow. -/
theorem parseText_write (hfaithful : numbers.Faithful) {value : JsonValue ν} (h : Valid value) {spaces : JsString}
    (hspaces : ∀ unit ∈ spaces, isJsonSpace unit = true) :
    parseText numbers (write numbers value ++ spaces) = some value := by
  have hends : Ends spaces := by
    intro unit hunit
    have hspace := hspaces unit (mem_of_mem_head? hunit)
    simp only [isJsonSpace, Bool.or_eq_true, decide_eq_true_eq] at hspace
    rcases hspace with ((rfl | rfl) | rfl) | rfl <;> rfl
  have hread := reads (nonempty_faithful hfaithful) h ((write numbers value ++ spaces).length + 1) spaces
    (by
      rw [write_nonempty, length_append]
      omega) hends
  rw [write_nonempty] at hread
  have hskip : skipSpace spaces = [] := by
    rw [skipSpace, dropWhile_eq_nil_iff]
    exact hspaces
  unfold parseText
  rw [(readSpaced_of_readValue _).1 _ _ hread]
  exact if_pos hskip

end TsEpistle.Json
