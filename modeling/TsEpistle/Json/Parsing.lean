import TsEpistle.Json.Values

/-! What is written as JSON is read again. -/

namespace TsEpistle.Json
open Library LinePatch List

/-! ## Strings -/

theorem hexValue_hexDigit {n : Nat} (h : n < 16) : hexValue (hexDigit n) = some n := by
  have hall : ∀ n < 16, hexValue (hexDigit n) = some n := by decide
  exact hall n h

theorem hexUnit_digits (unit : UInt16) : hexUnit (hexDigit (unit.toNat / 4096)) (hexDigit (unit.toNat / 256 % 16))
    (hexDigit (unit.toNat / 16 % 16)) (hexDigit (unit.toNat % 16)) = some unit := by
  have hlt := unit.toNat_lt
  have hsum : unit.toNat / 4096 * 4096 + unit.toNat / 256 % 16 * 256 + unit.toNat / 16 % 16 * 16
      + unit.toNat % 16 = unit.toNat := by omega
  unfold hexUnit
  rw [hexValue_hexDigit (by omega), hexValue_hexDigit (by omega), hexValue_hexDigit (by omega),
    hexValue_hexDigit (by omega)]
  change some (unit.toNat / 4096 * 4096 + unit.toNat / 256 % 16 * 256 + unit.toNat / 16 % 16 * 16
    + unit.toNat % 16).toUInt16 = some unit
  rw [hsum, Nat.toUInt16_eq, UInt16.ofNat_toNat]

theorem readString_unicodeEscape (unit : UInt16) (rest : JsString) :
    readString (unicodeEscape unit ++ rest) = (readString rest).map (prepend unit) := by
  have hunit := hexUnit_digits unit
  unfold unicodeEscape
  simp only [cons_append, nil_append]
  rw [readString, if_neg (by decide), if_pos rfl]
  simp only [if_true, hunit]

theorem readString_simple {escape unit : UInt16} (hne : escape ≠ 117) (h : simpleEscape escape = some unit)
    (rest : JsString) : readString (92 :: escape :: rest) = (readString rest).map (prepend unit) := by
  rw [readString.eq_def]
  dsimp only
  rw [if_neg (by decide), if_pos rfl, if_neg hne, h]

theorem readString_escapeUnit (unit : UInt16) (rest : JsString) :
    readString (escapeUnit unit ++ rest) = (readString rest).map (prepend unit) := by
  unfold escapeUnit
  split_ifs with hquote hbackslash hback hform hline hreturn htab hcontrol
  · rw [hquote]
    exact readString_simple (by decide) rfl rest
  · rw [hbackslash]
    exact readString_simple (by decide) rfl rest
  · rw [hback]
    exact readString_simple (by decide) rfl rest
  · rw [hform]
    exact readString_simple (by decide) rfl rest
  · rw [hline]
    exact readString_simple (by decide) rfl rest
  · rw [hreturn]
    exact readString_simple (by decide) rfl rest
  · rw [htab]
    exact readString_simple (by decide) rfl rest
  · exact readString_unicodeEscape unit rest
  · simp only [Bool.or_eq_true, not_or, decide_eq_true_eq] at hcontrol
    rw [cons_append, nil_append, readString.eq_def]
    dsimp only
    rw [if_neg hquote, if_neg hbackslash, if_neg hcontrol.1.1]

theorem readString_plain {unit : UInt16} (h : 0xd800 ≤ unit.toNat) (rest : JsString) :
    readString (unit :: rest) = (readString rest).map (prepend unit) := by
  have hquote : unit ≠ 34 := by
    rintro rfl
    exact absurd h (by decide)
  have hbackslash : unit ≠ 92 := by
    rintro rfl
    exact absurd h (by decide)
  have hcontrol : ¬ unit < 32 := by
    intro hlt
    have : unit.toNat < 32 := by simpa [UInt16.lt_iff_toNat_lt] using hlt
    omega
  rw [readString.eq_def]
  dsimp only
  rw [if_neg hquote, if_neg hbackslash, if_neg hcontrol]

theorem readString_quote (rest : JsString) : readString (34 :: rest) = some ([], rest) := by
  rw [readString.eq_def]
  exact if_pos rfl

theorem readString_quoteBody (value rest : JsString) :
    readString (quoteBody value ++ 34 :: rest) = some (value, rest) := by
  fun_induction quoteBody value with
  | case1 => exact readString_quote rest
  | case2 unit =>
    rw [readString_escapeUnit, readString_quote]
    rfl
  | case3 unit next tail hpair ih =>
    obtain ⟨hhigh, hlow⟩ := Bool.and_eq_true_iff.mp hpair
    simp only [isHighSurrogate, isLowSurrogate, Bool.and_eq_true, decide_eq_true_eq,
      UInt16.le_iff_toNat_le] at hhigh hlow
    rw [cons_append, cons_append, readString_plain hhigh.1, readString_plain (le_trans (by decide) hlow.1), ih]
    rfl
  | case4 unit next tail hpair ih =>
    rw [append_assoc, readString_escapeUnit, ih]
    rfl

/-! ## Values -/

/-- Texts of numbers are made of what numbers are written with, and read again. -/
structure Numbers.Faithful {ν : Type} (numbers : Numbers ν) : Prop where
  nonempty : ∀ value, numbers.text value ≠ []
  numeric : ∀ value, ∀ unit ∈ numbers.text value, isNumeric unit = true
  read : ∀ value, numbers.read (numbers.text value) = some value

variable {ν : Type} {numbers : Numbers ν}

/-- Keys are different. -/
inductive Valid : JsonValue ν → Prop
  | null : Valid .null
  | boolean (value : Bool) : Valid (.boolean value)
  | number (value : ν) : Valid (.number value)
  | string (value : JsString) : Valid (.string value)
  | array {items : List (JsonValue ν)} (h : ∀ item ∈ items, Valid item) : Valid (.array items)
  | object {entries : List (JsString × JsonValue ν)} (hkeys : (entries.map (·.1)).Nodup)
      (h : ∀ entry ∈ entries, Valid entry.2) : Valid (.object entries)

theorem writeItems_eq (items : List (JsonValue ν)) : writeItems numbers items = items.map (write numbers) := by
  induction items with
  | nil => rfl
  | cons item items ih => rw [writeItems, ih, map_cons]

theorem writeEntries_eq (entries : List (JsString × JsonValue ν)) :
    writeEntries numbers entries = entries.map fun entry => quote entry.1 ++ 58 :: write numbers entry.2 := by
  induction entries with
  | nil => rfl
  | cons entry entries ih => rw [writeEntries, ih, map_cons]

theorem joinComma_cons {text : JsString} {texts : List JsString} (h : texts ≠ []) :
    joinComma (text :: texts) = text ++ 44 :: joinComma texts := by
  cases texts with
  | nil => exact absurd rfl h
  | cons next texts => simp [joinComma, intercalate_cons_cons]

theorem foldl_putEntry {entries before : List (JsString × JsonValue ν)} (h : ((before ++ entries).map (·.1)).Nodup) :
    entries.foldl putEntry before = before ++ entries := by
  induction entries generalizing before with
  | nil => simp
  | cons entry entries ih =>
    have hnew : before.any (·.1 = entry.1) = false := by
      rw [any_eq_false]
      intro other hother hsame
      rw [map_append, nodup_append] at h
      refine h.2.2 other.1 (mem_map_of_mem hother) entry.1 ?_ (by simpa using hsame)
      exact mem_map_of_mem mem_cons_self
    rw [foldl_cons, putEntry, if_neg (by simp [hnew]), ih (by simpa using h)]
    simp

/-- What follows a value does not go on with a number. -/
def Ends (rest : JsString) : Prop := ∀ unit, rest.head? = some unit → isNumeric unit = false

theorem takeWhile_number {text rest : JsString} (h : ∀ unit ∈ text, isNumeric unit = true)
    (hends : Ends rest) : (text ++ rest).takeWhile isNumeric = text ∧ (text ++ rest).dropWhile isNumeric = rest := by
  rw [takeWhile_append_of_pos h, dropWhile_append_of_pos h]
  cases rest with
  | nil => simp
  | cons unit rest => simp [hends unit rfl]

/-- Reading a value of a given size gives it back. -/
def Reads (numbers : Numbers ν) (value : JsonValue ν) : Prop :=
  ∀ steps rest, (write numbers value).length ≤ steps → Ends rest →
    readValue numbers steps (write numbers value ++ rest) = some (value, rest)

theorem ends_cons {unit : UInt16} (h : isNumeric unit = false) (rest : JsString) : Ends (unit :: rest) := by
  intro other hother
  cases hother
  exact h

theorem reads_number (hfaithful : numbers.Faithful) (value : ν) : Reads numbers (.number value) := by
  intro steps rest hsteps hends
  rw [write] at hsteps ⊢
  obtain ⟨unit, text, htext⟩ := exists_cons_of_ne_nil (hfaithful.nonempty value)
  obtain ⟨steps, rfl⟩ : ∃ more, steps = more + 1 := by
    rw [htext, length_cons] at hsteps
    exact ⟨steps - 1, by omega⟩
  have hunit : isNumeric unit = true := hfaithful.numeric value unit (by simp [htext])
  obtain ⟨htake, hdrop⟩ := takeWhile_number (hfaithful.numeric value) hends
  have hne : ∀ other, isNumeric other = false → unit ≠ other := by
    rintro other hother rfl
    rw [hunit] at hother
    cases hother
  have hprefix : ∀ word : JsString, word.head?.any (fun first => !isNumeric first) = true →
      word.isPrefixOf (unit :: (text ++ rest)) = false := by
    intro word hword
    cases word with
    | nil => cases hword
    | cons first word =>
      have hnumeric : isNumeric first = false := by
        rw [head?_cons, Option.any_some] at hword
        simpa using hword
      have hfirst : first ≠ unit := fun hsame => hne first hnumeric hsame.symm
      rw [isPrefixOf_cons_cons, beq_false_of_ne hfirst, Bool.false_and]
  unfold readValue
  rw [htext, cons_append] at htake hdrop ⊢
  dsimp only
  rw [if_neg (hne 34 (by decide)), if_neg (hne 91 (by decide)), if_neg (hne 123 (by decide)),
    hprefix (js "null") (by decide), hprefix (js "true") (by decide),
    hprefix (js "false") (by decide), htake, hdrop, ← htext, hfaithful.read]
  rfl

theorem reads_word {value : JsonValue ν} {word : JsString} (hwrite : write numbers value = word)
    (hne : word ≠ []) (hread : ∀ steps rest,
      readValue numbers (steps + 1) (word ++ rest) = some (value, rest)) : Reads numbers value := by
  intro steps rest hsteps _
  rw [hwrite] at hsteps ⊢
  have hlength := length_pos_iff.mpr hne
  obtain ⟨steps, rfl⟩ : ∃ more, steps = more + 1 := ⟨steps - 1, by omega⟩
  exact hread steps rest

theorem reads_string (value : JsString) : Reads numbers (.string value) := by
  have hwrite : write numbers (.string value) = quote value := by rw [write]
  refine reads_word hwrite (cons_ne_nil _ _) fun steps rest => ?_
  unfold readValue quote
  rw [cons_append, append_assoc]
  dsimp only
  rw [if_pos rfl, cons_append, nil_append, readString_quoteBody]
  rfl

theorem write_ne_nil (hfaithful : numbers.Faithful) (value : JsonValue ν) :
    ∃ unit text, write numbers value = unit :: text ∧ unit ≠ 93 := by
  cases value with
  | null => exact ⟨_, _, rfl, by decide⟩
  | boolean value => cases value <;> exact ⟨_, _, rfl, by decide⟩
  | number value =>
    obtain ⟨unit, text, htext⟩ := exists_cons_of_ne_nil (hfaithful.nonempty value)
    refine ⟨unit, text, htext, ?_⟩
    rintro rfl
    have := hfaithful.numeric value 93 (by simp [htext])
    cases this
  | string | array | object => exact ⟨_, _, rfl, by decide⟩

theorem readItems_ok {items : List (JsonValue ν)} (hne : items ≠ []) (h : ∀ item ∈ items, Reads numbers item)
    {steps : Nat} (hsteps : (joinComma (items.map (write numbers))).length < steps) (rest : JsString) :
    readItems numbers steps (joinComma (items.map (write numbers)) ++ 93 :: rest) = some (items, rest) := by
  induction items generalizing steps with
  | nil => exact absurd rfl hne
  | cons item items ih =>
    rw [forall_mem_cons] at h
    obtain ⟨steps, rfl⟩ : ∃ more, steps = more + 1 := ⟨steps - 1, by omega⟩
    rw [readItems]
    by_cases hitems : items = []
    · subst hitems
      have hjoin : joinComma ([item].map (write numbers)) = write numbers item := by
        simp [joinComma]
      rw [hjoin] at hsteps ⊢
      rw [h.1 steps (93 :: rest) (by omega) (ends_cons (by decide) rest)]
      rfl
    · rw [map_cons, joinComma_cons (by simpa using hitems)] at hsteps ⊢
      rw [length_append, length_cons] at hsteps
      rw [append_assoc, cons_append, h.1 steps _ (by omega) (ends_cons (by decide) _)]
      simp only [bind, Option.bind]
      rw [if_neg (by decide), if_pos trivial, ih hitems h.2 (by omega)]
      rfl

theorem readEntries_ok {entries : List (JsString × JsonValue ν)} (hne : entries ≠ [])
    (h : ∀ entry ∈ entries, Reads numbers entry.2) {steps : Nat}
    (hsteps : (joinComma (entries.map fun entry => quote entry.1 ++ 58 :: write numbers entry.2)).length
      < steps) (rest : JsString) :
    readEntries numbers steps
        (joinComma (entries.map fun entry => quote entry.1 ++ 58 :: write numbers entry.2) ++ 125 :: rest)
      = some (entries, rest) := by
  have hentry : ∀ (key tail : JsString), (quote key ++ 58 :: tail).head? = some 34 ∧
      readString (quote key ++ 58 :: tail).tail = some (key, 58 :: tail) := by
    intro key tail
    refine ⟨rfl, ?_⟩
    unfold quote
    rw [cons_append, tail_cons, append_assoc]
    exact readString_quoteBody key _
  induction entries generalizing steps with
  | nil => exact absurd rfl hne
  | cons entry entries ih =>
    rw [forall_mem_cons] at h
    obtain ⟨steps, rfl⟩ : ∃ more, steps = more + 1 := ⟨steps - 1, by omega⟩
    rw [readEntries]
    by_cases hentries : entries = []
    · subst hentries
      have hjoin : joinComma ([entry].map fun entry => quote entry.1 ++ 58 :: write numbers entry.2)
          = quote entry.1 ++ 58 :: write numbers entry.2 := by
        simp [joinComma]
      rw [hjoin] at hsteps ⊢
      rw [length_append, length_cons] at hsteps
      rw [append_assoc, cons_append]
      obtain ⟨hhead, hread⟩ := hentry entry.1 (write numbers entry.2 ++ 125 :: rest)
      rw [hhead, hread, if_neg (by simp)]
      simp only [bind, Option.bind]
      rw [if_neg (by simp), tail_cons, h.1 steps (125 :: rest) (by omega) (ends_cons (by decide) rest)]
      rfl
    · rw [map_cons, joinComma_cons (by simpa using hentries)] at hsteps ⊢
      rw [length_append, length_append, length_cons, length_cons] at hsteps
      rw [append_assoc, append_assoc, cons_append, cons_append]
      obtain ⟨hhead, hread⟩ := hentry entry.1 (write numbers entry.2 ++ 44 ::
        (joinComma (entries.map fun entry => quote entry.1 ++ 58 :: write numbers entry.2) ++ 125 :: rest))
      rw [hhead, hread, if_neg (by simp)]
      simp only [bind, Option.bind]
      rw [if_neg (by simp), tail_cons, h.1 steps _ (by omega) (ends_cons (by decide) _)]
      dsimp only
      rw [if_neg (by decide), if_pos rfl, ih hentries h.2 (by omega)]
      rfl

theorem reads_array (hfaithful : numbers.Faithful) {items : List (JsonValue ν)}
    (h : ∀ item ∈ items, Reads numbers item) : Reads numbers (.array items) := by
  intro steps rest hsteps _
  rw [write, writeItems_eq] at hsteps ⊢
  simp only [length_cons, length_append, length_nil] at hsteps
  obtain ⟨steps, rfl⟩ : ∃ more, steps = more + 1 := ⟨steps - 1, by omega⟩
  rw [cons_append, append_assoc, cons_append, nil_append]
  unfold readValue
  dsimp only
  rw [if_neg (by decide), if_pos rfl]
  cases items with
  | nil => rfl
  | cons item items =>
    obtain ⟨unit, text, htext, hunit⟩ := write_ne_nil hfaithful item
    have hhead : (joinComma ((item :: items).map (write numbers)) ++ 93 :: rest).head?
        = some unit := by
      by_cases hitems : items = []
      · simp [hitems, joinComma, htext]
      · rw [map_cons, joinComma_cons (by simpa using hitems), htext]
        rfl
    rw [hhead, if_neg (by simpa using hunit), readItems_ok (cons_ne_nil _ _) h (by omega)]
    rfl

theorem reads_object {entries : List (JsString × JsonValue ν)} (hkeys : (entries.map (·.1)).Nodup)
    (h : ∀ entry ∈ entries, Reads numbers entry.2) : Reads numbers (.object entries) := by
  intro steps rest hsteps _
  rw [write, writeEntries_eq] at hsteps ⊢
  simp only [length_cons, length_append, length_nil] at hsteps
  obtain ⟨steps, rfl⟩ : ∃ more, steps = more + 1 := ⟨steps - 1, by omega⟩
  rw [cons_append, append_assoc, cons_append, nil_append]
  unfold readValue
  dsimp only
  rw [if_neg (by decide), if_neg (by decide), if_pos rfl]
  cases entries with
  | nil => rfl
  | cons entry entries =>
    have hhead : (joinComma ((entry :: entries).map fun entry =>
        quote entry.1 ++ 58 :: write numbers entry.2) ++ 125 :: rest).head? = some 34 := by
      by_cases hentries : entries = []
      · simp [hentries, joinComma, quote]
      · rw [map_cons, joinComma_cons (by simpa using hentries)]
        rfl
    rw [hhead, if_neg (by simp), readEntries_ok (cons_ne_nil _ _) h (by omega),
      Option.map_some, foldl_putEntry (by simpa using hkeys)]
    rfl

theorem reads (hfaithful : numbers.Faithful) {value : JsonValue ν} (h : Valid value) : Reads numbers value := by
  induction h with
  | null =>
    have hwrite : write numbers .null = js "null" := by rw [write]
    exact reads_word hwrite (by decide) fun _ _ => rfl
  | boolean value =>
    have hwrite : write numbers (.boolean value) = if value then js "true" else js "false" := by
      rw [write]
    cases value <;> exact reads_word hwrite (by decide) fun _ _ => rfl
  | number value => exact reads_number hfaithful value
  | string value => exact reads_string value
  | array _ ih => exact reads_array hfaithful ih
  | object hkeys _ ih => exact reads_object hkeys ih

/-- **Reading.** -/
theorem parse_write (hfaithful : numbers.Faithful) {value : JsonValue ν} (h : Valid value) :
    parse numbers (write numbers value) = some value := by
  have hread := reads hfaithful h (write numbers value).length [] (le_refl _)
    fun unit hunit => nomatch hunit
  rw [append_nil] at hread
  unfold parse
  rw [hread]

end TsEpistle.Json
