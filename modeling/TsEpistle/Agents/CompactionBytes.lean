import TsEpistle.Agents.CompactionPlans
import TsEpistle.Agents.MemorySnapshots

/-! The bytes of a request with summaries (`maximumSummary` in `server/agents/providers/context-compaction.ts`). A
summary is written as JSON inside a text that is written as JSON again. -/

namespace TsEpistle.Agents.Compaction
open Library Json LinePatch List
open LiveNotes (byteLength)
open Memory (unitBytes isHigh isLow isHighSurrogate_eq isLowSurrogate_eq)

/-! ## Bytes of parts -/

theorem byteLength_cons {unit : UInt16} (h : isHighSurrogate unit = false) (rest : JsString) :
    byteLength (unit :: rest) = unitBytes unit + byteLength rest := by
  have hpair : ∀ next : UInt16, ¬ (0xD800 ≤ unit ∧ unit < 0xDC00 ∧ 0xDC00 ≤ next ∧ next < 0xE000) := by
    rintro next ⟨hge, hlt, -⟩
    rw [isHighSurrogate_eq] at h
    simp [isHigh, hge, hlt] at h
  cases rest with
  | nil => rfl
  | cons next rest => rw [byteLength, if_neg (hpair next)]; rfl

theorem byteLength_append {text : JsString} (h : ∀ unit ∈ text, isHighSurrogate unit = false) (rest : JsString) :
    byteLength (text ++ rest) = byteLength text + byteLength rest := by
  induction text with
  | nil => simp [byteLength]
  | cons unit text ih =>
    rw [cons_append, byteLength_cons (h unit mem_cons_self), byteLength_cons (h unit mem_cons_self),
      ih fun other hother => h other (mem_cons_of_mem _ hother)]
    omega

/-- A text ends where the next unit is no low surrogate. -/
theorem byteLength_before (text : JsString) {unit : UInt16} (h : isLowSurrogate unit = false) (rest : JsString) :
    byteLength (text ++ unit :: rest) = byteLength text + byteLength (unit :: rest) := by
  have hpair : ∀ first : UInt16, ¬ (0xD800 ≤ first ∧ first < 0xDC00 ∧ 0xDC00 ≤ unit ∧ unit < 0xE000) := by
    rintro first ⟨-, -, hge, hlt⟩
    rw [isLowSurrogate_eq] at h
    simp [isLow, hge, hlt] at h
  match text with
  | [] => simp [byteLength]
  | [first] =>
    have hfirst : byteLength (first :: unit :: rest) = unitBytes first + byteLength (unit :: rest) := by
      rw [byteLength, if_neg (hpair first)]
      rfl
    exact hfirst
  | first :: second :: text =>
    by_cases hboth : 0xD800 ≤ first ∧ first < 0xDC00 ∧ 0xDC00 ≤ second ∧ second < 0xE000
    · rw [cons_append, cons_append, byteLength, if_pos hboth, byteLength, if_pos hboth,
        byteLength_before text h rest]
      omega
    · rw [cons_append, cons_append, byteLength, if_neg hboth, byteLength, if_neg hboth, ← cons_append,
        byteLength_before (second :: text) h rest]
      omega

theorem quoteBody_append {text : JsString} (h : ∀ unit ∈ text, isHighSurrogate unit = false) (rest : JsString) :
    quoteBody (text ++ rest) = quoteBody text ++ quoteBody rest := by
  induction text with
  | nil => rfl
  | cons unit text ih =>
    have hunit : isHigh unit = false := by
      rw [← isHighSurrogate_eq]
      exact h unit mem_cons_self
    rw [cons_append, Memory.quoteBody_cons hunit, Memory.quoteBody_cons hunit,
      ih fun other hother => h other (mem_cons_of_mem _ hother), append_assoc]

theorem quoteBody_before (text : JsString) {unit : UInt16} (h : isLowSurrogate unit = false) (rest : JsString) :
    quoteBody (text ++ unit :: rest) = quoteBody text ++ quoteBody (unit :: rest) := by
  induction text using quoteBody.induct with
  | case1 => rfl
  | case2 first =>
    change quoteBody (first :: unit :: rest) = escapeUnit first ++ quoteBody (unit :: rest)
    rw [quoteBody, h, Bool.and_false, if_neg (by simp)]
  | case3 first second text hboth ih =>
    rw [cons_append, cons_append, quoteBody, if_pos hboth, quoteBody, if_pos hboth, ih]
    rfl
  | case4 first second text hboth ih =>
    rw [cons_append, cons_append, quoteBody, if_neg hboth, quoteBody, if_neg hboth, ← cons_append, ih, append_assoc]

theorem byteLength_quote (text : JsString) : byteLength (quote text) = byteLength (quoteBody text) + 2 := by
  have hopen : unitBytes 34 = 1 := by decide
  have hclose : byteLength [34] = 1 := by decide
  rw [quote, byteLength_cons (by decide), byteLength_before _ (by decide), hopen, hclose]
  omega

/-! ## Texts that are written twice -/

/-- The bytes of a summary inside the text of a context message. -/
def nestedBytes (summary : JsString) : Nat := byteLength (quoteBody (quoteBody summary))

theorem quoteBody_flat {text : JsString} (h : ∀ unit ∈ text, isHighSurrogate unit = false) :
    quoteBody text = text.flatMap escapeUnit := by
  induction text with
  | nil => rfl
  | cons unit text ih =>
    have hunit : isHigh unit = false := by
      rw [← isHighSurrogate_eq]
      exact h unit mem_cons_self
    rw [Memory.quoteBody_cons hunit, flatMap_cons, ih fun other hother => h other (mem_cons_of_mem _ hother)]

theorem hexDigit_plain : ∀ n < 16, escapeUnit (hexDigit n) = [hexDigit n] ∧ unitBytes (hexDigit n) = 1 ∧
    isHighSurrogate (hexDigit n) = false := by decide

theorem hex_bounds (unit : UInt16) : unit.toNat / 4096 < 16 ∧ unit.toNat / 256 % 16 < 16 ∧ unit.toNat / 16 % 16 < 16 ∧
    unit.toNat % 16 < 16 := by
  have := unit.toNat_lt
  omega

theorem short_escapes : ([34, 92, 98, 102, 110, 114, 116].all fun code =>
    [92, code].all (fun unit => !isHighSurrogate unit)
    && (quoteBody [92, code]).all (fun unit => !isHighSurrogate unit)
    && decide (byteLength (quoteBody [92, code]) ≤ 2 * byteLength [92, code])) = true := by decide

theorem short_escape {code : UInt16} (h : code ∈ ([34, 92, 98, 102, 110, 114, 116] : List UInt16)) :
    (∀ other ∈ [92, code], isHighSurrogate other = false) ∧
      (∀ other ∈ quoteBody [92, code], isHighSurrogate other = false) ∧
      byteLength (quoteBody [92, code]) ≤ 2 * byteLength [92, code] := by
  have hall := all_eq_true.mp short_escapes code h
  simp only [Bool.and_eq_true, all_eq_true, Bool.not_eq_true', decide_eq_true_eq] at hall
  exact ⟨hall.1.1, hall.1.2, hall.2⟩

/-- A unit is written as a short escape, as a long one or as it is. -/
theorem escapeUnit_cases (unit : UInt16) :
    (∃ code ∈ ([34, 92, 98, 102, 110, 114, 116] : List UInt16), escapeUnit unit = [92, code]) ∨
      escapeUnit unit = unicodeEscape unit ∨ (isHighSurrogate unit = false ∧ escapeUnit unit = [unit]) := by
  by_cases h₁ : unit = 34
  · exact .inl ⟨34, by decide, by rw [escapeUnit, if_pos h₁]⟩
  by_cases h₂ : unit = 92
  · exact .inl ⟨92, by decide, by rw [escapeUnit, if_neg h₁, if_pos h₂]⟩
  by_cases h₃ : unit = 8
  · exact .inl ⟨98, by decide, by rw [escapeUnit, if_neg h₁, if_neg h₂, if_pos h₃]⟩
  by_cases h₄ : unit = 12
  · exact .inl ⟨102, by decide, by rw [escapeUnit, if_neg h₁, if_neg h₂, if_neg h₃, if_pos h₄]⟩
  by_cases h₅ : unit = 10
  · exact .inl ⟨110, by decide, by rw [escapeUnit, if_neg h₁, if_neg h₂, if_neg h₃, if_neg h₄, if_pos h₅]⟩
  by_cases h₆ : unit = 13
  · exact .inl ⟨114, by decide, by
      rw [escapeUnit, if_neg h₁, if_neg h₂, if_neg h₃, if_neg h₄, if_neg h₅, if_pos h₆]⟩
  by_cases h₇ : unit = 9
  · exact .inl ⟨116, by decide, by
      rw [escapeUnit, if_neg h₁, if_neg h₂, if_neg h₃, if_neg h₄, if_neg h₅, if_neg h₆, if_pos h₇]⟩
  refine .inr ?_
  rw [escapeUnit, if_neg h₁, if_neg h₂, if_neg h₃, if_neg h₄, if_neg h₅, if_neg h₆, if_neg h₇]
  split
  · exact .inl rfl
  · rename_i hplain
    simp only [Bool.or_eq_true, not_or, Bool.not_eq_true] at hplain
    exact .inr ⟨hplain.1.2, rfl⟩

/-- An escape has no high surrogates, and writing it again takes at most twice its bytes. -/
theorem escapeUnit_again (unit : UInt16) : (∀ other ∈ escapeUnit unit, isHighSurrogate other = false) ∧
    (∀ other ∈ quoteBody (escapeUnit unit), isHighSurrogate other = false) ∧
    byteLength (quoteBody (escapeUnit unit)) ≤ 2 * byteLength (escapeUnit unit) := by
  rcases escapeUnit_cases unit with ⟨code, hcode, hescape⟩ | hescape | ⟨hhigh, hescape⟩
  · rw [hescape]
    exact short_escape hcode
  · rw [hescape]
    obtain ⟨ha, hb, hc, hd⟩ := hex_bounds unit
    obtain ⟨hea, hua, hha⟩ := hexDigit_plain _ ha
    obtain ⟨heb, hub, hhb⟩ := hexDigit_plain _ hb
    obtain ⟨hec, huc, hhc⟩ := hexDigit_plain _ hc
    obtain ⟨hed, hud, hhd⟩ := hexDigit_plain _ hd
    have hbackslash : escapeUnit 92 = [92, 92] ∧ escapeUnit 117 = [117] := by decide
    have hunits : unitBytes 92 = 1 ∧ unitBytes 117 = 1 ∧ isHighSurrogate 92 = false ∧ isHighSurrogate 117 = false := by
      decide
    obtain ⟨h92, h117, h92', h117'⟩ := hunits
    have hplain : ∀ other ∈ unicodeEscape unit, isHighSurrogate other = false := by
      intro other hother
      simp only [unicodeEscape, mem_cons, not_mem_nil, or_false] at hother
      rcases hother with rfl | rfl | rfl | rfl | rfl | rfl
      · exact h92'
      · exact h117'
      · exact hha
      · exact hhb
      · exact hhc
      · exact hhd
    have hquoted : quoteBody (unicodeEscape unit) = 92 :: unicodeEscape unit := by
      rw [quoteBody_flat hplain]
      simp [unicodeEscape, hbackslash, hea, heb, hec, hed]
    have hbytes : byteLength (unicodeEscape unit) = 6 := by
      rw [unicodeEscape, byteLength_cons h92', byteLength_cons h117', byteLength_cons hha, byteLength_cons hhb,
        byteLength_cons hhc, byteLength_cons hhd, h92, h117, hua, hub, huc, hud]
      rfl
    refine ⟨hplain, ?_, ?_⟩
    · rw [hquoted]
      intro other hother
      rcases mem_cons.mp hother with rfl | hother
      · exact h92'
      · exact hplain other hother
    · rw [hquoted, byteLength_cons h92', h92, hbytes]
      decide
  · have hquoted : quoteBody [unit] = [unit] := hescape
    rw [hescape, hquoted]
    refine ⟨by simpa using hhigh, by simpa using hhigh, by omega⟩

/-- **Escapes.** Writing a text again takes at most twice the bytes. -/
theorem nestedBytes_le (summary : JsString) : nestedBytes summary ≤ 2 * byteLength (quoteBody summary) := by
  unfold nestedBytes
  induction summary using quoteBody.induct with
  | case1 => exact le_refl _
  | case2 unit => exact (escapeUnit_again unit).2.2
  | case3 unit next rest hpair ih =>
    have hfour : 0xD800 ≤ unit ∧ unit < 0xDC00 ∧ 0xDC00 ≤ next ∧ next < 0xE000 := by
      obtain ⟨hhigh, hlow⟩ := Bool.and_eq_true_iff.mp hpair
      rw [isHighSurrogate_eq] at hhigh
      rw [isLowSurrogate_eq] at hlow
      simp only [isHigh, isLow, Bool.and_eq_true, decide_eq_true_eq] at hhigh hlow
      exact ⟨hhigh.1, hhigh.2, hlow.1, hlow.2⟩
    rw [quoteBody, if_pos hpair, quoteBody, if_pos hpair, byteLength, if_pos hfour, byteLength, if_pos hfour]
    omega
  | case4 unit next rest hpair ih =>
    obtain ⟨hhigh, hhigh', hbytes⟩ := escapeUnit_again unit
    rw [quoteBody, if_neg hpair, quoteBody_append hhigh, byteLength_append hhigh', byteLength_append hhigh]
    omega

theorem byteLength_ascii {text : JsString} (h : ∀ unit ∈ text, unit = 92 ∨ unit = 97) : byteLength text = text.length := by
  induction text with
  | nil => rfl
  | cons unit text ih =>
    have hunit : isHighSurrogate unit = false ∧ unitBytes unit = 1 := by
      rcases h unit mem_cons_self with rfl | rfl <;> decide
    rw [byteLength_cons hunit.1, hunit.2, ih fun other hother => h other (mem_cons_of_mem _ hother), length_cons]
    omega

/-- Backslashes, and a letter behind them. -/
def backslashes (n : Nat) (letter : Bool) : JsString := List.replicate n 92 ++ if letter then [97] else []

theorem backslashes_units (n : Nat) (letter : Bool) : ∀ unit ∈ backslashes n letter, unit = 92 ∨ unit = 97 := by
  intro unit hunit
  rcases mem_append.mp hunit with hunit | hunit
  · exact .inl (eq_of_mem_replicate hunit)
  · cases letter with
    | false => cases hunit
    | true => exact .inr (mem_singleton.mp hunit)

theorem quoteBody_backslashes (n : Nat) (letter : Bool) :
    quoteBody (backslashes n letter) = backslashes (2 * n) letter := by
  have hplain : ∀ unit ∈ backslashes n letter, isHighSurrogate unit = false := by
    intro unit hunit
    rcases backslashes_units n letter unit hunit with rfl | rfl <;> decide
  rw [quoteBody_flat hplain, backslashes, backslashes, flatMap_append]
  have hletter : (if letter then [97] else [] : JsString).flatMap escapeUnit = if letter then [97] else [] := by
    cases letter <;> decide
  rw [hletter]
  congr 1
  induction n with
  | zero => rfl
  | succ n ih =>
    have hplain' : ∀ unit ∈ backslashes n letter, isHighSurrogate unit = false := by
      intro unit hunit
      rcases backslashes_units n letter unit hunit with rfl | rfl <;> decide
    rw [replicate_succ, flatMap_cons, ih hplain', Nat.mul_succ]
    rfl

theorem byteLength_backslashes (n : Nat) (letter : Bool) :
    byteLength (quoteBody (backslashes n letter)) = 2 * n + letter.toNat ∧
      nestedBytes (backslashes n letter) = 4 * n + letter.toNat := by
  have hlength : ∀ m, (backslashes m letter).length = m + letter.toNat := by
    intro m
    cases letter <;> simp [backslashes]
  unfold nestedBytes
  rw [quoteBody_backslashes, quoteBody_backslashes, byteLength_ascii (backslashes_units _ _),
    byteLength_ascii (backslashes_units _ _), hlength, hlength]
  omega

theorem maximumSummary_eq (encodedBytes : Int) :
    maximumSummary encodedBytes = backslashes ((encodedBytes - 2) / 2).toNat false := by
  simp [maximumSummary, backslashes]

theorem maximumSummary_fits {budget : Int} (h : 256 ≤ budget) :
    (byteLength (quote (maximumSummary budget)) : Int) ≤ budget := by
  rw [byteLength_quote, maximumSummary_eq, (byteLength_backslashes _ _).1]
  have hfalse : Bool.toNat false = 0 := rfl
  omega

/-- An even budget is used up by backslashes. -/
theorem nestedBytes_maximum {budget : Int} (h : 256 ≤ budget) (heven : 2 ∣ budget) {summary : JsString}
    (hfits : (byteLength (quote summary) : Int) ≤ budget) :
    nestedBytes summary ≤ nestedBytes (maximumSummary budget) := by
  have hle := nestedBytes_le summary
  have hfalse : Bool.toNat false = 0 := rfl
  rw [byteLength_quote] at hfits
  rw [maximumSummary_eq, (byteLength_backslashes _ _).2]
  omega

/-- In an odd budget there is room for a letter. -/
theorem nestedBytes_odd {budget : Int} (h : 256 ≤ budget) (hodd : ¬ 2 ∣ budget) :
    ∃ summary, (byteLength (quote summary) : Int) ≤ budget ∧ nestedBytes (maximumSummary budget) < nestedBytes summary := by
  have hfalse : Bool.toNat false = 0 := rfl
  have htrue : Bool.toNat true = 1 := rfl
  refine ⟨backslashes ((budget - 2) / 2).toNat true, ?_, ?_⟩
  · rw [byteLength_quote, (byteLength_backslashes _ _).1]
    omega
  · rw [maximumSummary_eq, (byteLength_backslashes _ _).2, (byteLength_backslashes _ _).2]
    omega

/-! ## Requests -/

section
variable {ν : Type} {numbers : Numbers ν}

theorem joinComma_split (before : List JsString) (text : JsString) (behind : List JsString) :
    joinComma (before ++ text :: behind) = before.flatMap (· ++ [44]) ++ (text ++ behind.flatMap (44 :: ·)) := by
  have hbehind : ∀ text, joinComma (text :: behind) = text ++ behind.flatMap (44 :: ·) := by
    induction behind with
    | nil => intro text; simp [joinComma]
    | cons next behind ih =>
      intro text
      rw [joinComma_cons (cons_ne_nil _ _), ih, flatMap_cons, cons_append]
  induction before with
  | nil => exact hbehind text
  | cons first before ih =>
    rw [cons_append, joinComma_cons (by simp), ih, flatMap_cons]
    simp

theorem writeItems_append (items others : List (JsonValue ν)) :
    writeItems numbers (items ++ others) = writeItems numbers items ++ writeItems numbers others := by
  induction items with
  | nil => rfl
  | cons item items ih => rw [cons_append, writeItems, writeItems, ih, cons_append]

/-- What stands before the summary in the content of a context message. -/
def contextFront (scope : Scope) : JsString :=
  contextHeading ++ 123 :: (quote (js "scope") ++ 58 :: (quote scope.text ++ 44 :: (quote (js "summary") ++ [58])))

theorem contextText_eq (summary : JsString) (scope : Scope) :
    contextHeading ++ contextText summary scope = contextFront scope ++ 34 :: (quoteBody summary ++ 34 :: [125]) := by
  have hsummary : quote summary = 34 :: (quoteBody summary ++ [34]) := rfl
  rw [contextFront, contextText, hsummary]
  simp only [append_assoc, cons_append, nil_append]

/-- A text inside a text stands between two escaped quotation marks. -/
theorem quote_around (front text : JsString) : quote (front ++ 34 :: (quoteBody text ++ 34 :: [125]))
    = (34 :: (quoteBody front ++ [92])) ++ 34 :: (quoteBody (quoteBody text) ++ 92 :: [34, 125, 34]) := by
  have hopen : escapeUnit 34 = [92, 34] := rfl
  have hclose : quoteBody (34 :: [125]) = [92, 34, 125] := rfl
  rw [quote, quoteBody_before _ (by decide), Memory.quoteBody_cons (by decide), quoteBody_before _ (by decide), hopen,
    hclose]
  simp only [append_assoc, cons_append, nil_append]

theorem write_two (numbers : Numbers ν) (key key' value text : JsString) :
    write numbers (.object [(key, .string value), (key', .string text)])
      = 123 :: ((quote key ++ 58 :: quote value) ++ 44 :: (quote key' ++ 58 :: (quote text ++ [125]))) := by
  have hlast : joinComma [quote key' ++ 58 :: quote text] = quote key' ++ 58 :: quote text := by simp [joinComma]
  rw [write, writeEntries, writeEntries, writeEntries, joinComma_cons (cons_ne_nil _ _), write, write, hlast]
  simp only [append_assoc, cons_append]

theorem write_around (numbers : Numbers ν) (key key' value front : JsString) : ∃ before back : JsString, ∀ text,
    write numbers (.object [(key, .string value), (key', .string (front ++ 34 :: (quoteBody text ++ 34 :: [125])))])
      = before ++ 34 :: (quoteBody (quoteBody text) ++ 92 :: back) := by
  refine ⟨123 :: ((quote key ++ 58 :: quote value) ++ 44 :: (quote key' ++ 58 :: (34 :: (quoteBody front ++ [92])))),
    [34, 125, 34, 125], fun text => ?_⟩
  rw [write_two, quote_around]
  simp only [append_assoc, cons_append, nil_append]

theorem write_context (numbers : Numbers ν) (scope : Scope) : ∃ before back : JsString, ∀ summary,
    write numbers (agentCompactionContextMessage summary scope)
      = before ++ 34 :: (quoteBody (quoteBody summary) ++ 92 :: back) := by
  obtain ⟨before, back, hwrite⟩ := write_around numbers (js "role") (js "content") (js "user") (contextFront scope)
  refine ⟨before, back, fun summary => ?_⟩
  rw [agentCompactionContextMessage, contextText_eq]
  exact hwrite summary

theorem byteLength_between (front middle back : JsString) :
    byteLength (front ++ 34 :: (middle ++ 92 :: back)) = byteLength front + 1 + byteLength middle + byteLength (92 :: back) := by
  have hquote : unitBytes 34 = 1 := by decide
  rw [byteLength_before front (by decide), byteLength_cons (by decide), hquote, byteLength_before middle (by decide)]
  omega

/-- In a request the summary takes its nested bytes, whatever stands around it. -/
theorem request_context (numbers : Numbers ν) (before after : JsString) (items others : List (JsonValue ν)) (scope : Scope) :
    ∃ rest : Nat, ∀ summary,
      byteLength (before ++ (write numbers (.array (items ++ agentCompactionContextMessage summary scope :: others))
        ++ after)) = rest + nestedBytes summary := by
  obtain ⟨front, back, hcontext⟩ := write_context numbers scope
  refine ⟨byteLength (before ++ 91 :: ((writeItems numbers items).flatMap (· ++ [44]) ++ front)) + 1
    + byteLength (92 :: (back ++ ((writeItems numbers others).flatMap (44 :: ·) ++ 93 :: after))), fun summary => ?_⟩
  have htext : before ++ (write numbers (.array (items ++ agentCompactionContextMessage summary scope :: others)) ++ after)
      = (before ++ 91 :: ((writeItems numbers items).flatMap (· ++ [44]) ++ front))
        ++ 34 :: (quoteBody (quoteBody summary)
          ++ 92 :: (back ++ ((writeItems numbers others).flatMap (44 :: ·) ++ 93 :: after))) := by
    rw [write, writeItems_append, writeItems, joinComma_split, hcontext]
    simp
  rw [htext, byteLength_between]
  unfold nestedBytes
  omega

/-- The bytes of requests are those of a JSON text with the messages of the state in it. -/
def Encodes (numbers : Numbers ν) (exposure : AgentCompactionPromptState ν → AgentCompactionRequestExposure) : Prop :=
  ∃ (system : List (Message ν)) (before after : JsString), ∀ state, (exposure state).serializedRequestBytes =
    byteLength (before ++ (write numbers (.array (system ++ state.conversation ++ state.active)) ++ after))

variable {exposure : AgentCompactionPromptState ν → AgentCompactionRequestExposure}

/-- The bytes of a state with a summary, by the summary. -/
theorem cutState_bytes (h : Encodes numbers exposure) (state : AgentCompactionPromptState ν) (scope : Scope) (cut : Nat) :
    ∃ rest : Int, ∀ summary,
      (exposure (cutState state scope cut summary)).serializedRequestBytes = rest + nestedBytes summary := by
  obtain ⟨system, before, after, hbytes⟩ := h
  cases scope with
  | history =>
    obtain ⟨rest, hrest⟩ := request_context numbers before after system
      (state.conversation.drop cut ++ state.active) .history
    refine ⟨rest, fun summary => ?_⟩
    rw [hbytes, ← Nat.cast_add, ← hrest summary]
    simp [cutState, applyAgentCompactionWindow]
  | active =>
    obtain ⟨rest, hrest⟩ := request_context numbers before after (system ++ state.conversation)
      (state.active.drop cut) .active
    refine ⟨rest, fun summary => ?_⟩
    rw [hbytes, ← Nat.cast_add, ← hrest summary]
    simp [cutState, applyAgentCompactionWindow]

/-! ## Other summaries -/

/-- The windows of a plan with the summaries that were made of them. -/
def applyWindows (state : AgentCompactionPromptState ν) (windows : List (AgentCompactionWindow ν))
    (summaries : List JsString) : AgentCompactionPromptState ν :=
  (windows.zip summaries).foldl (fun state made => applyAgentCompactionWindow state made.1 made.2) state

def Fits (window : AgentCompactionWindow ν) (summary : JsString) : Prop :=
  (byteLength (quote summary) : Int) ≤ window.maximumSummaryBytes

theorem applyWindows_cuts {state : AgentCompactionPromptState ν} {scope : Scope}
    {windows : List (AgentCompactionWindow ν)} {cut : Nat} (h : Cuts state scope windows cut) {summaries : List JsString}
    (hlength : windows.length = summaries.length) :
    applyWindows state windows summaries = projectedState state scope cut summaries.getLast? := by
  induction h generalizing summaries with
  | none =>
    obtain rfl := eq_nil_of_length_eq_zero hlength.symm
    rfl
  | @next windows cut cut' window before hlt hend hscope hmessages hremove hindex hbudget ih =>
    rcases eq_nil_or_concat summaries with rfl | ⟨front, last, rfl⟩
    · simp at hlength
    · rw [concat_eq_append] at hlength ⊢
      have hfront : windows.length = front.length := by simpa using hlength
      have hfold : applyWindows state (windows ++ [window]) (front ++ [last])
          = applyAgentCompactionWindow (applyWindows state windows front) window last := by
        unfold applyWindows
        rw [zip_append hfront, foldl_append]
        rfl
      rw [hfold, ih hfront, apply_eq_cut, hscope, getLast?_concat]
      by_cases hnil : windows = []
      · subst hnil
        obtain rfl := eq_nil_of_length_eq_zero hfront.symm
        rw [hremove]
        rfl
      · have hne : front ≠ [] := fun hempty => hnil (eq_nil_of_length_eq_zero (by rw [hfront, hempty]; rfl))
        rw [hremove, if_neg (by simpa using hnil), getLast?_eq_some_getLast hne]
        have hcut : cut + (cut' - cut + 1) - 1 = cut' := by omega
        change cutState (cutState _ _ _ _) _ _ _ = cutState _ _ _ _
        rw [cutState_cutState _ _ _ _ (by omega), hcut]

end

end TsEpistle.Agents.Compaction
