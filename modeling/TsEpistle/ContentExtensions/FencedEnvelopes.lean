import TsEpistle.ContentExtensions.Envelopes
import TsEpistle.Json.Texts
import TsEpistle.Markdown.Fences

/-! Envelopes of content extensions in fences of Markdown (`shared/content-extensions.ts`,
`shared/markdown-code-fence.ts`). -/

namespace TsEpistle.ContentExtensions
open Library Json Markdown List

variable {ν : Type} (platform : Platform) (arithmetic : Arithmetic ν)

def parseContentExtensionFence (markdownBody : JsString) :
    Except JsString (ContentExtensionEnvelope platform arithmetic) :=
  match parseText arithmetic.toNumbers markdownBody with
  | none => .error (js "Content extension fence body must contain exactly one valid JSON object.")
  | some input => parseContentExtensionEnvelope platform arithmetic (ofJson input)

variable {platform arithmetic}

/-- The line of JSON in the fence of an envelope. -/
def ContentExtensionEnvelope.line (envelope : ContentExtensionEnvelope platform arithmetic) : JsString :=
  write arithmetic.toNumbers (toJson arithmetic envelope.toValue)

def fenceText (line : JsString) : JsString := js "```wiki-extension\n" ++ line ++ js "\n```\n"

variable (platform arithmetic) in
def serializeContentExtensionFence (envelope : Value ν) : Except JsString JsString := do
  let normalized ← parseContentExtensionEnvelope platform arithmetic envelope
  return fenceText normalized.line

/-! ## One line -/

def OneLine (text : JsString) : Prop := ∀ unit ∈ text, isLineEnd unit = false

theorem oneLine_of_all {text : JsString} (h : text.all (fun unit => !isLineEnd unit) = true) : OneLine text :=
  fun unit hunit => by simpa using all_eq_true.mp h unit hunit

theorem OneLine.append {first second : JsString} (h : OneLine first) (h' : OneLine second) :
    OneLine (first ++ second) :=
  forall_mem_append.mpr ⟨h, h'⟩

theorem OneLine.cons {unit : UInt16} (hunit : isLineEnd unit = false) {text : JsString} (h : OneLine text) :
    OneLine (unit :: text) := forall_mem_cons.mpr ⟨hunit, h⟩

theorem oneLine_hexDigit {n : Nat} (h : n < 16) : isLineEnd (hexDigit n) = false := by
  have hall : ∀ n < 16, isLineEnd (hexDigit n) = false := by decide
  exact hall n h

theorem oneLine_escapeUnit (unit : UInt16) : OneLine (escapeUnit unit) := by
  have hlt := unit.toNat_lt
  unfold escapeUnit
  split_ifs with hquote hbackslash hback hform hline hreturn htab hcontrol
  · exact oneLine_of_all (by decide)
  · exact oneLine_of_all (by decide)
  · exact oneLine_of_all (by decide)
  · exact oneLine_of_all (by decide)
  · exact oneLine_of_all (by decide)
  · exact oneLine_of_all (by decide)
  · exact oneLine_of_all (by decide)
  · refine .cons (by decide) (.cons (by decide) (.cons ?_ (.cons ?_ (.cons ?_ (.cons ?_ nofun)))))
    · exact oneLine_hexDigit (by omega)
    · exact oneLine_hexDigit (by omega)
    · exact oneLine_hexDigit (by omega)
    · exact oneLine_hexDigit (by omega)
  · refine .cons ?_ nofun
    simp [isLineEnd, hline, hreturn]

theorem oneLine_surrogate {unit : UInt16} (h : 0xd800 ≤ unit.toNat) : isLineEnd unit = false := by
  simp only [isLineEnd, Bool.or_eq_false_iff, decide_eq_false_iff_not]
  constructor
  · rintro rfl
    exact absurd h (by decide)
  · rintro rfl
    exact absurd h (by decide)

theorem oneLine_quoteBody (value : JsString) : OneLine (quoteBody value) := by
  fun_induction quoteBody value with
  | case1 => exact fun _ hunit => (not_mem_nil hunit).elim
  | case2 unit => exact oneLine_escapeUnit unit
  | case3 unit next tail hpair ih =>
    obtain ⟨hhigh, hlow⟩ := Bool.and_eq_true_iff.mp hpair
    simp only [LinePatch.isHighSurrogate, LinePatch.isLowSurrogate, Bool.and_eq_true, decide_eq_true_eq,
      UInt16.le_iff_toNat_le] at hhigh hlow
    exact .cons (oneLine_surrogate hhigh.1) (.cons (oneLine_surrogate (le_trans (by decide) hlow.1)) ih)
  | case4 unit next tail hpair ih => exact (oneLine_escapeUnit unit).append ih

theorem oneLine_quote (value : JsString) : OneLine (quote value) :=
  .cons (by decide) ((oneLine_quoteBody value).append (oneLine_of_all (by decide)))

theorem oneLine_joinComma {texts : List JsString} (h : ∀ text ∈ texts, OneLine text) : OneLine (joinComma texts) := by
  induction texts with
  | nil => exact fun _ hunit => (not_mem_nil hunit).elim
  | cons text texts ih =>
    obtain ⟨htext, htexts⟩ := forall_mem_cons.mp h
    by_cases hempty : texts = []
    · rw [hempty]
      simpa [joinComma] using htext
    · rw [joinComma_cons hempty]
      exact htext.append (.cons (by decide) (ih htexts))

theorem oneLine_write {numbers : Numbers ν} (hfaithful : numbers.Faithful) (value : JsonValue ν) :
    OneLine (write numbers value) := by
  induction value using JsonValue.induct with
  | hnull =>
    rw [write]
    exact oneLine_of_all (by decide)
  | hboolean value =>
    rw [write]
    cases value with
    | true | false => exact oneLine_of_all (by decide)
  | hnumber value =>
    intro unit hunit
    rw [write] at hunit
    have hnumeric := hfaithful.numeric value unit hunit
    simp only [isLineEnd, Bool.or_eq_false_iff, decide_eq_false_iff_not]
    constructor
    · rintro rfl
      cases hnumeric
    · rintro rfl
      cases hnumeric
  | hstring value =>
    rw [write]
    exact oneLine_quote value
  | harray items ih =>
    rw [write, writeItems_eq]
    refine .cons (by decide) (.append (oneLine_joinComma fun text htext => ?_) (oneLine_of_all (by decide)))
    obtain ⟨item, hitem, rfl⟩ := mem_map.mp htext
    exact ih item hitem
  | hobject entries ih =>
    rw [write, writeEntries_eq]
    refine .cons (by decide) (.append (oneLine_joinComma fun text htext => ?_) (oneLine_of_all (by decide)))
    obtain ⟨entry, hentry, rfl⟩ := mem_map.mp htext
    exact (oneLine_quote entry.1).append (.cons (by decide) (ih entry hentry))

/-! ## The fence of a line -/

theorem markdownLineAt_line {line : JsString} (h : OneLine line) (rest : JsString) :
    (markdownLineAt (line ++ 10 :: rest)).text = line ∧ (markdownLineAt (line ++ 10 :: rest)).raw = line ++ [10]
      ∧ lineNext (line ++ 10 :: rest) = rest := by
  have hplain : ∀ unit ∈ line, (!isLineEnd unit) = true := fun unit hunit => by simp [h unit hunit]
  have hraw : (markdownLineAt (line ++ 10 :: rest)).raw = line ++ [10] := by
    unfold MarkdownLine.raw markdownLineAt
    dsimp only
    rw [takeWhile_append_of_pos hplain, dropWhile_append_of_pos hplain,
      takeWhile_cons_of_neg (by decide), dropWhile_cons_of_neg (by decide), append_nil]
    rfl
  refine ⟨?_, hraw, ?_⟩
  · unfold markdownLineAt
    dsimp only
    rw [takeWhile_append_of_pos hplain, takeWhile_cons_of_neg (by decide), append_nil]
  · rw [lineNext, hraw, show line ++ 10 :: rest = (line ++ [10]) ++ rest by simp, drop_left]

theorem fenceContent_line {line : JsString} (h : OneLine line) (hline : line.head? = some 123) :
    fenceContent .backtick 3 (line ++ 10 :: js "```\n") = (line ++ [10], some []) := by
  obtain ⟨htext, hraw, hnext⟩ := markdownLineAt_line h (js "```\n")
  have hclosing : OneLine (js "```") := oneLine_of_all (by decide)
  obtain ⟨htext', -, hnext'⟩ := markdownLineAt_line hclosing []
  have hopen : isClosingFence line .backtick 3 = false := by
    obtain ⟨rest, rfl⟩ : ∃ rest, line = 123 :: rest := by
      cases line with
      | nil => cases hline
      | cons unit rest =>
        cases hline
        exact ⟨rest, rfl⟩
    rfl
  rw [fenceContent, if_neg (by simp), htext, if_neg (by simp [hopen]), hnext, hraw]
  change (line ++ [10] ++ (fenceContent .backtick 3 (js "```" ++ 10 :: [])).1,
    (fenceContent .backtick 3 (js "```" ++ 10 :: [])).2) = _
  rw [fenceContent, if_neg (by simp), htext', if_pos (by decide), hnext', append_nil]

theorem parseMarkdownCodeFences_fenceText {line : JsString} (h : OneLine line) (hline : line.head? = some 123) :
    parseMarkdownCodeFences (fenceText line) = [⟨.backtick, 3, js "wiki-extension", line ++ [10], true⟩] := by
  have hsplit : fenceText line = js "```wiki-extension" ++ 10 :: (line ++ 10 :: js "```\n") := by
    change js "```wiki-extension" ++ [10] ++ line ++ ([10] ++ js "```\n") = _
    simp
  have hopening : OneLine (js "```wiki-extension") := oneLine_of_all (by decide)
  obtain ⟨htext, -, hnext⟩ := markdownLineAt_line hopening (line ++ 10 :: js "```\n")
  have hfence : fenceOpeningAt (js "```wiki-extension") = some ⟨.backtick, 3, js "wiki-extension"⟩ := rfl
  rw [hsplit, parseMarkdownCodeFences, dif_neg (by simp), htext, hfence, hnext]
  dsimp only
  split
  · rename_i hnone
    rw [openFence, fenceContent_line h hline] at hnone
    cases hnone
  · rename_i next hsome
    rw [openFence, fenceContent_line h hline] at hsome
    cases hsome
    rw [openFence, fenceContent_line h hline, parseMarkdownCodeFences, dif_pos rfl]
    rfl

/-! ## Round trips -/

theorem line_head (envelope : ContentExtensionEnvelope platform arithmetic) : envelope.line.head? = some 123 := by
  unfold ContentExtensionEnvelope.line ContentExtensionEnvelope.toValue record
  rw [toJson, write]
  rfl

/-- The line in the fence is read as the envelope with 0 for -0. -/
theorem parse_line (envelope : ContentExtensionEnvelope platform arithmetic) :
    parseContentExtensionFence platform arithmetic (envelope.line ++ [10]) = .ok envelope.unsigned := by
  have hplain := plain_toValue envelope
  have hread := parseText_write arithmetic.faithful (valid_toJson arithmetic hplain)
    (forall_mem_singleton.mpr (rfl : isJsonSpace 10 = true))
  unfold parseContentExtensionFence ContentExtensionEnvelope.line
  rw [hread]
  dsimp only
  rw [ofJson_toJson arithmetic hplain, toValue_unsigned, parse_toValue]

/-- Only the sign of 0 is lost in the line. -/
theorem line_eq_iff {envelope envelope' : ContentExtensionEnvelope platform arithmetic} :
    envelope.line = envelope'.line ↔ envelope.unsigned = envelope'.unsigned := by
  constructor
  · intro h
    have hread := parse_line envelope
    rw [h, parse_line] at hread
    exact (Except.ok.inj hread).symm
  · intro h
    have hvalue : ofJson (toJson arithmetic envelope.toValue) = ofJson (toJson arithmetic envelope'.toValue) := by
      rw [ofJson_toJson arithmetic (plain_toValue envelope), ofJson_toJson arithmetic (plain_toValue envelope'),
        toValue_unsigned, toValue_unsigned, h]
    have hjson := congrArg (toJson arithmetic) hvalue
    rw [toJson_ofJson, toJson_ofJson] at hjson
    exact congrArg (write arithmetic.toNumbers) hjson

theorem fenceText_injective {line line' : JsString} (h : fenceText line = fenceText line') : line = line' :=
  append_cancel_left (append_cancel_right h)

theorem serialize_ok {input : Value ν} {envelope : ContentExtensionEnvelope platform arithmetic}
    (h : parseContentExtensionEnvelope platform arithmetic input = .ok envelope) :
    serializeContentExtensionFence platform arithmetic input = .ok (fenceText envelope.line) := by
  rw [serializeContentExtensionFence, h]
  rfl

/-- **Fences of content extensions.** What is accepted is read again as it was, its fence is the only one of its
text, and the envelopes that are read in fences are those that were written, but for the sign of 0. -/
theorem content_extensions_round_trip (platform : Platform) (arithmetic : Arithmetic ν) :
    (∀ input envelope, parseContentExtensionEnvelope platform arithmetic input = .ok envelope →
      parseContentExtensionEnvelope platform arithmetic envelope.toValue = .ok envelope
      ∧ ∃ text content, serializeContentExtensionFence platform arithmetic input = .ok text
        ∧ serializeContentExtensionFence platform arithmetic envelope.toValue = .ok text
        ∧ parseMarkdownCodeFences text = [⟨.backtick, 3, js "wiki-extension", content, true⟩]
        ∧ parseContentExtensionFence platform arithmetic content = .ok envelope.unsigned)
    ∧ (∀ input input' envelope envelope', parseContentExtensionEnvelope platform arithmetic input = .ok envelope →
      parseContentExtensionEnvelope platform arithmetic input' = .ok envelope' →
      (serializeContentExtensionFence platform arithmetic input
        = serializeContentExtensionFence platform arithmetic input'
        ↔ envelope.unsigned = envelope'.unsigned))
    ∧ ∀ envelope : ContentExtensionEnvelope platform arithmetic,
      envelope.unsigned.toValue = envelope.toValue.unsigned arithmetic := by
  refine ⟨fun input envelope h => ?_, fun input input' envelope envelope' h h' => ?_,
    fun envelope => (toValue_unsigned envelope).symm⟩
  · have hline : OneLine envelope.line := oneLine_write arithmetic.faithful _
    exact ⟨parse_toValue envelope, fenceText envelope.line, envelope.line ++ [10], serialize_ok h,
      serialize_ok (parse_toValue envelope), parseMarkdownCodeFences_fenceText hline (line_head envelope),
      parse_line envelope⟩
  · rw [serialize_ok h, serialize_ok h', ← line_eq_iff]
    constructor
    · intro hsame
      exact fenceText_injective (Except.ok.inj hsame)
    · intro hsame
      rw [hsame]

/-! ## An example -/

/-- Whole numbers. -/
def exampleNumbers : Numbers Int where
  text := integerText
  read text := [-(decimalValue text.tail : Int), decimalValue text].find? fun n => integerText n = text

theorem integerText_injective {m n : Int} (h : integerText m = integerText n) : m = n := by
  have hminus : ∀ a b : Nat, 45 :: decimal a ≠ decimal b := by
    intro a b hsame
    have hunits := decimal_units b 45 (by rw [← hsame]; exact mem_cons_self)
    exact absurd hunits.1 (by decide)
  have hdecimal : ∀ a b : Nat, decimal a = decimal b → a = b := by
    intro a b hsame
    rw [← decimalValue_decimal a, hsame, decimalValue_decimal]
  unfold integerText at h
  by_cases hm : m < 0
  · by_cases hn : n < 0
    · rw [if_pos hm, if_pos hn] at h
      have := hdecimal _ _ (List.cons.inj h).2
      omega
    · rw [if_pos hm, if_neg hn] at h
      exact absurd h (hminus _ _)
  · by_cases hn : n < 0
    · rw [if_neg hm, if_pos hn] at h
      exact absurd h.symm (hminus _ _)
    · rw [if_neg hm, if_neg hn] at h
      have := hdecimal _ _ h
      omega

theorem exampleNumbers_faithful : exampleNumbers.Faithful where
  nonempty n := by
    change integerText n ≠ []
    unfold integerText
    split_ifs with hn
    · exact cons_ne_nil _ _
    · exact decimal_ne_nil _
  numeric n := by
    have hdigits : ∀ unit ∈ decimal n.natAbs, isNumeric unit = true := by
      intro unit hunit
      obtain ⟨hlow, hhigh⟩ := decimal_units _ unit hunit
      simp only [isNumeric, isDigit, Bool.or_eq_true, Bool.and_eq_true, decide_eq_true_eq, UInt16.le_iff_toNat_le]
      exact .inl (.inl (.inl (.inl (.inl ⟨hlow, hhigh⟩))))
    change ∀ unit ∈ integerText n, isNumeric unit = true
    unfold integerText
    split_ifs with hn
    · exact forall_mem_cons.mpr ⟨by decide, hdigits⟩
    · exact hdigits
  read n := by
    change List.find? _ _ = some n
    have hmem : n ∈ [-(decimalValue (integerText n).tail : Int), (decimalValue (integerText n) : Int)] := by
      unfold integerText
      by_cases hn : n < 0
      · rw [if_pos hn, tail_cons, decimalValue_decimal]
        exact mem_cons.mpr (.inl (by omega))
      · rw [if_neg hn, decimalValue_decimal]
        exact mem_cons_of_mem _ (mem_singleton.mpr (by omega))
    cases hfind : List.find? (fun m => decide (integerText m = integerText n))
        [-(decimalValue (integerText n).tail : Int), (decimalValue (integerText n) : Int)] with
    | none => exact absurd (find?_eq_none.mp hfind n hmem) (by simp)
    | some m =>
      have hsame : integerText m = integerText n := by simpa using find?_some hfind
      rw [integerText_injective hsame] at hfind
      exact hfind

def exampleArithmetic : Arithmetic Int where
  toNumbers := exampleNumbers
  faithful := exampleNumbers_faithful
  whole := id
  integer := some
  within value minimum maximum := decide (minimum ≤ value) && decide (value ≤ maximum)
  integer_whole _ _ := rfl
  within_whole _ _ _ _ := rfl

def examplePlatform : Platform where
  decodeURIComponent := some
  parseUrl _ := none
  toLowerCase := asciiLower

/-- A map at the latitude -0. -/
def southernMap : Value Int :=
  .object [(js "key", .string (js "map")), (js "version", .number (.finite 1)),
    (js "props", .object [(js "latitude", .number .negativeZero), (js "longitude", .number (.finite 0))])]

def mapAt (latitude : Between exampleArithmetic (-90) 90) :
    ContentExtensionEnvelope examplePlatform exampleArithmetic :=
  ⟨.map, ⟨latitude, ⟨.finite 0, by decide⟩, ⟨.finite 13, by decide⟩, ⟨.finite 400, by decide⟩, none⟩⟩

theorem parse_southernMap :
    parseContentExtensionEnvelope examplePlatform exampleArithmetic southernMap
      = .ok (mapAt ⟨.negativeZero, by decide⟩) :=
  rfl

/-- The sign of 0 is lost. -/
theorem fence_loses_sign : ∃ envelope text content envelope',
    parseContentExtensionEnvelope examplePlatform exampleArithmetic southernMap = .ok envelope ∧
    serializeContentExtensionFence examplePlatform exampleArithmetic southernMap = .ok text ∧
    parseMarkdownCodeFences text = [⟨.backtick, 3, js "wiki-extension", content, true⟩] ∧
    parseContentExtensionFence examplePlatform exampleArithmetic content = .ok envelope' ∧ envelope' ≠ envelope := by
  have hline : OneLine (mapAt ⟨.negativeZero, by decide⟩).line := oneLine_write exampleNumbers_faithful _
  refine ⟨_, _, _, _, parse_southernMap, serialize_ok parse_southernMap,
    parseMarkdownCodeFences_fenceText hline (line_head _), parse_line _, fun hsame => ?_⟩
  have hprops := eq_of_heq (ContentExtensionEnvelope.mk.inj hsame).2
  have hlatitude := congrArg (fun props : MapProps exampleArithmetic => props.latitude.1) hprops
  cases hlatitude

/-- Two tabs, the second of them active. -/
def twoTabs : Value Int :=
  .object [(js "key", .string (js "tabs")), (js "version", .number (.finite 1)),
    (js "props", .object [(js "active", .number (.finite 1)), (js "tabs", .array
      [.object [(js "label", .string (js "A")), (js "content", .string (js "a"))],
        .object [(js "label", .string (js "B")), (js "content", .string (js "b")),
          (js "headingLevel", .number (.finite 2))]])])]

theorem content_extensions_round_trip_example :
    (∃ text content, serializeContentExtensionFence examplePlatform exampleArithmetic southernMap = .ok text
      ∧ serializeContentExtensionFence examplePlatform exampleArithmetic (mapAt ⟨.negativeZero, by decide⟩).toValue
        = .ok text
      ∧ parseMarkdownCodeFences text = [⟨.backtick, 3, js "wiki-extension", content, true⟩]
      ∧ parseContentExtensionFence examplePlatform exampleArithmetic content = .ok (mapAt ⟨.finite 0, by decide⟩))
    ∧ ∃ envelope text content, parseContentExtensionEnvelope examplePlatform exampleArithmetic twoTabs = .ok envelope
      ∧ serializeContentExtensionFence examplePlatform exampleArithmetic twoTabs = .ok text
      ∧ parseMarkdownCodeFences text = [⟨.backtick, 3, js "wiki-extension", content, true⟩]
      ∧ parseContentExtensionFence examplePlatform exampleArithmetic content = .ok envelope := by
  obtain ⟨hround, -⟩ := content_extensions_round_trip examplePlatform exampleArithmetic
  refine ⟨(hround southernMap _ parse_southernMap).2, ?_⟩
  obtain ⟨envelope, henvelope⟩ :
      ∃ envelope, parseContentExtensionEnvelope examplePlatform exampleArithmetic twoTabs = .ok envelope := ⟨_, rfl⟩
  obtain ⟨-, text, content, htext, -, hfence, hread⟩ := hround twoTabs envelope henvelope
  refine ⟨envelope, text, content, henvelope, htext, hfence, hread.trans ?_⟩
  cases henvelope
  rfl

end TsEpistle.ContentExtensions
