import TsEpistle.LinePatch.Source
import TsEpistle.Library.Checked

/-! The UTF-8 bytes of a well-formed text tell the text. -/

namespace TsEpistle.LinePatch
open Library Checked List

/-- The code points of a text without lone surrogates. -/
inductive Scalars : JsString → List Nat → Prop
  | nil : Scalars [] []
  | unit {unit : UInt16} {rest : JsString} {codes : List Nat} (hhigh : isHighSurrogate unit = false)
      (hlow : isLowSurrogate unit = false) (h : Scalars rest codes) :
      Scalars (unit :: rest) (unit.toNat :: codes)
  | pair {high low : UInt16} {rest : JsString} {codes : List Nat}
      (hhigh : isHighSurrogate high = true) (hlow : isLowSurrogate low = true)
      (h : Scalars rest codes) :
      Scalars (high :: low :: rest)
        ((0x10000 + (high.toNat - 0xd800) * 0x400 + (low.toNat - 0xdc00)) :: codes)

theorem isHighSurrogate_iff {unit : UInt16} :
    isHighSurrogate unit = true ↔ 0xd800 ≤ unit.toNat ∧ unit.toNat ≤ 0xdbff := by
  simp only [isHighSurrogate, Bool.and_eq_true, decide_eq_true_eq, UInt16.le_iff_toNat_le]
  exact Iff.rfl

theorem isLowSurrogate_iff {unit : UInt16} :
    isLowSurrogate unit = true ↔ 0xdc00 ≤ unit.toNat ∧ unit.toNat ≤ 0xdfff := by
  simp only [isLowSurrogate, Bool.and_eq_true, decide_eq_true_eq, UInt16.le_iff_toNat_le]
  exact Iff.rfl

variable {text : JsString}

theorem scalars_of_valid {label : String} (h : assertValidUtf16 label text = .ok ()) : ∃ codes, Scalars text codes := by
  fun_induction assertValidUtf16 label text with
  | case1 => exact ⟨[], .nil⟩
  | case2 unit hhigh => cases h
  | case3 unit hhigh hlow => cases h
  | case4 unit hhigh hlow => exact ⟨_, .unit (by simpa using hhigh) (by simpa using hlow) .nil⟩
  | case5 unit next rest hhigh hlow ih =>
    obtain ⟨codes, hcodes⟩ := ih h
    exact ⟨_, .pair hhigh hlow hcodes⟩
  | case6 unit next rest hhigh hlow => cases h
  | case7 unit next rest hhigh hlow => cases h
  | case8 unit next rest hhigh hlow ih =>
    obtain ⟨codes, hcodes⟩ := ih h
    exact ⟨_, .unit (by simpa using hhigh) (by simpa using hlow) hcodes⟩

theorem Scalars.codePoints {codes : List Nat} (h : Scalars text codes) : codePoints text = codes := by
  induction h with
  | nil => rfl
  | @unit unit rest codes hhigh hlow h ih =>
    cases rest with
    | nil =>
      cases h
      rfl
    | cons next rest =>
      rw [LinePatch.codePoints, hhigh, Bool.false_and, if_neg (by simp), ih]
  | pair hhigh hlow h ih =>
    rw [LinePatch.codePoints, hhigh, hlow, if_pos (by rfl), ih]

theorem Scalars.bounded {codes : List Nat} (h : Scalars text codes) : ∀ code ∈ codes, code < 0x110000 := by
  induction h with
  | nil => simp
  | @unit unit rest codes hhigh hlow h ih =>
    have hunit := unit.toNat_lt
    intro code hcode
    rcases mem_cons.mp hcode with hcode | hcode
    · omega
    · exact ih code hcode
  | pair hhigh hlow h ih =>
    rw [isHighSurrogate_iff] at hhigh
    rw [isLowSurrogate_iff] at hlow
    intro code hcode
    rcases mem_cons.mp hcode with hcode | hcode
    · omega
    · exact ih code hcode

theorem Scalars.injective {text text' : JsString} {codes codes' : List Nat} (h : Scalars text codes)
    (h' : Scalars text' codes') (heq : codes = codes') : text = text' := by
  induction h generalizing text' codes' with
  | nil =>
    cases h' with
    | nil => rfl
    | unit | pair => cases heq
  | @unit unit rest codes hhigh hlow h ih =>
    have hunit := unit.toNat_lt
    cases h' with
    | nil => cases heq
    | unit _ _ h' =>
      obtain ⟨hcode, hcodes⟩ := List.cons.inj heq
      rw [ih h' hcodes, UInt16.toNat_inj.mp hcode]
    | pair _ _ h' =>
      have hcode := (List.cons.inj heq).1
      omega
  | @pair high low rest codes hhigh hlow h ih =>
    rw [isHighSurrogate_iff] at hhigh
    rw [isLowSurrogate_iff] at hlow
    cases h' with
    | nil => cases heq
    | @unit unit _ _ _ _ h' =>
      have hunit := unit.toNat_lt
      have hcode := (List.cons.inj heq).1
      omega
    | @pair high' low' _ _ hhigh' hlow' h' =>
      rw [isHighSurrogate_iff] at hhigh'
      rw [isLowSurrogate_iff] at hlow'
      obtain ⟨hcode, hcodes⟩ := List.cons.inj heq
      have hhighs : high = high' := UInt16.toNat_inj.mp (by omega)
      have hlows : low = low' := UInt16.toNat_inj.mp (by omega)
      rw [hhighs, hlows, ih h' hcodes]

/-- The replacement of line ends leaves no lone surrogate. -/
theorem Scalars.unixLines {codes : List Nat} (h : Scalars text codes) : ∃ codes', Scalars (unixLines text) codes' := by
  induction h with
  | nil => exact ⟨[], .nil⟩
  | @unit unit rest codes hhigh hlow h ih =>
    cases rest with
    | nil => exact ⟨_, .unit hhigh hlow .nil⟩
    | cons next rest =>
      obtain ⟨codes', hcodes'⟩ := ih
      by_cases hcrlf : (unit = 13 && next = 10) = true
      · obtain rfl : next = 10 := by simpa using (Bool.and_eq_true_iff.mp hcrlf).2
        have hnext : LinePatch.unixLines (10 :: rest) = 10 :: LinePatch.unixLines rest := by
          cases rest with
          | nil => rfl
          | cons => simp [LinePatch.unixLines]
        rw [LinePatch.unixLines, if_pos hcrlf, ← hnext]
        exact ⟨codes', hcodes'⟩
      · rw [LinePatch.unixLines, if_neg hcrlf]
        exact ⟨_, .unit hhigh hlow hcodes'⟩
  | @pair high low rest codes hhigh hlow h ih =>
    obtain ⟨codes', hcodes'⟩ := ih
    have hunits : LinePatch.unixLines (high :: low :: rest)
        = high :: low :: LinePatch.unixLines rest := by
      have hhigh' : high ≠ 13 := by
        rintro rfl
        cases hhigh
      have hlow' : low ≠ 13 := by
        rintro rfl
        cases hlow
      cases rest with
      | nil => simp [LinePatch.unixLines, hhigh']
      | cons => simp [LinePatch.unixLines, hhigh', hlow']
    rw [hunits]
    exact ⟨_, .pair hhigh hlow hcodes'⟩

theorem toUInt8_inj {byte byte' : Nat} (h : byte < 256) (h' : byte' < 256) :
    byte.toUInt8 = byte'.toUInt8 ↔ byte = byte' := by
  rw [← UInt8.toNat_inj, Nat.toUInt8_eq, Nat.toUInt8_eq, UInt8.toNat_ofNat', UInt8.toNat_ofNat',
    Nat.mod_eq_of_lt h, Nat.mod_eq_of_lt h']

/-- The first byte tells how many bytes there are, and they tell the code point. -/
theorem utf8Bytes_append_inj {code code' : Nat} {rest rest' : List UInt8} (hcode : code < 0x110000)
    (hcode' : code' < 0x110000) (h : utf8Bytes code ++ rest = utf8Bytes code' ++ rest') :
    code = code' ∧ rest = rest' := by
  unfold utf8Bytes at h
  split_ifs at h <;>
    simp (disch := omega) only [cons_append, nil_append, List.cons.injEq, toUInt8_inj] at h <;>
    first
      | exact absurd h.1 (by omega)
      | exact ⟨by omega, by simp_all⟩

theorem utf8Bytes_ne_nil (code : Nat) : utf8Bytes code ≠ [] := by
  unfold utf8Bytes
  split_ifs <;> simp

theorem flatMap_utf8Bytes_inj {codes codes' : List Nat} (hcodes : ∀ code ∈ codes, code < 0x110000)
    (hcodes' : ∀ code ∈ codes', code < 0x110000)
    (h : codes.flatMap utf8Bytes = codes'.flatMap utf8Bytes) : codes = codes' := by
  induction codes generalizing codes' with
  | nil =>
    cases codes' with
    | nil => rfl
    | cons code' codes' =>
      exact absurd (append_eq_nil_iff.mp h.symm).1 (utf8Bytes_ne_nil code')
  | cons code codes ih =>
    cases codes' with
    | nil => exact absurd (append_eq_nil_iff.mp h).1 (utf8Bytes_ne_nil code)
    | cons code' codes' =>
      rw [flatMap_cons, flatMap_cons] at h
      rw [forall_mem_cons] at hcodes hcodes'
      obtain ⟨hcode, hrest⟩ := utf8Bytes_append_inj hcodes.1 hcodes'.1 h
      rw [hcode, ih hcodes.2 hcodes'.2 hrest]

theorem utf8_inj {text text' : JsString} {codes codes' : List Nat} (hcodes : Scalars text codes)
    (hcodes' : Scalars text' codes') (h : utf8 text = utf8 text') : text = text' := by
  unfold utf8 at h
  rw [hcodes.codePoints, hcodes'.codePoints] at h
  obtain rfl := flatMap_utf8Bytes_inj hcodes.bounded hcodes'.bounded h
  exact hcodes.injective hcodes' rfl

theorem decodeSource_scalars {source : Source} {bytes : List UInt8}
    (h : decodeSource source = .ok (text, bytes)) : ∃ codes, Scalars text codes := by
  cases source with
  | text given =>
    obtain ⟨⟨⟩, hvalid, h⟩ := bind_ok h
    split at h
    · cases h
    · cases h
      exact scalars_of_valid hvalid
  | bytes given =>
    unfold decodeSource at h
    dsimp only at h
    split at h
    · cases h
    · obtain ⟨⟨⟩, hvalid, h⟩ := bind_ok h
      cases h
      exact scalars_of_valid hvalid

end TsEpistle.LinePatch
