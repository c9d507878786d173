import TsEpistle.LinePatch.Bytes

/-! Texts from UTF-8 bytes, as `TextDecoder` reads them when it is fatal: a byte order mark at the start is dropped. -/

namespace TsEpistle.LinePatch
open Library List Option

/-- The code points that are not surrogates. -/
def IsScalar (code : Nat) : Prop := code < 0xd800 ∨ (0xdfff < code ∧ code < 0x110000)

instance : DecidablePred IsScalar := fun _ => inferInstanceAs (Decidable (_ ∨ _))

def isTail (byte : Nat) : Bool := 0x80 ≤ byte && byte ≤ 0xbf

/-- The first code point, in its shortest form. -/
def decodeOne : List UInt8 → Option (Nat × List UInt8)
  | [] => none
  | a :: rest =>
    let a := a.toNat
    if a < 0x80 then some (a, rest)
    else if a < 0xc2 then none
    else if a < 0xe0 then
      match rest with
      | b :: rest => if isTail b.toNat then some ((a - 0xc0) * 0x40 + (b.toNat - 0x80), rest) else none
      | _ => none
    else if a < 0xf0 then
      match rest with
      | b :: c :: rest =>
        let code := (a - 0xe0) * 0x1000 + (b.toNat - 0x80) * 0x40 + (c.toNat - 0x80)
        if isTail b.toNat ∧ isTail c.toNat ∧ 0x800 ≤ code ∧ IsScalar code then some (code, rest) else none
      | _ => none
    else if a < 0xf5 then
      match rest with
      | b :: c :: d :: rest =>
        let code := (a - 0xf0) * 0x40000 + (b.toNat - 0x80) * 0x1000 + (c.toNat - 0x80) * 0x40 + (d.toNat - 0x80)
        if isTail b.toNat ∧ isTail c.toNat ∧ isTail d.toNat ∧ 0x10000 ≤ code ∧ IsScalar code then some (code, rest)
        else none
      | _ => none
    else none

/-- At most this many code points. -/
def decodeUpTo : Nat → List UInt8 → Option (List Nat)
  | _, [] => some []
  | 0, _ :: _ => none
  | count + 1, byte :: bytes =>
    match decodeOne (byte :: bytes) with
    | none => none
    | some (code, rest) => (decodeUpTo count rest).map (code :: ·)

def decodeCodes (bytes : List UInt8) : Option (List Nat) := decodeUpTo bytes.length bytes

/-- The code units of a code point. -/
def unitsOf (code : Nat) : JsString :=
  if code < 0x10000 then [code.toUInt16]
  else [(0xd800 + (code - 0x10000) / 0x400).toUInt16, (0xdc00 + (code - 0x10000) % 0x400).toUInt16]

/-- `new TextDecoder('utf-8', { fatal: true }).decode`; `none` where it throws. -/
def decodeText (bytes : List UInt8) : Option JsString :=
  (decodeCodes bytes).map fun codes =>
    (if codes.head? = some 0xfeff then codes.tail else codes).flatMap unitsOf

/-! ## Code points -/

theorem toUInt8_toNat_eq {n : Nat} {b : UInt8} (h : n = b.toNat) : n.toUInt8 = b := by
  rw [h]
  exact UInt8.ofNat_toNat

theorem toNat_toUInt8 {n : Nat} (h : n < 256) : n.toUInt8.toNat = n := by
  rw [Nat.toUInt8_eq, UInt8.toNat_ofNat', Nat.mod_eq_of_lt h]

theorem isTail_iff {byte : Nat} : isTail byte = true ↔ 0x80 ≤ byte ∧ byte ≤ 0xbf := by
  simp [isTail]

theorem decodeOne_some {bytes rest : List UInt8} {code : Nat} (h : decodeOne bytes = some (code, rest)) :
    IsScalar code ∧ bytes = utf8Bytes code ++ rest := by
  cases bytes with
  | nil => cases h
  | cons a bytes =>
    have ha := a.toNat_lt
    unfold decodeOne at h
    by_cases hone : a.toNat < 0x80
    · simp only [hone, if_true] at h
      obtain ⟨rfl, rfl⟩ := Prod.mk.inj (Option.some.inj h)
      refine ⟨.inl (by omega), ?_⟩
      rw [utf8Bytes, if_pos hone, toUInt8_toNat_eq rfl]
      rfl
    by_cases hlow : a.toNat < 0xc2
    · simp only [hone, hlow, if_true, if_false] at h
      cases h
    by_cases htwo : a.toNat < 0xe0
    · simp only [hone, hlow, htwo, if_true, if_false] at h
      match bytes with
      | [] => cases h
      | b :: bytes =>
        simp only [ite_none_right_eq_some, isTail_iff] at h
        obtain ⟨hb, h⟩ := h
        obtain ⟨rfl, rfl⟩ := Prod.mk.inj (Option.some.inj h)
        refine ⟨.inl (by omega), ?_⟩
        rw [utf8Bytes, if_neg (by omega), if_pos (by omega), toUInt8_toNat_eq (b := a) (by omega),
          toUInt8_toNat_eq (b := b) (by omega)]
        rfl
    by_cases hthree : a.toNat < 0xf0
    · simp only [hone, hlow, htwo, hthree, if_true, if_false] at h
      match bytes with
      | [] | [_] => cases h
      | b :: c :: bytes =>
        simp only [ite_none_right_eq_some, isTail_iff] at h
        obtain ⟨⟨hb, hc, hle, hscalar⟩, h⟩ := h
        obtain ⟨rfl, rfl⟩ := Prod.mk.inj (Option.some.inj h)
        refine ⟨hscalar, ?_⟩
        rw [utf8Bytes, if_neg (by omega), if_neg (by omega), if_pos (by omega),
          toUInt8_toNat_eq (b := a) (by omega), toUInt8_toNat_eq (b := b) (by omega),
          toUInt8_toNat_eq (b := c) (by omega)]
        rfl
    by_cases hfour : a.toNat < 0xf5
    · simp only [hone, hlow, htwo, hthree, hfour, if_true, if_false] at h
      match bytes with
      | [] | [_] | [_, _] => cases h
      | b :: c :: d :: bytes =>
        simp only [ite_none_right_eq_some, isTail_iff] at h
        obtain ⟨⟨hb, hc, hd, hle, hscalar⟩, h⟩ := h
        obtain ⟨rfl, rfl⟩ := Prod.mk.inj (Option.some.inj h)
        refine ⟨hscalar, ?_⟩
        rw [utf8Bytes, if_neg (by omega), if_neg (by omega), if_neg (by omega),
          toUInt8_toNat_eq (b := a) (by omega), toUInt8_toNat_eq (b := b) (by omega),
          toUInt8_toNat_eq (b := c) (by omega), toUInt8_toNat_eq (b := d) (by omega)]
        rfl
    · simp only [hone, hlow, htwo, hthree, hfour, if_false] at h
      cases h

theorem decodeOne_utf8Bytes {code : Nat} (h : IsScalar code) (rest : List UInt8) :
    decodeOne (utf8Bytes code ++ rest) = some (code, rest) := by
  have hbound : code < 0x110000 := by
    unfold IsScalar at h
    omega
  unfold utf8Bytes
  by_cases hone : code < 0x80
  · rw [if_pos hone, singleton_append]
    unfold decodeOne
    simp (disch := omega) only [toNat_toUInt8, hone, if_true]
  by_cases htwo : code < 0x800
  · rw [if_neg hone, if_pos htwo, cons_append, singleton_append]
    unfold decodeOne
    simp (disch := omega) only [toNat_toUInt8, isTail_iff]
    have hcode : (0xc0 + code / 0x40 - 0xc0) * 0x40 + (0x80 + code % 0x40 - 0x80) = code := by omega
    rw [hcode, if_neg (by omega), if_neg (by omega), if_pos (by omega), if_pos (by omega)]
  by_cases hthree : code < 0x10000
  · rw [if_neg hone, if_neg htwo, if_pos hthree, cons_append, cons_append, singleton_append]
    unfold decodeOne
    simp (disch := omega) only [toNat_toUInt8, isTail_iff]
    have hcode : (0xe0 + code / 0x1000 - 0xe0) * 0x1000 + (0x80 + code / 0x40 % 0x40 - 0x80) * 0x40
        + (0x80 + code % 0x40 - 0x80) = code := by omega
    rw [hcode, if_neg (by omega), if_neg (by omega), if_neg (by omega), if_pos (by omega),
      if_pos ⟨by omega, by omega, by omega, h⟩]
  · rw [if_neg hone, if_neg htwo, if_neg hthree, cons_append, cons_append, cons_append,
      singleton_append]
    unfold decodeOne
    simp (disch := omega) only [toNat_toUInt8, isTail_iff]
    have hcode : (0xf0 + code / 0x40000 - 0xf0) * 0x40000 + (0x80 + code / 0x1000 % 0x40 - 0x80) * 0x1000
        + (0x80 + code / 0x40 % 0x40 - 0x80) * 0x40 + (0x80 + code % 0x40 - 0x80) = code := by omega
    rw [hcode, if_neg (by omega), if_neg (by omega), if_neg (by omega), if_neg (by omega), if_pos (by omega),
      if_pos ⟨by omega, by omega, by omega, by omega, h⟩]

variable {codes : List Nat}

theorem decodeUpTo_some {count : Nat} {bytes : List UInt8} (h : decodeUpTo count bytes = some codes) :
    (∀ code ∈ codes, IsScalar code) ∧ bytes = codes.flatMap utf8Bytes := by
  induction count generalizing bytes codes with
  | zero =>
    cases bytes with
    | nil =>
      cases h
      exact ⟨forall_mem_nil _, rfl⟩
    | cons => cases h
  | succ count ih =>
    cases bytes with
    | nil =>
      cases h
      exact ⟨forall_mem_nil _, rfl⟩
    | cons byte bytes =>
      rw [decodeUpTo] at h
      cases hone : decodeOne (byte :: bytes) with
      | none => simp [hone] at h
      | some found =>
        obtain ⟨code, rest⟩ := found
        simp only [hone] at h
        obtain ⟨codes', hrest, rfl⟩ := map_eq_some_iff.mp h
        obtain ⟨hscalar, hbytes⟩ := decodeOne_some hone
        obtain ⟨hscalars, rfl⟩ := ih hrest
        refine ⟨?_, by rw [hbytes, flatMap_cons]⟩
        intro other hother
        rcases mem_cons.mp hother with rfl | hother
        · exact hscalar
        · exact hscalars other hother

theorem decodeUpTo_flatMap (h : ∀ code ∈ codes, IsScalar code) {count : Nat}
    (hcount : (codes.flatMap utf8Bytes).length ≤ count) : decodeUpTo count (codes.flatMap utf8Bytes) = some codes := by
  induction codes generalizing count with
  | nil =>
    rw [flatMap_nil]
    cases count <;> rfl
  | cons code codes ih =>
    rw [flatMap_cons] at hcount ⊢
    have hne := utf8Bytes_ne_nil code
    cases hbytes : utf8Bytes code with
    | nil => exact absurd hbytes hne
    | cons byte bytes =>
      rw [hbytes, cons_append, length_cons, length_append] at hcount
      cases count with
      | zero => omega
      | succ count =>
        have hone := decodeOne_utf8Bytes (h code mem_cons_self) (codes.flatMap utf8Bytes)
        rw [hbytes, cons_append] at hone
        rw [cons_append, decodeUpTo]
        simp only [hone]
        rw [ih (fun other hother => h other (mem_cons_of_mem _ hother)) (by omega)]
        rfl

/-! ## Texts -/

theorem toNat_toUInt16 {n : Nat} (h : n < 65536) : n.toUInt16.toNat = n := by
  rw [Nat.toUInt16, UInt16.toNat_ofNat', Nat.mod_eq_of_lt h]

theorem scalars_unitsOf (h : ∀ code ∈ codes, IsScalar code) : Scalars (codes.flatMap unitsOf) codes := by
  induction codes with
  | nil => exact .nil
  | cons code codes ih =>
    have hcode := h code mem_cons_self
    have hrest := ih fun other hother => h other (mem_cons_of_mem _ hother)
    unfold IsScalar at hcode
    rw [flatMap_cons, unitsOf]
    split
    · rename_i hsmall
      have hunit := toNat_toUInt16 hsmall
      have hhigh : isHighSurrogate code.toUInt16 = false := by
        rw [Bool.eq_false_iff, ne_eq, isHighSurrogate_iff]
        omega
      have hlow : isLowSurrogate code.toUInt16 = false := by
        rw [Bool.eq_false_iff, ne_eq, isLowSurrogate_iff]
        omega
      have hresult := Scalars.unit hhigh hlow hrest
      rwa [hunit] at hresult
    · rename_i hlarge
      have hhigh := toNat_toUInt16 (n := 0xd800 + (code - 0x10000) / 0x400) (by omega)
      have hlow := toNat_toUInt16 (n := 0xdc00 + (code - 0x10000) % 0x400) (by omega)
      have hresult := Scalars.pair (isHighSurrogate_iff.mpr (by rw [hhigh]; omega))
        (isLowSurrogate_iff.mpr (by rw [hlow]; omega)) hrest
      rw [hhigh, hlow] at hresult
      have hsame : 0x10000 + (0xd800 + (code - 0x10000) / 0x400 - 0xd800) * 0x400
          + (0xdc00 + (code - 0x10000) % 0x400 - 0xdc00) = code := by omega
      rwa [hsame] at hresult

variable {text : JsString}

theorem Scalars.isScalar (h : Scalars text codes) : ∀ code ∈ codes, IsScalar code := by
  induction h with
  | nil => exact forall_mem_nil _
  | @unit unit rest codes hhigh hlow h ih =>
    have hunit := unit.toNat_lt
    rw [Bool.eq_false_iff, ne_eq, isHighSurrogate_iff] at hhigh
    rw [Bool.eq_false_iff, ne_eq, isLowSurrogate_iff] at hlow
    refine forall_mem_cons.mpr ⟨?_, ih⟩
    unfold IsScalar
    omega
  | @pair high low rest codes hhigh hlow h ih =>
    rw [isHighSurrogate_iff] at hhigh
    rw [isLowSurrogate_iff] at hlow
    refine forall_mem_cons.mpr ⟨?_, ih⟩
    unfold IsScalar
    omega

theorem Scalars.units (h : Scalars text codes) : codes.flatMap unitsOf = text :=
  (scalars_unitsOf h.isScalar).injective h rfl

theorem Scalars.utf8 (h : Scalars text codes) : utf8 text = codes.flatMap utf8Bytes := by
  rw [LinePatch.utf8, h.codePoints]

/-- The byte order mark. -/
def mark : List UInt8 := [0xef, 0xbb, 0xbf]

theorem utf8Bytes_mark : utf8Bytes 0xfeff = mark := by decide

/-- The bytes are those of the text, behind the mark if there was one. -/
theorem decodeText_some {bytes : List UInt8} (h : decodeText bytes = some text) : (∃ codes, Scalars text codes) ∧
    ((mark <+: bytes ∧ bytes = mark ++ utf8 text) ∨ (¬ mark <+: bytes ∧ bytes = utf8 text)) := by
  obtain ⟨codes, hcodes, rfl⟩ := map_eq_some_iff.mp h
  obtain ⟨hscalars, rfl⟩ := decodeUpTo_some hcodes
  cases codes with
  | nil => exact ⟨⟨[], .nil⟩, .inr ⟨by decide, rfl⟩⟩
  | cons code codes =>
    rw [forall_mem_cons] at hscalars
    by_cases hmark : code = 0xfeff
    · have hrest := scalars_unitsOf hscalars.2
      rw [if_pos (by rw [hmark]; rfl), tail_cons, hmark, flatMap_cons, utf8Bytes_mark, hrest.utf8]
      exact ⟨⟨_, hrest⟩, .inl ⟨prefix_append _ _, rfl⟩⟩
    · have hall := scalars_unitsOf (forall_mem_cons.mpr hscalars)
      rw [if_neg (by simpa using hmark), hall.utf8]
      refine ⟨⟨_, hall⟩, .inr ⟨?_, rfl⟩⟩
      rintro ⟨rest, hrest⟩
      rw [flatMap_cons, ← utf8Bytes_mark] at hrest
      refine hmark (utf8Bytes_append_inj (by decide) ?_ hrest).1.symm
      have hscalar := hscalars.1
      unfold IsScalar at hscalar
      omega

/-- The text of the bytes is the one they were written for just where they do not begin with the mark. -/
theorem utf8_eq_iff {bytes : List UInt8} (h : decodeText bytes = some text) : utf8 text = bytes ↔ ¬ mark <+: bytes := by
  obtain ⟨-, ⟨hmark, hbytes⟩ | ⟨hmark, hbytes⟩⟩ := decodeText_some h
  · refine iff_of_false ?_ (not_not.mpr hmark)
    intro hsame
    have hlength := congrArg List.length (hsame.trans hbytes)
    rw [length_append] at hlength
    have hmarkLength : mark.length = 3 := rfl
    omega
  · exact iff_of_true hbytes.symm hmark

theorem decodeText_utf8 (h : Scalars text codes) :
    decodeText (utf8 text) = some (if codes.head? = some 0xfeff then (codes.tail).flatMap unitsOf else text) := by
  rw [decodeText, h.utf8, decodeCodes, decodeUpTo_flatMap h.isScalar (Nat.le_refl _), map_some]
  split
  · rfl
  · rw [h.units]

end TsEpistle.LinePatch
