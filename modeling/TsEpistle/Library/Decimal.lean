import Mathlib.Data.Nat.Digits.Lemmas
import TsEpistle.Library.JsString

/-! Natural numbers in decimal digits, without leading zeros. -/

namespace TsEpistle.Library

open List

def decimal (n : Nat) : JsString :=
  if n = 0 then [48] else (Nat.digits 10 n).reverse.map fun digit => (48 + digit).toUInt16

def decimalValue (text : JsString) : Nat := text.foldl (fun value unit => value * 10 + (unit.toNat - 48)) 0

theorem toUInt16_digit {digit : Nat} (h : digit < 10) : ((48 + digit).toUInt16).toNat = 48 + digit := by
  rw [Nat.toUInt16, UInt16.toNat_ofNat']
  exact Nat.mod_eq_of_lt (by omega)

theorem decimalValue_decimal (n : Nat) : decimalValue (decimal n) = n := by
  unfold decimal
  split
  · rename_i hzero
    rw [hzero]
    rfl
  · have hdigits : ∀ digit ∈ Nat.digits 10 n, digit < 10 := fun digit => Nat.digits_lt_base (by decide)
    have hfold : ∀ digits : List Nat, (∀ digit ∈ digits, digit < 10) →
        decimalValue (digits.reverse.map fun digit => (48 + digit).toUInt16) = Nat.ofDigits 10 digits := by
      intro digits h
      induction digits with
      | nil => rfl
      | cons digit digits ih =>
        have hrest := ih fun other hother => h other (mem_cons_of_mem _ hother)
        unfold decimalValue at hrest ⊢
        rw [reverse_cons, map_append, foldl_append, hrest, map_singleton, foldl_cons,
          foldl_nil, toUInt16_digit (h digit mem_cons_self), Nat.ofDigits_cons]
        omega
    rw [hfold _ hdigits, Nat.ofDigits_digits]

theorem decimal_units (n : Nat) : ∀ unit ∈ decimal n, 48 ≤ unit.toNat ∧ unit.toNat ≤ 57 := by
  intro unit hunit
  unfold decimal at hunit
  split at hunit
  · rw [mem_singleton] at hunit
    subst hunit
    decide
  · obtain ⟨digit, hdigit, rfl⟩ := mem_map.mp hunit
    have hlt : digit < 10 := Nat.digits_lt_base (by decide) (mem_reverse.mp hdigit)
    rw [toUInt16_digit hlt]
    omega

theorem decimal_ne_nil (n : Nat) : decimal n ≠ [] := by
  unfold decimal
  split
  · simp
  · rename_i hne
    simpa [Nat.digits_ne_nil_iff_ne_zero] using hne

end TsEpistle.Library
