import Mathlib

/-! Bounded scans: the first `k` elements of a list in order. An element is reached
exactly when fewer than `k` others come before it. -/

namespace TsEpistle.Library.Scan

open List

variable {α : Type} (r : α → α → Prop)

/-- An element that a scan does not reach has `k` others before it. -/
theorem mem_take_or_before {l : List α} (hl : l.Pairwise r) {x : α} (hx : x ∈ l) (k : Nat) :
    x ∈ l.take k ∨ ((l.take k).length = k ∧ ∀ y ∈ l.take k, r y x) := by
  rw [← List.take_append_drop k l] at hl hx
  rcases mem_append.mp hx with hx | hx
  · exact .inl hx
  · have hlength : k ≤ l.length := by
      by_contra hlt
      rw [drop_eq_nil_of_le (by omega)] at hx
      cases hx
    refine .inr ⟨by rw [length_take]; omega, fun y hy => ?_⟩
    exact (pairwise_append.mp hl).2.2 y hy x hx

/-- An element with `k` others strictly before it is not reached. -/
theorem not_mem_take [Std.Refl r] {l before : List α} (hl : l.Pairwise r) (hsubset : before ⊆ l) (hnodup : before.Nodup)
    {x : α} (hbefore : ∀ y ∈ before, ¬r x y) {k : Nat} (hk : k ≤ before.length) : x ∉ l.take k := by
  intro hx
  have hreached : ∀ y ∈ before, y ∈ l.take k := by
    intro y hy
    have hmem := hsubset hy
    rw [← List.take_append_drop k l] at hl hmem
    rcases mem_append.mp hmem with hmem | hmem
    · exact hmem
    · exact absurd ((pairwise_append.mp hl).2.2 x hx y hmem) (hbefore y hy)
  have hfresh : x ∉ before := fun hmem => hbefore x hmem (Std.Refl.refl x)
  have hsub : (x :: before).Subperm (l.take k) := by
    refine Nodup.subperm (nodup_cons.mpr ⟨hfresh, hnodup⟩) fun y hy => ?_
    rcases mem_cons.mp hy with rfl | hy
    · exact hx
    · exact hreached y hy
  have hle := hsub.length_le
  rw [length_cons, length_take] at hle
  omega

end TsEpistle.Library.Scan
