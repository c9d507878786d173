import Mathlib

/-! Computations that may fail: what the parts of a computation answered when the
whole one succeeded. -/

namespace TsEpistle.Library.Checked

variable {ε α β : Type}

variable {x : Except ε α}

/-- **Bind rule.** -/
theorem bind_ok {f : α → Except ε β} {b : β} (h : x >>= f = .ok b) : ∃ a, x = .ok a ∧ f a = .ok b := by
  cases x with
  | error e => cases h
  | ok a => exact ⟨a, rfl, h⟩

/-- Computations that succeed alike can be followed alike. -/
theorem bind_iff_left {x y : Except ε α} {f : α → Except ε β} {b : β} (h : ∀ a, x = .ok a ↔ y = .ok a) :
    x >>= f = .ok b ↔ y >>= f = .ok b := by
  constructor
  · intro hx
    obtain ⟨a, ha, hb⟩ := bind_ok hx
    rwa [(h a).mp ha]
  · intro hy
    obtain ⟨a, ha, hb⟩ := bind_ok hy
    rwa [(h a).mpr ha]

theorem bind_iff_right {f g : α → Except ε β} {b : β} (h : ∀ a, f a = .ok b ↔ g a = .ok b) :
    x >>= f = .ok b ↔ x >>= g = .ok b := by
  cases x with
  | error e => exact Iff.rfl
  | ok a => exact h a

theorem map_ok {f : α → β} {b : β} (h : x.map f = .ok b) : ∃ a, x = .ok a ∧ f a = b := by
  cases x with
  | error e => cases h
  | ok a => exact ⟨a, rfl, Except.ok.inj h⟩

theorem mapError_ok {ε' : Type} {f : ε → ε'} {a : α} (h : x.mapError f = .ok a) : x = .ok a := by
  cases x with
  | error e => cases h
  | ok b =>
    cases h
    rfl

/-- **Guard rule.** -/
theorem guard_ok {c : Prop} [Decidable c] {e : ε} {a : α} (h : (if c then .error e else x) = .ok a) :
    ¬ c ∧ x = .ok a := by
  by_cases hc : c
  · rw [if_pos hc] at h
    cases h
  · rw [if_neg hc] at h
    exact ⟨hc, h⟩

/-- **Loop rule.** What every round of a loop keeps holds after the loop. -/
theorem foldlM_ok {I : β → Prop} {f : β → α → Except ε β} {l : List α} {b b' : β} (h : l.foldlM f b = .ok b') (hb : I b)
    (hf : ∀ a ∈ l, ∀ b b', f b a = .ok b' → I b → I b') : I b' := by
  induction l generalizing b with
  | nil =>
    cases h
    exact hb
  | cons a l ih =>
    rw [List.foldlM_cons] at h
    obtain ⟨mid, hmid, h⟩ := bind_ok h
    exact ih h (hf a (by simp) b mid hmid hb) fun a' ha' => hf a' (by simp [ha'])

end TsEpistle.Library.Checked
