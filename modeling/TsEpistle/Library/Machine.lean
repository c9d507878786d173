import Mathlib

/-! Machines that execute operations from a given type. An operation runs only
where it is enabled; a run is a list of operations, each enabled when its turn
comes. Invariants are proved once for one operation and lifted to every run. -/

namespace TsEpistle.Library

structure Machine (σ ω : Type) where
  enabled : ω → σ → Prop
  exec : ω → σ → σ

namespace Machine
variable {σ ω : Type} (M : Machine σ ω)

/-- The state after all of `ops`. -/
def after (ops : List ω) (s : σ) : σ := ops.foldl (fun s op => M.exec op s) s

/-- Every operation of `ops` is enabled when its turn comes. -/
def Valid : List ω → σ → Prop
  | [], _ => True
  | op :: ops, s => M.enabled op s ∧ Valid ops (M.exec op s)

instance [∀ op s, Decidable (M.enabled op s)] : ∀ ops s, Decidable (M.Valid ops s)
  | [], _ => .isTrue trivial
  | op :: ops, s =>
    have := instDecidableValidOfEnabled ops (M.exec op s)
    inferInstanceAs (Decidable (_ ∧ _))

@[simp] theorem after_nil (s : σ) : M.after [] s = s := rfl

@[simp] theorem after_cons (op : ω) (ops : List ω) (s : σ) : M.after (op :: ops) s = M.after ops (M.exec op s) := rfl

theorem after_append (ops ops' : List ω) (s : σ) : M.after (ops ++ ops') s = M.after ops' (M.after ops s) := by
  simp [after]

theorem valid_append (ops ops' : List ω) (s : σ) :
    M.Valid (ops ++ ops') s ↔ M.Valid ops s ∧ M.Valid ops' (M.after ops s) := by
  induction ops generalizing s with
  | nil => simp [Valid]
  | cons op ops ih => simp [Valid, ih, and_assoc]

/-- Reached from `s₀` by some run. -/
def Reachable (s₀ s : σ) : Prop := ∃ ops, M.Valid ops s₀ ∧ M.after ops s₀ = s

variable {M}

theorem Reachable.refl (s₀ : σ) : M.Reachable s₀ s₀ := ⟨[], trivial, rfl⟩

theorem Reachable.trans {s₀ s₁ s₂ : σ} (h₁ : M.Reachable s₀ s₁) (h₂ : M.Reachable s₁ s₂) : M.Reachable s₀ s₂ := by
  obtain ⟨ops₁, hv₁, rfl⟩ := h₁
  obtain ⟨ops₂, hv₂, rfl⟩ := h₂
  exact ⟨ops₁ ++ ops₂, (M.valid_append _ _ _).mpr ⟨hv₁, hv₂⟩, M.after_append _ _ _⟩

theorem Reachable.step {s₀ s : σ} (h : M.Reachable s₀ s) {op : ω} (hop : M.enabled op s) :
    M.Reachable s₀ (M.exec op s) :=
  h.trans ⟨[op], ⟨hop, trivial⟩, rfl⟩

/-- **Run rule.** What holds at the start and is kept by every enabled operation
holds wherever a run ends. -/
theorem Reachable.invariant {I : σ → Prop} {s₀ s : σ} (h : M.Reachable s₀ s)
    (h₀ : I s₀) (hstep : ∀ op s, M.enabled op s → I s → I (M.exec op s)) : I s := by
  obtain ⟨ops, hv, rfl⟩ := h
  induction ops generalizing s₀ with
  | nil => exact h₀
  | cons op ops ih => exact ih (hstep op s₀ hv.1 h₀) hv.2

/-- The run rule with an invariant known already. -/
theorem Reachable.invariant_under {I J : σ → Prop} {s₀ s : σ} (h : M.Reachable s₀ s)
    (hI₀ : I s₀) (hI : ∀ op s, M.enabled op s → I s → I (M.exec op s)) (h₀ : J s₀)
    (hstep : ∀ op s, M.enabled op s → I s → J s → J (M.exec op s)) : J s :=
  (h.invariant (I := fun s => I s ∧ J s) ⟨hI₀, h₀⟩ fun op s hop hs =>
    ⟨hI op s hop hs.1, hstep op s hop hs.1 hs.2⟩).2

/-- The machine whose operations run only where `C` holds as well. -/
def restrict (M : Machine σ ω) (C : ω → σ → Prop) : Machine σ ω where
  enabled op s := M.enabled op s ∧ C op s
  exec := M.exec

theorem reachable_of_restrict {C : ω → σ → Prop} {s₀ s : σ} (h : (M.restrict C).Reachable s₀ s) : M.Reachable s₀ s := by
  refine h.invariant (I := fun s => M.Reachable s₀ s) (Reachable.refl s₀) ?_
  intro op s hop hs
  exact hs.step hop.1

end Machine

end TsEpistle.Library
