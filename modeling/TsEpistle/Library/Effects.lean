import Mathlib

/-! Computations that change a state and may stop with an error, after which the state stays as it was left: rules that
carry a property through them. -/

namespace TsEpistle.Library

abbrev Work (σ ε : Type) := ExceptT ε (StateM σ)

namespace Work
variable {σ ε α β : Type}

/-- `try … finally`: an error of the last part takes the place of what was answered. -/
def ensure (x : Work σ ε α) (last : Work σ ε Unit) : Work σ ε α := do
  let answer ← tryCatch x fun error => do
    last
    throw error
  last
  return answer

/-- How a run ends. -/
def Ends (Q : α → σ → Prop) (E : σ → Prop) : Except ε α × σ → Prop
  | (.ok a, s) => Q a s
  | (.error _, s) => E s

/-- From states with `P` the computation leads to `Q`, or stops with `E`. -/
def Leads (P : σ → Prop) (x : Work σ ε α) (Q : α → σ → Prop) (E : σ → Prop) : Prop :=
  ∀ s, P s → Ends Q E (x.run.run s)

variable {P P' : σ → Prop} {Q Q' : α → σ → Prop} {R : β → σ → Prop} {E E' : σ → Prop}

theorem Ends.weaken {r : Except ε α × σ} (h : Ends Q E r) (hQ : ∀ a s, Q a s → Q' a s) (hE : ∀ s, E s → E' s) :
    Ends Q' E' r := by
  match r, h with
  | (.ok a, s), h => exact hQ a s h
  | (.error _, s), h => exact hE s h

theorem Leads.weaken {x : Work σ ε α} (h : Leads P x Q E) (hP : ∀ s, P' s → P s) (hQ : ∀ a s, Q a s → Q' a s)
    (hE : ∀ s, E s → E' s) : Leads P' x Q' E' :=
  fun s hs => (h s (hP s hs)).weaken hQ hE

theorem leads_pure {a : α} (h : ∀ s, P s → Q a s) : Leads P (pure a : Work σ ε α) Q E := h

theorem leads_throw {e : ε} (h : ∀ s, P s → E s) : Leads P (throw e : Work σ ε α) Q E := h

theorem leads_modify {f : σ → σ} {Q : Unit → σ → Prop} (h : ∀ s, P s → Q () (f s)) :
    Leads P (modify f : Work σ ε Unit) (fun a => Q a) E := h

theorem leads_set {s' : σ} {Q : Unit → σ → Prop} (h : ∀ s, P s → Q () s') :
    Leads P (set s' : Work σ ε Unit) (fun a => Q a) E := h

/-- What is read is the state. -/
theorem leads_get_bind {f : σ → Work σ ε β} (h : ∀ s₀, Leads (fun s => P s ∧ s = s₀) (f s₀) R E) :
    Leads P (get >>= f) R E :=
  fun s hs => h s s ⟨hs, rfl⟩

theorem run_bind (x : Work σ ε α) (f : α → Work σ ε β) (s : σ) :
    (x >>= f).run.run s = match x.run.run s with
      | (.ok a, s') => (f a).run.run s'
      | (.error e, s') => (.error e, s') := by
  simp only [ExceptT.run_bind, StateT.run_bind]
  match x.run.run s with
  | (.ok a, s') => rfl
  | (.error e, s') => rfl

theorem run_tryCatch (x : Work σ ε α) (handler : ε → Work σ ε α) (s : σ) :
    (tryCatch x handler).run.run s = match x.run.run s with
      | (.ok a, s') => (.ok a, s')
      | (.error e, s') => (handler e).run.run s' := by
  simp only [ExceptT.run_tryCatch, StateT.run_bind]
  match x.run.run s with
  | (.ok a, s') => rfl
  | (.error e, s') => rfl

/-- **Sequence rule.** -/
theorem Leads.bind {x : Work σ ε α} {f : α → Work σ ε β} (h : Leads P x Q E) (hf : ∀ a, Leads (Q a) (f a) R E) :
    Leads P (x >>= f) R E := by
  intro s hs
  have hx := h s hs
  rw [run_bind]
  match x.run.run s, hx with
  | (.ok a, s'), hx => exact hf a s' hx
  | (.error _, s'), hx => exact hx

/-- **Catch rule.** -/
theorem Leads.tryCatch {x : Work σ ε α} {handler : ε → Work σ ε α} (h : Leads P x Q E')
    (hhandler : ∀ e, Leads E' (handler e) Q E) : Leads P (tryCatch x handler) Q E := by
  intro s hs
  have hx := h s hs
  rw [run_tryCatch]
  match x.run.run s, hx with
  | (.ok a, s'), hx => exact hx
  | (.error e, s'), hx => exact hhandler e s' hx

/-- **Finally rule.** What the last part makes of both ends. -/
theorem Leads.ensure {x : Work σ ε α} {last : Work σ ε Unit} (h : Leads P x Q E')
    (hok : ∀ a, Leads (Q a) last (fun _ => Q' a) E) (herror : Leads E' last (fun _ => E) E) :
    Leads P (ensure x last) Q' E := by
  refine Leads.bind (Q := Q) ?_ fun a => (hok a).bind fun _ => leads_pure fun _ hs => hs
  refine Leads.tryCatch (h.weaken (fun _ hs => hs) (fun _ _ hs => hs) fun _ hs => hs) fun e => ?_
  exact herror.bind fun _ => leads_throw fun _ hs => hs

/-- **Loop rule.** The property may speak of the items to come. -/
theorem leads_forM {f : α → Work σ ε Unit} {I : List α → σ → Prop} (items : List α)
    (h : ∀ a rest, Leads (I (a :: rest)) (f a) (fun _ => I rest) E) :
    Leads (I items) (items.forM f) (fun _ => I []) E := by
  induction items with
  | nil => exact leads_pure fun _ hs => hs
  | cons a items ih => exact (h a items).bind fun _ => ih

end Work
end TsEpistle.Library
