import Mathlib

/-! Left-fold selection of a highest-priority candidate. Candidates carry a key
in a linear order and may veto. The fold keeps one candidate: a larger key
replaces it, an equal key replaces it unless that would drop a veto. The verdict
depends only on the set of candidates, never on the order of the fold. -/

namespace TsEpistle.Library.Priority

variable {α κ : Type} [LinearOrder κ] (key : α → κ) (veto : α → Bool)

/-- One step of the fold. `none` is the state before any candidate was seen. -/
def pick : Option α → α → Option α
  | none, a => some a
  | some b, a =>
    if key a < key b ∨ (key a = key b ∧ veto b = true ∧ veto a = false) then some b
    else some a

def winner (l : List α) : Option α := l.foldl (pick key veto) none

/-- The verdict: some candidate was seen and the kept one does not veto. -/
def granted (l : List α) : Bool := (winner key veto l).any (fun a => !veto a)

/-- `a` has the greatest key of `l`. -/
def Top (l : List α) (a : α) : Prop := ∀ c ∈ l, key c ≤ key a

/-- What the kept candidate says about the candidates seen so far. -/
structure Leads (l : List α) (b : α) : Prop where
  mem : b ∈ l
  top : Top key l b
  veto : veto b = true ↔ ∃ a ∈ l, key a = key b ∧ veto a = true

theorem leads_singleton (a : α) : Leads key veto [a] a := by
  refine ⟨by simp, ?_, by simp⟩
  intro c hc
  simp at hc
  simp [hc]

theorem leads_snoc {l : List α} {b : α} (h : Leads key veto l b) (a : α) :
    ∃ b', pick key veto (some b) a = some b' ∧ Leads key veto (l ++ [a]) b' := by
  have hmem : ∀ c, c ∈ l ++ [a] ↔ c ∈ l ∨ c = a := by simp
  rcases lt_trichotomy (key a) (key b) with hlt | heq | hgt
  · refine ⟨b, by simp [pick, hlt], by simp [h.mem], ?_, ?_⟩
    · intro c hc
      rcases (hmem c).mp hc with hc | rfl
      · exact h.top c hc
      · exact hlt.le
    · rw [h.veto]
      constructor
      · rintro ⟨c, hc, hk⟩
        exact ⟨c, (hmem c).mpr (.inl hc), hk⟩
      · rintro ⟨c, hc, hk⟩
        rcases (hmem c).mp hc with hc | rfl
        · exact ⟨c, hc, hk⟩
        · exact absurd hk.1 hlt.ne
  · have htop : Top key (l ++ [a]) b := by
      intro c hc
      rcases (hmem c).mp hc with hc | rfl
      · exact h.top c hc
      · exact heq.le
    by_cases hkeep : veto b = true ∧ veto a = false
    · -- a veto on equal keys survives a later candidate that does not veto
      refine ⟨b, by simp [pick, heq, hkeep], by simp [h.mem], htop, ?_⟩
      exact ⟨fun hb => ⟨b, by simp [h.mem], rfl, hb⟩, fun _ => hkeep.1⟩
    · refine ⟨a, by simp only [pick, heq, lt_irrefl, false_or, true_and, if_neg hkeep],
        by simp, fun c hc => heq ▸ htop c hc, ?_⟩
      constructor
      · intro ha
        exact ⟨a, by simp, rfl, ha⟩
      · rintro ⟨c, hc, hk, hv⟩
        rcases (hmem c).mp hc with hc | rfl
        · have hb : veto b = true := h.veto.mpr ⟨c, hc, hk.trans heq, hv⟩
          simpa [hb] using hkeep
        · exact hv
  · refine ⟨a, by simp [pick, hgt.not_gt, hgt.ne'], by simp, ?_, ?_⟩
    · intro c hc
      rcases (hmem c).mp hc with hc | rfl
      · exact (h.top c hc).trans hgt.le
      · exact le_rfl
    · constructor
      · intro ha
        exact ⟨a, by simp, rfl, ha⟩
      · rintro ⟨c, hc, hk, hv⟩
        rcases (hmem c).mp hc with hc | rfl
        · exact absurd ((h.top c hc).trans_lt hgt) (by simp [hk])
        · exact hv

theorem winner_snoc (l : List α) (a : α) : winner key veto (l ++ [a]) = pick key veto (winner key veto l) a := by
  simp [winner]

/-- The fold keeps a leading candidate as soon as it has seen one. -/
theorem winner_leads (l : List α) :
    (l = [] ∧ winner key veto l = none) ∨ ∃ b, winner key veto l = some b ∧ Leads key veto l b := by
  induction l using List.reverseRecOn with
  | nil => exact .inl ⟨rfl, rfl⟩
  | append_singleton l a ih =>
    rw [winner_snoc]
    rcases ih with ⟨rfl, hnone⟩ | ⟨b, hb, hleads⟩
    · exact .inr ⟨a, by simp [hnone, pick], leads_singleton key veto a⟩
    · obtain ⟨b', hb', hl⟩ := leads_snoc key veto hleads a
      exact .inr ⟨b', by rw [hb, hb'], hl⟩

/-- **Selection rule.** The verdict in terms of the candidates alone. -/
theorem granted_iff (l : List α) :
    granted key veto l = true ↔ (∃ a, a ∈ l) ∧ ∀ a ∈ l, Top key l a → veto a = false := by
  rcases winner_leads key veto l with ⟨rfl, hnone⟩ | ⟨b, hb, hleads⟩
  · simp [granted, hnone]
  · have hg : granted key veto l = !veto b := by simp [granted, hb]
    rw [hg, Bool.not_eq_true']
    constructor
    · intro hv
      refine ⟨⟨b, hleads.mem⟩, fun a ha htop => ?_⟩
      have hk : key a = key b := le_antisymm (hleads.top a ha) (htop b hleads.mem)
      by_contra hne
      have hb' := hleads.veto.mpr ⟨a, ha, hk, by simpa using hne⟩
      simp [hv] at hb'
    · rintro ⟨-, hall⟩
      exact hall b hleads.mem hleads.top

/-- The verdict sees the candidates as a set. -/
theorem granted_congr {l l' : List α} (h : ∀ a, a ∈ l ↔ a ∈ l') : granted key veto l = granted key veto l' := by
  rw [Bool.eq_iff_iff, granted_iff, granted_iff]
  simp only [Top, h]

/-- A further vetoing candidate never grants. -/
theorem granted_of_insert_veto {l l' : List α} {v : α} (h : ∀ a, a ∈ l' ↔ a = v ∨ a ∈ l) (hv : veto v = true)
    (hg : granted key veto l' = true) : granted key veto l = true := by
  rw [granted_iff] at hg ⊢
  obtain ⟨⟨w, hw⟩, hall⟩ := hg
  have hnot : ¬ Top key l' v := fun ht => by simp [hall v ((h v).mpr (.inl rfl)) ht] at hv
  obtain ⟨c, hc, hlt⟩ : ∃ c ∈ l', key v < key c := by
    simpa [Top] using hnot
  have hcl : c ∈ l := ((h c).mp hc).resolve_left (by rintro rfl; exact lt_irrefl _ hlt)
  refine ⟨⟨c, hcl⟩, fun a ha htop => hall a ((h a).mpr (.inr ha)) ?_⟩
  intro d hd
  rcases (h d).mp hd with rfl | hd
  · exact hlt.le.trans (htop c hcl)
  · exact htop d hd

/-- A further candidate that does not veto never refuses. -/
theorem granted_insert {l l' : List α} {v : α} (h : ∀ a, a ∈ l' ↔ a = v ∨ a ∈ l) (hv : veto v = false)
    (hg : granted key veto l = true) : granted key veto l' = true := by
  rw [granted_iff] at hg ⊢
  refine ⟨⟨v, (h v).mpr (.inl rfl)⟩, fun a ha htop => ?_⟩
  rcases (h a).mp ha with rfl | ha
  · exact hv
  · exact hg.2 a ha (fun c hc => htop c ((h c).mpr (.inr hc)))

end TsEpistle.Library.Priority
