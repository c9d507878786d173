import Mathlib

/-! Tables as lists of rows, and the `UPDATE … WHERE …` statement on them: every
row that meets the condition is replaced, in place, and the statement answers
with the number of rows it replaced. -/

namespace TsEpistle.Library.Table

open List Function

variable {ρ κ : Type}

def updateWhere (p : ρ → Bool) (f : ρ → ρ) (rows : List ρ) : List ρ :=
  rows.map fun r => if p r then f r else r

/-- The number an `UPDATE` with condition `p` answers. -/
def updated (p : ρ → Bool) (rows : List ρ) : Nat := rows.countP p

/-- The row stored under `k`. -/
def get [DecidableEq κ] (key : ρ → κ) (rows : List ρ) (k : κ) : Option ρ :=
  rows.find? fun r => key r = k

/-- The rows after `row` has been written in the place of the one with its key. -/
def replace [DecidableEq κ] (key : ρ → κ) (row : ρ) (rows : List ρ) : List ρ :=
  updateWhere (fun r => key r = key row) (fun _ => row) rows

variable {rows : List ρ} {p : ρ → Bool} {f : ρ → ρ}

theorem mem_updateWhere {r' : ρ} :
    r' ∈ updateWhere p f rows ↔ ∃ r ∈ rows, (if p r then f r else r) = r' := by
  simp [updateWhere]

/-- **Update rule.** -/
theorem forall_updateWhere {I : ρ → Prop} (h : ∀ r ∈ rows, I r) (hf : ∀ r ∈ rows, p r = true → I r → I (f r)) :
    ∀ r ∈ updateWhere p f rows, I r := by
  intro r' hr'
  obtain ⟨r, hr, rfl⟩ := mem_updateWhere.mp hr'
  split
  · rename_i hp
    exact hf r hr hp (h r hr)
  · exact h r hr

theorem map_updateWhere (key : ρ → κ) (hf : ∀ r, key (f r) = key r) (rows : List ρ) :
    (updateWhere p f rows).map key = rows.map key := by
  rw [updateWhere, map_map]
  refine map_congr_left fun r _ => ?_
  simp only [comp_apply]
  split
  · exact hf r
  · rfl

theorem updateWhere_eq_self (h : ∀ r ∈ rows, p r = false) : updateWhere p f rows = rows := by
  rw [updateWhere]
  conv_rhs => rw [← map_id rows]
  refine map_congr_left fun r hr => ?_
  simp [h r hr]

/-- An update that asks for one key replaces at most the row stored under it. -/
theorem updated_eq_one_iff (key : ρ → κ) (hnodup : (rows.map key).Nodup) {k : κ} (hk : ∀ r, p r = true → key r = k) :
    updated p rows = 1 ↔ ∃ r ∈ rows, p r = true := by
  constructor
  · intro h
    have hpos : 0 < rows.countP p := by rw [updated] at h; omega
    exact countP_pos_iff.mp hpos
  · rintro ⟨r, hr, hp⟩
    have hle : ∀ l : List ρ, (l.map key).Nodup → l.countP p ≤ 1 := by
      intro l hl
      induction l with
      | nil => simp
      | cons a l ih =>
        rw [map_cons, nodup_cons] at hl
        by_cases ha : p a = true
        · have hnone : l.countP p = 0 := by
            rw [countP_eq_zero]
            intro b hb hpb
            exact hl.1 (mem_map.mpr ⟨b, hb, (hk b hpb).trans (hk a ha).symm⟩)
          simp [ha, hnone]
        · simpa [ha] using ih hl.2
    have hpos : 0 < rows.countP p := countP_pos_iff.mpr ⟨r, hr, hp⟩
    have := hle rows hnodup
    rw [updated]
    omega

/-! ## Two tables row by row -/

theorem forall₂_updateWhere {ρ' : Type} {R : ρ' → ρ → Prop} {rows : List ρ'} {rows' : List ρ}
    (h : List.Forall₂ R rows rows') (hf : ∀ r ∈ rows, ∀ r', R r r' → p r' = true → R r (f r')) :
    List.Forall₂ R rows (updateWhere p f rows') := by
  induction h with
  | nil => exact .nil
  | @cons r r' rows rows' hr _ ih =>
    refine .cons ?_ (ih fun x hx => hf x (mem_cons_of_mem r hx))
    dsimp only
    split
    · rename_i hp
      exact hf r (by simp) r' hr hp
    · exact hr

theorem exists_of_mem_right {ρ' : Type} {R : ρ' → ρ → Prop} {rows : List ρ'} {rows' : List ρ}
    (h : List.Forall₂ R rows rows') : ∀ r' ∈ rows', ∃ r ∈ rows, R r r' := by
  induction h with
  | nil => nofun
  | @cons r r' rows rows' hr _ ih =>
    intro x hx
    rcases mem_cons.mp hx with rfl | hx
    · exact ⟨r, by simp, hr⟩
    · obtain ⟨y, hy, hxy⟩ := ih x hx
      exact ⟨y, mem_cons_of_mem r hy, hxy⟩

theorem exists_of_mem_left {ρ' : Type} {R : ρ' → ρ → Prop} {rows : List ρ'} {rows' : List ρ}
    (h : List.Forall₂ R rows rows') : ∀ r ∈ rows, ∃ r' ∈ rows', R r r' :=
  exists_of_mem_right h.flip

theorem map_eq_of_forall₂ {α : Type} (g : ρ → α) {R : ρ → ρ → Prop} {rows rows' : List ρ}
    (h : List.Forall₂ R rows rows') (hg : ∀ r r', R r r' → g r' = g r) : rows'.map g = rows.map g := by
  induction h with
  | nil => rfl
  | cons hr _ ih => rw [map_cons, map_cons, hg _ _ hr, ih]

theorem countP_eq_of_forall₂ {R : ρ → ρ → Prop} {rows rows' : List ρ} (h : List.Forall₂ R rows rows')
    (hp : ∀ r r', R r r' → p r' = p r) : rows'.countP p = rows.countP p := by
  induction h with
  | nil => rfl
  | cons hr _ ih => rw [countP_cons, countP_cons, hp _ _ hr, ih]

section
variable [DecidableEq κ] (key : ρ → κ)

theorem get_mem {k : κ} {r : ρ} (h : get key rows k = some r) : r ∈ rows ∧ key r = k :=
  ⟨mem_of_find?_eq_some h, by simpa using find?_some h⟩

theorem get_eq_some_iff (hnodup : (rows.map key).Nodup) {k : κ} {r : ρ} :
    get key rows k = some r ↔ r ∈ rows ∧ key r = k := by
  constructor
  · exact get_mem key
  · rintro ⟨hr, rfl⟩
    obtain ⟨r', hr'⟩ : ∃ r', get key rows (key r) = some r' := by
      rw [← Option.isSome_iff_exists, get, find?_isSome]
      exact ⟨r, hr, by simp⟩
    have hmem := get_mem key hr'
    rw [hr', inj_on_of_nodup_map hnodup hmem.1 hr hmem.2]

theorem get_updateWhere (hf : ∀ r, key (f r) = key r) (rows : List ρ) (k : κ) :
    get key (updateWhere p f rows) k = (get key rows k).map fun r => if p r then f r else r := by
  rw [get, updateWhere, find?_map, get]
  congr 2
  funext r
  simp only [comp_apply]
  split
  · rw [hf r]
  · rfl

theorem get_append (rows rows' : List ρ) (k : κ) :
    get key (rows ++ rows') k = (get key rows k).or (get key rows' k) := by
  simp [get, find?_append]

/-! ## Writing one row -/

theorem mem_replace {row r : ρ} (h : r ∈ replace key row rows) : r = row ∨ (r ∈ rows ∧ key r ≠ key row) := by
  obtain ⟨r', hr', heq⟩ := mem_updateWhere.mp h
  split at heq
  · exact .inl heq.symm
  · rename_i hne
    subst heq
    exact .inr ⟨hr', by simpa using hne⟩

theorem map_replace (row : ρ) (rows : List ρ) : (replace key row rows).map key = rows.map key := by
  rw [replace, updateWhere, map_map]
  refine map_congr_left fun r _ => ?_
  simp only [comp_apply]
  split
  · rename_i h
    exact (of_decide_eq_true h).symm
  · rfl

theorem get_replace (row : ρ) (rows : List ρ) (k : κ) :
    get key (replace key row rows) k = if k = key row then (get key rows k).map fun _ => row else get key rows k := by
  induction rows with
  | nil => simp [get, replace, updateWhere]
  | cons r rows ih =>
    have hcons : replace key row (r :: rows) =
        (if key r = key row then row else r) :: replace key row rows := by
      simp [replace, updateWhere]
    rw [hcons, get, find?_cons, get, find?_cons]
    by_cases hrow : key r = key row
    · by_cases hk : k = key row
      · simp [hrow, hk]
      · have hk' : key row ≠ k := fun h => hk h.symm
        simpa [hrow, hk, hk', get] using ih
    · by_cases hk : key r = k
      · have hne : k ≠ key row := fun h => hrow (hk.trans h)
        simp [hk, hne]
      · simpa [hrow, hk, get] using ih

/-- **Write rule for sums.** -/
theorem sum_replace (w : ρ → Nat) {row old : ρ} (hnodup : (rows.map key).Nodup)
    (hold : get key rows (key row) = some old) :
    ((replace key row rows).map w).sum + w old = (rows.map w).sum + w row := by
  induction rows with
  | nil => simp [get] at hold
  | cons r rows ih =>
    rw [map_cons, nodup_cons] at hnodup
    have hcons : replace key row (r :: rows) =
        (if key r = key row then row else r) :: replace key row rows := by
      simp [replace, updateWhere]
    rw [hcons, map_cons, map_cons, sum_cons, sum_cons]
    by_cases hrow : key r = key row
    · have hr : r = old := by simpa [get, hrow] using hold
      have hrest : replace key row rows = rows := by
        refine updateWhere_eq_self fun r' hr' => ?_
        have hne : key r' ≠ key row := fun h =>
          hnodup.1 (mem_map.mpr ⟨r', hr', h.trans hrow.symm⟩)
        simpa using hne
      rw [if_pos hrow, hrest, hr]
      omega
    · have hrest : get key rows (key row) = some old := by simpa [get, hrow] using hold
      have := ih hnodup.2 hrest
      rw [if_neg hrow]
      omega

/-- **Write rule for counts.** -/
theorem countP_replace (p : ρ → Bool) {row old : ρ} (hnodup : (rows.map key).Nodup)
    (hold : get key rows (key row) = some old) :
    (replace key row rows).countP p + (if p old then 1 else 0) = rows.countP p + (if p row then 1 else 0) := by
  have hcount : ∀ l : List ρ, l.countP p = (l.map fun r => if p r then 1 else 0).sum := by
    intro l
    induction l with
    | nil => rfl
    | cons r l ih =>
      rw [countP_cons, ih, map_cons, sum_cons]
      omega
  rw [hcount, hcount]
  exact sum_replace key (fun r => if p r then 1 else 0) hnodup hold

theorem updateWhere_eq_replace {row : ρ} (hnodup : (rows.map key).Nodup) (hrow : row ∈ rows)
    (hp : p row = true) (hkey : ∀ r, p r = true → key r = key row) (hf : key (f row) = key row) :
    updateWhere p f rows = replace key (f row) rows := by
  refine map_congr_left fun r hr => ?_
  by_cases hpr : p r = true
  · obtain rfl := inj_on_of_nodup_map hnodup hr hrow (hkey r hpr)
    simp [hp, hf]
  · have hne : key r ≠ key row := by
      intro heq
      obtain rfl := inj_on_of_nodup_map hnodup hr hrow heq
      exact hpr hp
    simp [hpr, hf, hne]

theorem updateWhere_eq_replace_of_updated {row : ρ} (hnodup : (rows.map key).Nodup)
    (hrow : row ∈ rows) (hupdated : updated p rows = 1) (hkey : ∀ r, p r = true → key r = key row)
    (hf : key (f row) = key row) : updateWhere p f rows = replace key (f row) rows := by
  obtain ⟨r, hr, hpr⟩ := (updated_eq_one_iff key hnodup hkey).mp hupdated
  obtain rfl := inj_on_of_nodup_map hnodup hr hrow (hkey r hpr)
  exact updateWhere_eq_replace key hnodup hrow hpr hkey hf

theorem map_replace_of_mem {α : Type} (g : ρ → α) {row old : ρ} (hnodup : (rows.map key).Nodup) (hold : old ∈ rows)
    (hkey : key old = key row) (hg : g row = g old) : (replace key row rows).map g = rows.map g := by
  rw [replace, updateWhere, map_map]
  refine map_congr_left fun r hr => ?_
  simp only [comp_apply, decide_eq_true_eq]
  split
  · rename_i heq
    obtain rfl := inj_on_of_nodup_map hnodup hr hold (heq.trans hkey.symm)
    exact hg
  · rfl

theorem countP_replace_le {row old : ρ} (hnodup : (rows.map key).Nodup) (hold : get key rows (key row) = some old)
    (hp : p row = true → p old = true) : (replace key row rows).countP p ≤ rows.countP p := by
  have hcount := countP_replace key p hnodup hold
  by_cases hrow : p row = true
  · simp only [hrow, hp hrow, if_true] at hcount
    omega
  · simp only [hrow, Bool.false_eq_true, if_false] at hcount
    omega

/-- The row under a key is filtered like all others. -/
theorem get_filter (h : (rows.map key).Nodup) (k : κ) : get key (rows.filter p) k = (get key rows k).filter p := by
  unfold get
  induction rows with
  | nil => rfl
  | cons row rows ih =>
    rw [map_cons, nodup_cons] at h
    have hrest := ih h.2
    by_cases hkey : key row = k
    · have hnone : rows.find? (fun r => key r = k) = none := by
        rw [find?_eq_none]
        intro other hother
        have hne : key other ≠ k := fun hsame => h.1 (mem_map.mpr ⟨other, hother, hsame.trans hkey.symm⟩)
        simpa using hne
      rw [hnone] at hrest
      rw [find?_cons_of_pos (by simpa using hkey), Option.filter_some]
      by_cases hp : p row = true
      · rw [filter_cons_of_pos hp, find?_cons_of_pos (by simpa using hkey), if_pos hp]
      · rw [filter_cons_of_neg hp, hrest, if_neg hp]
        rfl
    · rw [find?_cons_of_neg (by simpa using hkey)]
      by_cases hp : p row = true
      · rw [filter_cons_of_pos hp, find?_cons_of_neg (by simpa using hkey), hrest]
      · rw [filter_cons_of_neg hp, hrest]

end

end TsEpistle.Library.Table
