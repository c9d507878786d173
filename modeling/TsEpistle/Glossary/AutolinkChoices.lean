import TsEpistle.Glossary.Autolinks

/-! Where names are found in a text, and the greedy choice among the places. -/

namespace TsEpistle.Glossary.Autolinks
open Library List
open Discussions (characters)

/-! ## Searches -/

section
variable {taken : List JsString → Option (List JsString)}

variable {text : List JsString}

theorem index_le_matchAll {skip index : Nat} {found : Found} (h : found ∈ matchAll taken skip index text) :
    index + (text.take skip).flatten.length ≤ found.index := by
  induction text generalizing skip index with
  | nil => cases skip <;> cases h
  | cons character rest ih =>
    cases skip with
    | succ skip =>
      rw [matchAll] at h
      have hle := ih h
      rw [take_succ_cons, flatten_cons, length_append]
      omega
    | zero =>
      rw [take_zero, flatten_nil, length_nil, Nat.add_zero]
      unfold matchAll at h
      split at h
      · rcases mem_cons.mp h with rfl | h
        · exact le_refl _
        · have hle := ih h
          omega
      · have hle := ih h
        omega

variable (taken) in
/-- Matches stand one behind the other. -/
theorem matchAll_separate (hleading : ∀ text result, taken text = some result → result <+: text) (skip index : Nat)
    (text : List JsString) : (matchAll taken skip index text).Pairwise fun left right => left.stop ≤ right.index := by
  induction text generalizing skip index with
  | nil => cases skip <;> exact .nil
  | cons character rest ih =>
    cases skip with
    | succ skip => exact ih skip _
    | zero =>
      unfold matchAll
      split
      · rename_i first more htaken
        refine pairwise_cons.mpr ⟨fun later hlater => ?_, ih _ _⟩
        obtain ⟨behind, hbehind⟩ := hleading _ _ htaken
        rw [cons_append] at hbehind
        obtain ⟨rfl, hrest⟩ := List.cons.inj hbehind
        have hle := index_le_matchAll hlater
        rw [← hrest, take_left] at hle
        rw [Found.stop, flatten_cons, length_append]
        dsimp only
        omega
      · exact ih _ _

theorem index_le_everyMatch {index : Nat} {found : Found} (h : found ∈ everyMatch taken index text) :
    index ≤ found.index := by
  induction text generalizing index with
  | nil => cases h
  | cons character rest ih =>
    unfold everyMatch at h
    split at h
    · rcases mem_cons.mp h with rfl | h
      · exact le_refl _
      · have hle := ih h
        omega
    · have hle := ih h
      omega

/-- A place that no earlier one overlaps is found. -/
theorem mem_matchAll (hleading : ∀ text result, taken text = some result → result <+: text) {skip index : Nat}
    (hne : ∀ character ∈ text, character ≠ []) {found : Found} (h : found ∈ everyMatch taken index text)
    (hskip : index + (text.take skip).flatten.length ≤ found.index)
    (hclear : ∀ earlier ∈ everyMatch taken index text, earlier.index < found.index → earlier.stop ≤ found.index) :
    found ∈ matchAll taken skip index text := by
  induction text generalizing skip index with
  | nil => cases h
  | cons character rest ih =>
    obtain ⟨hcharacter, hrest⟩ := forall_mem_cons.mp hne
    have hpositive := length_pos_of_ne_nil hcharacter
    unfold everyMatch at h hclear
    cases skip with
    | succ skip =>
      rw [take_succ_cons, flatten_cons, length_append] at hskip
      rw [matchAll]
      split at h
      · rename_i first more htaken
        rw [htaken] at hclear
        rcases mem_cons.mp h with rfl | h
        · dsimp only at hskip
          omega
        · exact ih hrest h (by omega) fun earlier hearlier => hclear earlier (mem_cons_of_mem _ hearlier)
      · rename_i hnone
        split at hclear
        · rename_i htaken
          exact absurd htaken (hnone _ _)
        · exact ih hrest h (by omega) hclear
    | zero =>
      unfold matchAll
      split at h
      · rename_i first more htaken
        rw [htaken] at hclear
        rcases mem_cons.mp h with rfl | h
        · exact mem_cons_self
        · have hle := index_le_everyMatch h
          have hstop := hclear _ mem_cons_self (by dsimp only; omega)
          obtain ⟨behind, hbehind⟩ := hleading _ _ htaken
          rw [cons_append] at hbehind
          obtain ⟨rfl, htail⟩ := List.cons.inj hbehind
          rw [Found.stop, flatten_cons, length_append] at hstop
          dsimp only at hstop
          refine mem_cons_of_mem _ (ih hrest h ?_ fun earlier hearlier =>
            hclear earlier (mem_cons_of_mem _ hearlier))
          rw [← htail, take_left]
          omega
      · rename_i hnone
        have hle := index_le_everyMatch h
        split at hclear
        · rename_i htaken
          exact absurd htaken (hnone _ _)
        · refine ih hrest h ?_ hclear
          rw [take_zero, flatten_nil, length_nil]
          omega

theorem everyMatch_nodup (index : Nat) (hne : ∀ character ∈ text, character ≠ []) :
    (everyMatch taken index text).Nodup := by
  induction text generalizing index with
  | nil => exact nodup_nil
  | cons character rest ih =>
    obtain ⟨hcharacter, hrest⟩ := forall_mem_cons.mp hne
    have hpositive := length_pos_of_ne_nil hcharacter
    unfold everyMatch
    split
    · refine nodup_cons.mpr ⟨fun hmem => ?_, ih _ hrest⟩
      have hle := index_le_everyMatch hmem
      dsimp only at hle
      omega
    · exact ih _ hrest

variable (taken) in
/-- A place lies in the text. -/
theorem everyMatch_within (hleading : ∀ text result, taken text = some result → result <+: text) {index : Nat}
    (hne : ∀ character ∈ text, character ≠ []) {found : Found} (h : found ∈ everyMatch taken index text) :
    found.index < found.stop ∧ found.stop ≤ index + text.flatten.length := by
  induction text generalizing index with
  | nil => cases h
  | cons character rest ih =>
    obtain ⟨hcharacter, hrest⟩ := forall_mem_cons.mp hne
    rw [flatten_cons, length_append, ← Nat.add_assoc]
    unfold everyMatch at h
    split at h
    · rename_i first more htaken
      rcases mem_cons.mp h with rfl | h
      · obtain ⟨behind, hbehind⟩ := hleading _ _ htaken
        rw [cons_append] at hbehind
        obtain ⟨rfl, rfl⟩ := List.cons.inj hbehind
        have hpositive := length_pos_of_ne_nil hcharacter
        rw [flatten_append, length_append, Found.stop, flatten_cons, length_append]
        dsimp only
        omega
      · exact ih hrest h
    · exact ih hrest h

theorem matchAll_sublist (skip index : Nat) (text : List JsString) :
    (matchAll taken skip index text).Sublist (everyMatch taken index text) := by
  induction text generalizing skip index with
  | nil => cases skip <;> exact .slnil
  | cons character rest ih =>
    unfold everyMatch
    cases skip with
    | succ skip =>
      rw [matchAll]
      split
      · exact (ih skip _).cons _
      · exact ih skip _
    | zero =>
      unfold matchAll
      split
      · exact (ih _ _).cons_cons _
      · exact ih _ _

/-- Lists that agree on what passes. -/
theorem filter_eq_of_sublist {l l' : List Found} (hsub : l.Sublist l') (hnodup : l'.Nodup) {p : Found → Bool}
    (h : ∀ found ∈ l', p found = true → found ∈ l) : l.filter p = l'.filter p := by
  have hsubset : l'.filter p ⊆ l.filter p := by
    intro found hfound
    obtain ⟨hmem, hpasses⟩ := mem_filter.mp hfound
    exact mem_filter.mpr ⟨h found hmem hpasses, hpasses⟩
  exact (hsub.filter p).eq_of_length_le (subperm_of_subset (hnodup.filter p) hsubset).length_le

end

section
variable {language : Language}

theorem matchHere_prefix {caseSensitive : Bool} {pattern text result : List JsString}
    (h : matchHere language caseSensitive pattern text = some result) : result <+: text := by
  induction pattern generalizing text result with
  | nil =>
    obtain rfl := Option.some.inj h
    exact nil_prefix
  | cons character pattern ih =>
    unfold matchHere at h
    split at h
    · dsimp only at h
      split at h
      · cases h
      · obtain ⟨more, hmore, rfl⟩ := Option.map_eq_some_iff.mp h
        conv_rhs => rw [← takeWhile_append_dropWhile (p := isSpaceCharacter) (l := text)]
        exact prefix_append_right_inj _ |>.mpr (ih hmore)
    · split at h
      · cases h
      · split at h
        · obtain ⟨more, hmore, rfl⟩ := Option.map_eq_some_iff.mp h
          exact cons_prefix_cons.mpr ⟨rfl, ih hmore⟩
        · cases h

theorem explicitHere_prefix {text result : List JsString}
    (h : (explicitHere language text).map Prod.fst = some result) : result <+: text := by
  obtain ⟨⟨taken, term, label⟩, hexplicit, rfl⟩ := Option.map_eq_some_iff.mp h
  unfold explicitHere at hexplicit
  split at hexplicit
  · cases hexplicit
  · rename_i opening hopening
    obtain ⟨rest, rfl⟩ := matchHere_prefix hopening
    dsimp only at hexplicit
    rw [drop_left] at hexplicit
    have hterm := takeWhile_append_dropWhile (p := isTermUnit) (l := rest)
    split at hexplicit
    · cases hexplicit
    · split at hexplicit
      · rename_i hclose
        obtain ⟨rfl, -, -⟩ := Option.some.inj hexplicit
        rw [append_assoc, ← hclose]
        refine (prefix_append_right_inj _).mpr ?_
        conv_rhs => rw [← hterm]
        exact (prefix_append_right_inj _).mpr (List.take_prefix _ _)
      · split at hexplicit
        · rename_i hbar
          split at hexplicit
          · rename_i hlabel
            obtain ⟨rfl, -, -⟩ := Option.some.inj hexplicit
            have hbehind : rest.dropWhile isTermUnit = [124] :: (rest.dropWhile isTermUnit).tail := by
              cases hrest : rest.dropWhile isTermUnit with
              | nil =>
                rw [hrest] at hbar
                cases hbar
              | cons first more =>
                rw [hrest] at hbar
                rw [Option.some.inj hbar, tail_cons]
            have hshown := takeWhile_append_dropWhile (p := isLabelUnit) (l := (rest.dropWhile isTermUnit).tail)
            simp only [append_assoc]
            refine (prefix_append_right_inj _).mpr ?_
            conv_rhs => rw [← hterm]
            refine (prefix_append_right_inj _).mpr ?_
            conv_rhs => rw [hbehind]
            refine cons_prefix_cons.mpr ⟨rfl, ?_⟩
            conv_rhs => rw [← hshown]
            show (rest.dropWhile isTermUnit).tail.takeWhile isLabelUnit ++ [[93], [93]] <+: _
            rw [← hlabel.2]
            exact (prefix_append_right_inj _).mpr (List.take_prefix _ _)
          · cases hexplicit
        · cases hexplicit

end

/-! ## Choices -/

theorem overlaps_comm (left right : Match) : left.overlaps right = right.overlaps left := Bool.and_comm _ _

theorem getElem?_modify_append (links : List (List Match)) (order i : Nat) (link : Match) :
    (links.modify order (· ++ [link]))[i]?.getD [] =
      if order = i ∧ i < links.length then links[i]?.getD [] ++ [link] else links[i]?.getD [] := by
  rw [getElem?_modify]
  by_cases hi : i < links.length
  · rw [getElem?_eq_getElem hi]
    by_cases horder : order = i
    · rw [if_pos ⟨horder, hi⟩]
      simp [horder]
    · rw [if_neg fun hboth => horder hboth.1]
      simp [horder]
  · rw [getElem?_eq_none (by omega), if_neg fun hboth => hi hboth.2]
    rfl

/-- What one choice does to the links of a node. -/
theorem at_choose (state : Linked) (candidate : Candidate) (i : Nat) : (choose state candidate).at i = state.at i ∨
    (choose state candidate).at i = state.at i ++ [candidate.link] ∧ candidate.link.id ∉ state.used ∧
    (state.at i).any candidate.link.overlaps = false ∧ candidate.link.id ∈ (choose state candidate).used := by
  unfold choose
  split
  · exact .inl rfl
  · rename_i hfree
    rw [not_or, Bool.not_eq_true] at hfree
    rw [Linked.at, getElem?_modify_append]
    split
    · rename_i horder
      obtain ⟨rfl, -⟩ := horder
      exact .inr ⟨rfl, hfree.1, hfree.2, mem_cons_self⟩
    · exact .inl rfl

theorem used_choose (state : Linked) (candidate : Candidate) : state.used ⊆ (choose state candidate).used := by
  unfold choose
  split
  · exact List.Subset.refl _
  · exact subset_cons_self _ _

/-- A property that every choice keeps holds of the links. -/
theorem choices_keep {P : Linked → Prop} {chosen : List Candidate} {state : Linked} (h : P state)
    (hstep : ∀ state, ∀ candidate ∈ chosen, P state → P (choose state candidate)) : P (chosen.foldl choose state) := by
  induction chosen generalizing state with
  | nil => exact h
  | cons candidate chosen ih =>
    exact ih (hstep state candidate mem_cons_self h) fun state later hlater =>
      hstep state later (mem_cons_of_mem _ hlater)

/-- No two links of a node overlap. -/
def Disjoint (state : Linked) : Prop := ∀ i, (state.at i).Pairwise fun left right => left.overlaps right = false

theorem Disjoint.choose {state : Linked} (h : Disjoint state) (candidate : Candidate) :
    Disjoint (choose state candidate) := by
  intro i
  rcases at_choose state candidate i with hsame | ⟨hadded, -, hfree, -⟩
  · rw [hsame]
    exact h i
  · rw [hadded, pairwise_append]
    refine ⟨h i, pairwise_singleton _ _, fun link hlink added hadded => ?_⟩
    obtain rfl := mem_singleton.mp hadded
    rw [any_eq_false] at hfree
    rw [overlaps_comm]
    exact Bool.not_eq_true _ ▸ hfree link hlink

/-- The automatic links of an id, over all nodes. -/
def automaticCount (id : Nat) (links : List (List Match)) : Nat :=
  links.flatten.countP fun link => !link.explicit && link.id = id

theorem automaticCount_modify (id order : Nat) (link : Match) (links : List (List Match)) :
    automaticCount id (links.modify order (· ++ [link]))
      ≤ automaticCount id links + (if link.id = id then 1 else 0) := by
  unfold automaticCount
  induction links generalizing order with
  | nil =>
    rw [modify_nil]
    exact Nat.le_add_right _ _
  | cons first links ih =>
    cases order with
    | zero =>
      rw [modify_zero_cons, flatten_cons, flatten_cons, countP_append, countP_append, countP_append, countP_singleton]
      split
      · rename_i hlink
        rw [Bool.and_eq_true, decide_eq_true_eq] at hlink
        rw [if_pos hlink.2]
        omega
      · omega
    | succ order =>
      have hle := ih order
      rw [modify_succ_cons, flatten_cons, flatten_cons, countP_append, countP_append]
      omega

/-- Each id is linked automatically at most once, and not before it is used. -/
def Once (state : Linked) : Prop := ∀ id, automaticCount id state.links ≤ if id ∈ state.used then 1 else 0

theorem Once.choose {state : Linked} (h : Once state) (candidate : Candidate) : Once (choose state candidate) := by
  unfold Autolinks.choose
  split
  · exact h
  · rename_i hfree
    rw [not_or] at hfree
    intro id
    have hle := automaticCount_modify id candidate.order candidate.link state.links
    have hid := h id
    by_cases hsame : candidate.link.id = id
    · subst hsame
      rw [if_neg hfree.1] at hid
      rw [if_pos rfl] at hle
      rw [if_pos mem_cons_self]
      dsimp only
      omega
    · rw [if_neg hsame] at hle
      by_cases hused : id ∈ state.used
      · rw [if_pos hused] at hid
        rw [if_pos (mem_cons_of_mem _ hused)]
        dsimp only
        omega
      · rw [if_neg hused] at hid
        dsimp only
        omega

/-- An id that is used has its link. -/
def Backed (nodes : Nat) (state : Linked) : Prop :=
  state.links.length = nodes ∧ ∀ id ∈ state.used, ∃ i, ∃ link ∈ state.at i, link.id = id ∧ link.explicit = false

theorem Backed.choose {nodes : Nat} {state : Linked} (h : Backed nodes state) {candidate : Candidate}
    (horder : candidate.order < nodes) (hautomatic : candidate.link.explicit = false) :
    Backed nodes (choose state candidate) := by
  obtain ⟨hlength, hused⟩ := h
  unfold Autolinks.choose
  split
  · exact ⟨hlength, hused⟩
  · refine ⟨by rw [length_modify]; exact hlength, forall_mem_cons.mpr ⟨?_, fun id hid => ?_⟩⟩
    · refine ⟨candidate.order, candidate.link, ?_, rfl, hautomatic⟩
      rw [Linked.at, getElem?_modify_append, if_pos ⟨rfl, by rw [hlength]; exact horder⟩]
      exact mem_append_right _ mem_cons_self
    · obtain ⟨i, link, hlink, hrest⟩ := hused id hid
      refine ⟨i, link, ?_, hrest⟩
      rw [Linked.at, getElem?_modify_append]
      split
      · exact mem_append_left _ hlink
      · exact hlink

/-- What is linked stays linked. -/
theorem choices_grow (chosen : List Candidate) (state : Linked) : state.used ⊆ (chosen.foldl choose state).used ∧ ∀ i,
    ∀ link ∈ state.at i, link ∈ (chosen.foldl choose state).at i := by
  refine choices_keep (P := fun later => state.used ⊆ later.used ∧ ∀ i, ∀ link ∈ state.at i, link ∈ later.at i)
    ⟨List.Subset.refl _, fun i link hlink => hlink⟩ ?_
  rintro later candidate - ⟨hused, hlinks⟩
  refine ⟨List.Subset.trans hused (used_choose later candidate), fun i link hlink => ?_⟩
  rcases at_choose later candidate i with hsame | ⟨hadded, -⟩
  · rw [hsame]
    exact hlinks i link hlink
  · rw [hadded]
    exact mem_append_left _ (hlinks i link hlink)

/-- A candidate is linked, its term is, or another link covers it. -/
theorem choices_cover {chosen : List Candidate} {candidate : Candidate} (h : candidate ∈ chosen) (state : Linked) :
    candidate.link.id ∈ (chosen.foldl choose state).used
      ∨ ∃ link ∈ (chosen.foldl choose state).at candidate.order, candidate.link.overlaps link = true := by
  obtain ⟨before, after, rfl⟩ := append_of_mem h
  rw [foldl_append, foldl_cons]
  obtain ⟨hused, hlinks⟩ := choices_grow after (choose (before.foldl choose state) candidate)
  by_cases hblocked : candidate.link.id ∈ (before.foldl choose state).used
      ∨ ((before.foldl choose state).at candidate.order).any candidate.link.overlaps = true
  · have hsame : choose (before.foldl choose state) candidate = before.foldl choose state := if_pos hblocked
    rw [hsame] at hused hlinks ⊢
    rcases hblocked with hid | hcovered
    · exact .inl (hused hid)
    · obtain ⟨link, hlink, hoverlaps⟩ := any_eq_true.mp hcovered
      exact .inr ⟨link, hlinks _ link hlink, hoverlaps⟩
  · have hfree : choose (before.foldl choose state) candidate =
        ⟨candidate.link.id :: (before.foldl choose state).used,
          (before.foldl choose state).links.modify candidate.order (· ++ [candidate.link])⟩ := if_neg hblocked
    rw [hfree] at hused ⊢
    exact .inl (hused mem_cons_self)

end TsEpistle.Glossary.Autolinks
