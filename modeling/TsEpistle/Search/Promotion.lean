import Mathlib

/-! The ranking of candidates by the PostgreSQL search engine (`server/modules/search/postgres/engine.ts`): pages that
others link to are raised, exact matches keep their lead. Scores are exact. -/

namespace TsEpistle.Search.Promotion

open List

def GRAPH_DEPTH : Nat := 2

/-- A candidate, with its score before promotion; `titleKey` is where the collation puts `lower(title)`. -/
structure Candidate (κ : Type) where
  pageId : Nat
  titleKey : κ
  (exactTitle exactTag : Bool)
  preliminaryScore : ℚ
  nonneg : 0 ≤ preliminaryScore

def Candidate.exact {κ : Type} (candidate : Candidate κ) : Bool := candidate.exactTitle || candidate.exactTag

/-- `round(value, 6)`: to the nearest, away from zero where two are as near. -/
def round6 (value : ℚ) : ℚ :=
  if 0 ≤ value then (⌊value * 1000000 + 1 / 2⌋ : ℚ) / 1000000 else -(⌊-value * 1000000 + 1 / 2⌋ : ℚ) / 1000000

def Candidate.roundedScore {κ : Type} (candidate : Candidate κ) : ℚ := round6 candidate.preliminaryScore

/-! ## Graph support -/

structure Edge where
  (sourceId targetId : Nat)
  deriving DecidableEq

/-- Links lead both ways. -/
def edges (links : List Edge) :
    List Edge := (links ++ links.map fun link => (⟨link.targetId, link.sourceId⟩ : Edge)).dedup

structure Walk where
  (rootId pageId depth : Nat)
  rootScore : ℚ
  deriving DecidableEq

def roots {κ : Type} (candidates : List (Candidate κ)) : List Walk :=
  (candidates.map fun candidate => ⟨candidate.pageId, candidate.pageId, 0, candidate.preliminaryScore⟩).dedup

/-- One turn of the recursive query. -/
def extend (edges : List Edge) (walks : List Walk) : List Walk :=
  ((walks.filter fun walk => walk.depth < GRAPH_DEPTH).flatMap fun walk =>
    (edges.filter fun edge => edge.sourceId = walk.pageId).map fun edge =>
      ⟨walk.rootId, edge.targetId, walk.depth + 1, walk.rootScore⟩).dedup

/-- Turns until no walk is short enough to go on; those of different turns differ in depth. -/
def graphWalk (edges : List Edge) : Nat → List Walk → List Walk
  | 0, walks => walks
  | turns + 1, walks => walks ++ graphWalk edges turns (extend edges walks)

/-- The shortest way from each root, with the highest of its scores. -/
def reachable (walks : List Walk) : List Walk :=
  let walks := walks.filter fun walk => walk.rootId ≠ walk.pageId
  (walks.map fun walk => (walk.rootId, walk.pageId)).dedup.map fun group =>
    let members := walks.filter fun walk => (walk.rootId, walk.pageId) = group
    ⟨group.1, group.2, ((members.map (·.depth)).min?).getD 0, ((members.map (·.rootScore)).max?).getD 0⟩

def supportShare (walk : Walk) : ℚ := walk.rootScore * if walk.depth = 1 then 8 / 100 else 3 / 100

/-- A page that nothing reaches has no row; `coalesce` makes it 0. -/
def graphSupport (walks : List Walk) (pageId : Nat) : ℚ :=
  let rows := (reachable walks).filter fun walk => walk.pageId = pageId
  if rows = [] then 0 else min (125 / 100) (rows.map supportShare).sum

/-! ## Ranks -/

variable {κ : Type}

/-- The lowest exact match that the candidate must not catch up with. -/
def exactCeiling (candidates : List (Candidate κ)) (candidate : Candidate κ) : Option ℚ :=
  if candidate.exact then
    ((candidates.filter fun peer =>
      peer.exact && decide (candidate.roundedScore + 1 / 1000000 ≤ peer.roundedScore)).map (·.roundedScore)).min?
  else
    ((candidates.filter fun peer =>
      peer.exact && decide (candidate.roundedScore ≤ peer.roundedScore)).map (·.roundedScore)).min?

def support (candidates : List (Candidate κ)) (links : List Edge) (candidate : Candidate κ) : ℚ :=
  graphSupport (graphWalk (edges links) GRAPH_DEPTH (roots candidates)) candidate.pageId

def graphScore (candidates : List (Candidate κ)) (links : List Edge) (candidate : Candidate κ) : ℚ :=
  match exactCeiling candidates candidate with
  | none => support candidates links candidate
  | some ceiling =>
    min (support candidates links candidate) (max 0 (ceiling - 1 / 1000000 - candidate.roundedScore))

def score (candidates : List (Candidate κ)) (links : List Edge) (candidate : Candidate κ) : ℚ :=
  round6 (candidate.roundedScore + graphScore candidates links candidate)

/-- By score, then by the score before promotion, both falling, then by title and by page. -/
def sortKey (candidates : List (Candidate κ)) (links : List Edge) (candidate : Candidate κ) : ℚ ×ₗ ℚ ×ₗ κ ×ₗ Nat :=
  toLex (-score candidates links candidate, toLex (-candidate.preliminaryScore,
    toLex (candidate.titleKey, candidate.pageId)))

def ranked [LinearOrder κ] (candidates : List (Candidate κ)) (links : List Edge) : List (Candidate κ) :=
  candidates.insertionSort fun first second => sortKey candidates links first ≤ sortKey candidates links second

/-- Ahead by rounded score and score before promotion. -/
def StrictlyAhead (first second : Candidate κ) : Prop :=
  second.roundedScore < first.roundedScore
    ∨ first.roundedScore = second.roundedScore ∧ second.preliminaryScore < first.preliminaryScore

instance (first second : Candidate κ) : Decidable (StrictlyAhead first second) :=
  inferInstanceAs (Decidable (_ ∨ _))

/-! ## Rounding -/

theorem round6_nonneg {value : ℚ} (h : 0 ≤ value) : round6 value = (⌊value * 1000000 + 1 / 2⌋ : ℚ) / 1000000 := if_pos h

/-- A millionth part stays what it is. -/
theorem round6_of_millionths {value : ℚ} (h : 0 ≤ value) (millionths : ℤ) (heq : value = millionths / 1000000) :
    round6 value = value := by
  have hfloor : ⌊value * 1000000 + 1 / 2⌋ = millionths := by
    rw [Int.floor_eq_iff, heq]
    constructor <;> linarith [div_mul_cancel₀ (millionths : ℚ) (show (1000000 : ℚ) ≠ 0 by norm_num)]
  rw [round6_nonneg h, hfloor, heq]

theorem round6_zero : round6 0 = 0 := round6_of_millionths le_rfl 0 (by norm_num)

theorem round6_mono {first second : ℚ} (hfirst : 0 ≤ first) (hle : first ≤ second) : round6 first ≤ round6 second := by
  rw [round6_nonneg hfirst, round6_nonneg (hfirst.trans hle)]
  have hfloor : ⌊first * 1000000 + 1 / 2⌋ ≤ ⌊second * 1000000 + 1 / 2⌋ := Int.floor_le_floor (by linarith)
  have hcast : ((⌊first * 1000000 + 1 / 2⌋ : ℤ) : ℚ) ≤ ⌊second * 1000000 + 1 / 2⌋ := by exact_mod_cast hfloor
  linarith

theorem round6_add_millionths {value : ℚ} (h : 0 ≤ value) {base : ℚ} (hbase : 0 ≤ base) {millionths : ℤ}
    (heq : base = millionths / 1000000) : round6 (base + value) = base + round6 value := by
  have hsum : (base + value) * 1000000 + 1 / 2 = value * 1000000 + 1 / 2 + (millionths : ℤ) := by
    rw [heq]
    linarith [div_mul_cancel₀ (millionths : ℚ) (show (1000000 : ℚ) ≠ 0 by norm_num)]
  rw [round6_nonneg (add_nonneg hbase h), round6_nonneg h, hsum, Int.floor_add_intCast, heq]
  push_cast
  ring

/-! ## Bounds on the support -/

theorem rootScore_nonneg_extend {edges : List Edge} {walks : List Walk} (h : ∀ walk ∈ walks, 0 ≤ walk.rootScore) :
    ∀ walk ∈ extend edges walks, 0 ≤ walk.rootScore := by
  intro walk hwalk
  obtain ⟨earlier, hearlier, hwalk⟩ := mem_flatMap.mp (mem_dedup.mp hwalk)
  obtain ⟨edge, -, rfl⟩ := mem_map.mp hwalk
  exact h earlier (mem_filter.mp hearlier).1

theorem rootScore_nonneg_graphWalk (edges : List Edge) (turns : Nat) {walks : List Walk}
    (h : ∀ walk ∈ walks, 0 ≤ walk.rootScore) : ∀ walk ∈ graphWalk edges turns walks, 0 ≤ walk.rootScore := by
  induction turns generalizing walks with
  | zero => exact h
  | succ turns ih => exact forall_mem_append.mpr ⟨h, ih (rootScore_nonneg_extend h)⟩

theorem max?_nonneg {values : List ℚ} (h : ∀ value ∈ values, 0 ≤ value) : 0 ≤ values.max?.getD 0 := by
  cases hmax : values.max? with
  | none => exact le_refl (0 : ℚ)
  | some highest => exact h highest (max?_mem hmax)

theorem rootScore_nonneg_reachable {walks : List Walk} (h : ∀ walk ∈ walks, 0 ≤ walk.rootScore) :
    ∀ walk ∈ reachable walks, 0 ≤ walk.rootScore := by
  intro walk hwalk
  obtain ⟨group, -, rfl⟩ := mem_map.mp hwalk
  refine max?_nonneg fun rootScore hrootScore => ?_
  obtain ⟨member, hmember, rfl⟩ := mem_map.mp hrootScore
  exact h member (mem_filter.mp (mem_filter.mp hmember).1).1

theorem graphSupport_bounds {walks : List Walk} (h : ∀ walk ∈ walks, 0 ≤ walk.rootScore) (pageId : Nat) :
    0 ≤ graphSupport walks pageId ∧ graphSupport walks pageId ≤ 125 / 100 := by
  unfold graphSupport
  dsimp only
  split
  · norm_num
  · refine ⟨le_min (by norm_num) (sum_nonneg ?_), min_le_left _ _⟩
    intro share hshare
    obtain ⟨walk, hwalk, rfl⟩ := mem_map.mp hshare
    have hroot := rootScore_nonneg_reachable h walk (mem_filter.mp hwalk).1
    refine mul_nonneg hroot ?_
    split <;> norm_num

theorem support_bounds (candidates : List (Candidate κ)) (links : List Edge) (candidate : Candidate κ) :
    0 ≤ support candidates links candidate ∧ support candidates links candidate ≤ 125 / 100 := by
  refine graphSupport_bounds (rootScore_nonneg_graphWalk _ _ ?_) _
  intro walk hwalk
  obtain ⟨root, -, rfl⟩ := mem_map.mp (mem_dedup.mp hwalk)
  exact root.nonneg

/-! ## Bounds on the score -/

theorem roundedScore_millionths (candidate : Candidate κ) :
    0 ≤ candidate.roundedScore ∧ ∃ millionths : ℤ, candidate.roundedScore = millionths / 1000000 := by
  have hfloor : (0 : ℤ) ≤ ⌊candidate.preliminaryScore * 1000000 + 1 / 2⌋ :=
    Int.floor_nonneg.mpr (by linarith [candidate.nonneg])
  have hcast : (0 : ℚ) ≤ ⌊candidate.preliminaryScore * 1000000 + 1 / 2⌋ := by exact_mod_cast hfloor
  have hround := round6_nonneg candidate.nonneg
  refine ⟨?_, _, hround⟩
  unfold Candidate.roundedScore
  rw [hround]
  linarith

theorem graphScore_bounds (candidates : List (Candidate κ)) (links : List Edge) (candidate : Candidate κ) :
    0 ≤ graphScore candidates links candidate
      ∧ graphScore candidates links candidate ≤ support candidates links candidate := by
  obtain ⟨hlow, -⟩ := support_bounds candidates links candidate
  unfold graphScore
  cases exactCeiling candidates candidate with
  | none => exact ⟨hlow, le_rfl⟩
  | some ceiling => exact ⟨le_min hlow (le_max_left _ _), min_le_left _ _⟩

theorem score_eq (candidates : List (Candidate κ)) (links : List Edge) (candidate : Candidate κ) :
    score candidates links candidate = candidate.roundedScore + round6 (graphScore candidates links candidate) := by
  obtain ⟨hnonneg, millionths, heq⟩ := roundedScore_millionths candidate
  exact round6_add_millionths (graphScore_bounds candidates links candidate).1 hnonneg heq

theorem roundedScore_le_score (candidates : List (Candidate κ)) (links : List Edge) (candidate : Candidate κ) :
    candidate.roundedScore ≤ score candidates links candidate := by
  have hround := round6_mono le_rfl (graphScore_bounds candidates links candidate).1
  rw [round6_zero] at hround
  rw [score_eq]
  linarith

theorem score_le (candidates : List (Candidate κ)) (links : List Edge) (candidate : Candidate κ) :
    score candidates links candidate ≤ candidate.roundedScore + 125 / 100 := by
  obtain ⟨hlow, hhigh⟩ := graphScore_bounds candidates links candidate
  have hround := round6_mono hlow (hhigh.trans (support_bounds candidates links candidate).2)
  have hmost : round6 (125 / 100) = 125 / 100 := round6_of_millionths (by norm_num) 1250000 (by norm_num)
  rw [hmost] at hround
  rw [score_eq]
  linarith

variable {candidates : List (Candidate κ)}

/-- A peer that counts for the ceiling keeps the candidate below it, or where it was. -/
theorem score_le_of_ceiling (links : List Edge) {candidate : Candidate κ} {ceiling bound : ℚ}
    (hceiling : exactCeiling candidates candidate = some ceiling) (hle : ceiling ≤ bound)
    {millionths : ℤ} (hbound : bound = millionths / 1000000) :
    score candidates links candidate ≤ max candidate.roundedScore (bound - 1 / 1000000) := by
  have hgraph : graphScore candidates links candidate
      ≤ max 0 (bound - 1 / 1000000 - candidate.roundedScore) := by
    unfold graphScore
    rw [hceiling]
    exact (min_le_right _ _).trans (max_le_max le_rfl (by linarith))
  obtain ⟨hnonneg, own, heq⟩ := roundedScore_millionths candidate
  have hround := round6_mono (graphScore_bounds candidates links candidate).1 hgraph
  rw [score_eq]
  rcases le_total (bound - 1 / 1000000 - candidate.roundedScore) 0 with hneg | hpos
  · rw [max_eq_left hneg, round6_zero] at hround
    exact le_max_of_le_left (by linarith)
  · rw [max_eq_right hpos, round6_of_millionths hpos (millionths - 1 - own)
      (by rw [hbound, heq]; push_cast; ring)] at hround
    exact le_max_of_le_right (by linarith)

theorem min?_le {values : List ℚ} {value : ℚ} (h : value ∈ values) :
    ∃ least, values.min? = some least ∧ least ≤ value := by
  cases hmin : values.min? with
  | none =>
    rw [min?_eq_none_iff] at hmin
    rw [hmin] at h
    cases h
  | some least => exact ⟨least, rfl, (min?_eq_some_iff.mp hmin).2 value h⟩

/-- Two rounded scores that differ do so by a millionth. -/
theorem roundedScore_gap {first second : Candidate κ} (h : first.roundedScore < second.roundedScore) :
    first.roundedScore + 1 / 1000000 ≤ second.roundedScore := by
  obtain ⟨-, low, hlow⟩ := roundedScore_millionths first
  obtain ⟨-, high, hhigh⟩ := roundedScore_millionths second
  rw [hlow, hhigh] at h ⊢
  have hlt : (low : ℚ) < high := by linarith
  have hle : (low : ℚ) + 1 ≤ high := by exact_mod_cast hlt
  linarith

theorem exactCeiling_le {candidate peer : Candidate κ} (hpeer : peer ∈ candidates)
    (hexact : peer.exact = true) (h : candidate.roundedScore < peer.roundedScore
      ∨ candidate.exact = false ∧ candidate.roundedScore ≤ peer.roundedScore) :
    ∃ ceiling, exactCeiling candidates candidate = some ceiling ∧ ceiling ≤ peer.roundedScore := by
  unfold exactCeiling
  split
  next hcandidate =>
    have hlt := h.resolve_right fun hother => by rw [hother.1] at hcandidate; cases hcandidate
    refine min?_le (mem_map_of_mem (mem_filter.mpr ⟨hpeer, ?_⟩))
    rw [hexact, decide_eq_true (roundedScore_gap hlt)]
    rfl
  next =>
    have hle := h.elim le_of_lt And.right
    refine min?_le (mem_map_of_mem (mem_filter.mpr ⟨hpeer, ?_⟩))
    rw [hexact, decide_eq_true hle]
    rfl

/-- An exact match with a higher rounded score stays above. -/
theorem score_lt_of_higher {links : List Edge} {candidate peer : Candidate κ} (hpeer : peer ∈ candidates)
    (hexact : peer.exact = true) (h : candidate.roundedScore < peer.roundedScore) :
    score candidates links candidate < score candidates links peer := by
  obtain ⟨ceiling, hceiling, hle⟩ := exactCeiling_le hpeer hexact (.inl h)
  obtain ⟨-, millionths, heq⟩ := roundedScore_millionths peer
  have hscore := score_le_of_ceiling links hceiling hle heq
  have hkept := roundedScore_le_score candidates links peer
  have hbelow : max candidate.roundedScore (peer.roundedScore - 1 / 1000000) < peer.roundedScore :=
    max_lt h (by linarith)
  linarith

/-- Another candidate does not pass an exact match of its own rounded score. -/
theorem score_le_of_level {links : List Edge} {candidate peer : Candidate κ} (hpeer : peer ∈ candidates)
    (hexact : peer.exact = true) (hother : candidate.exact = false) (h : peer.roundedScore = candidate.roundedScore) :
    score candidates links candidate ≤ score candidates links peer := by
  obtain ⟨ceiling, hceiling, hle⟩ := exactCeiling_le hpeer hexact (.inr ⟨hother, h.ge⟩)
  obtain ⟨-, millionths, heq⟩ := roundedScore_millionths peer
  have hscore := score_le_of_ceiling links hceiling hle heq
  have hkept := roundedScore_le_score candidates links peer
  have hbelow : max candidate.roundedScore (peer.roundedScore - 1 / 1000000) ≤ peer.roundedScore :=
    max_le h.ge (by linarith)
  linarith

theorem exactCeiling_none {candidate : Candidate κ}
    (h : ∀ peer ∈ candidates, peer.exact = true → peer.roundedScore ≤ candidate.roundedScore
      ∧ (candidate.exact = false → peer.roundedScore < candidate.roundedScore)) :
    exactCeiling candidates candidate = none := by
  unfold exactCeiling
  split
  · rw [min?_eq_none_iff, map_eq_nil_iff, filter_eq_nil_iff]
    intro peer hpeer hcounts
    obtain ⟨hexact, hgap⟩ := Bool.and_eq_true_iff.mp hcounts
    linarith [(h peer hpeer hexact).1, of_decide_eq_true hgap]
  next hcandidate =>
    rw [min?_eq_none_iff, map_eq_nil_iff, filter_eq_nil_iff]
    intro peer hpeer hcounts
    obtain ⟨hexact, hge⟩ := Bool.and_eq_true_iff.mp hcounts
    linarith [(h peer hpeer hexact).2 (Bool.eq_false_iff.mpr hcandidate), of_decide_eq_true hge]

/-! ## The order of the results -/

theorem ranked_pairwise [LinearOrder κ] (candidates : List (Candidate κ)) (links : List Edge) :
    (ranked candidates links).Pairwise fun first second =>
      sortKey candidates links first ≤ sortKey candidates links second := by
  have : Std.Total fun first second : Candidate κ =>
      sortKey candidates links first ≤ sortKey candidates links second := ⟨fun _ _ => le_total _ _⟩
  have : IsTrans (Candidate κ) fun first second =>
      sortKey candidates links first ≤ sortKey candidates links second := ⟨fun _ _ _ => le_trans⟩
  exact pairwise_insertionSort _ _

theorem sortKey_lt [LinearOrder κ] {links : List Edge} {first second : Candidate κ}
    (h : score candidates links second < score candidates links first
      ∨ score candidates links second ≤ score candidates links first
        ∧ second.preliminaryScore < first.preliminaryScore) :
    sortKey candidates links first < sortKey candidates links second := by
  rw [sortKey, sortKey, Prod.Lex.toLex_lt_toLex]
  rcases h with hscore | ⟨hscore, hpreliminary⟩
  · exact .inl (neg_lt_neg hscore)
  · rcases hscore.lt_or_eq with hscore | hscore
    · exact .inl (neg_lt_neg hscore)
    · refine .inr ⟨congrArg Neg.neg hscore.symm, ?_⟩
      exact Prod.Lex.toLex_lt_toLex.mpr (.inl (neg_lt_neg hpreliminary))

theorem promotion_keeps_exact_lead [LinearOrder κ] (candidates : List (Candidate κ)) (links : List Edge) :
    (ranked candidates links).Perm candidates
    ∧ (ranked candidates links).Pairwise (fun first second => second.exact = true →
        second.roundedScore ≤ first.roundedScore ∧ (first.exact = false → ¬ StrictlyAhead second first))
    ∧ (∀ candidate ∈ candidates,
        (∀ peer ∈ candidates, peer.exact = true → peer.roundedScore ≤ candidate.roundedScore
          ∧ (candidate.exact = false → peer.roundedScore < candidate.roundedScore)) →
        score candidates links candidate = candidate.roundedScore + round6 (support candidates links candidate))
    ∧ ∀ candidate ∈ candidates, candidate.roundedScore ≤ score candidates links candidate
        ∧ score candidates links candidate ≤ candidate.roundedScore + 125 / 100 := by
  have hperm : (ranked candidates links).Perm candidates := perm_insertionSort _ _
  refine ⟨hperm, ?_, ?_, fun candidate _ => ⟨roundedScore_le_score _ _ _, score_le _ _ _⟩⟩
  · refine (ranked_pairwise candidates links).imp_of_mem ?_
    intro first second _ hsecond hle hexact
    have hmem := hperm.mem_iff.mp hsecond
    refine ⟨?_, ?_⟩
    · by_contra hlt
      exact absurd hle (not_le.mpr (sortKey_lt (.inl (score_lt_of_higher hmem hexact (not_le.mp hlt)))))
    · rintro hother (hlt | ⟨hlevel, hpreliminary⟩)
      · exact absurd hle (not_le.mpr (sortKey_lt (.inl (score_lt_of_higher hmem hexact hlt))))
      · exact absurd hle (not_le.mpr (sortKey_lt (.inr ⟨score_le_of_level hmem hexact hother hlevel, hpreliminary⟩)))
  · intro candidate _ hnone
    rw [score_eq, graphScore, exactCeiling_none hnone]

/-! ## An exact match of the same rounded score -/

/-- Two exact matches of a rounded score of ten, and a page that links to the second. -/
def levelMatches : List (Candidate Nat) :=
  [⟨1, 0, true, false, 100000002 / 10000000, by norm_num⟩, ⟨2, 0, true, false, 100000001 / 10000000, by norm_num⟩,
    ⟨3, 0, false, false, 1, by norm_num⟩]

theorem level_match_overtakes : ¬ (ranked levelMatches [⟨3, 2⟩]).Pairwise fun first second =>
    second.exact = true → ¬ StrictlyAhead second first := by
  decide +kernel

end TsEpistle.Search.Promotion
