import TsEpistle.Library.Priority
import TsEpistle.Access.GroupAccess
/-! # Deny wins

The fold of `evaluateGroupAccess` keeps a rule of the lexicographically greatest
key (path length, rank of the match kind), a denying one if there is one. So the
answer depends on the set of rules alone: not on their order, not on how they are
spread over groups, not on whether a trace is collected. -/

namespace TsEpistle.Access
open Library List

/-! ## Keys and matching rules -/

def ruleKey (rule : AccessRule) : Nat ×ₗ Nat := toLex (rule.path.length, rank rule.match)

/-- Locale, role and match kind of `rule` all fit. -/
structure Applies (regExpTest : RegExpTest) (aliases : TagAliases) (requested : List JsString)
    (page : AccessPage) (rule : AccessRule) : Prop where
  locale : localeExcluded page rule = false
  role : ∃ role ∈ rule.roles, role ∈ requested
  kind : matchesKind regExpTest aliases page rule = true

def allRules (groups : List AccessGroup) : List AccessRule := groups.flatMap (·.pageRules)

theorem rank_injective : Function.Injective rank := by
  intro a b h
  cases a <;> cases b <;> first | rfl | cases h

theorem ruleKey_lt_iff (a b : AccessRule) :
    ruleKey a < ruleKey b ↔ a.path.length < b.path.length ∨
      (a.path.length = b.path.length ∧ rank a.match < rank b.match) := by
  simp [ruleKey, Prod.Lex.toLex_lt_toLex]

theorem ruleKey_eq_iff (a b : AccessRule) :
    ruleKey a = ruleKey b ↔ a.path.length = b.path.length ∧ a.match = b.match := by
  simp [ruleKey, rank_injective.eq_iff]

/-- The fold state that keeps `rule`. -/
def toState : Option AccessRule → RuleState
  | none => initialState
  | some rule => ⟨rule.deny, some rule.match, rule.path⟩

/-- `applyPageRule` is one step of the priority fold. -/
theorem applyPageRule_toState (rule : AccessRule) (kept : Option AccessRule) :
    applyPageRule rule (toState kept) = toState (Priority.pick ruleKey AccessRule.deny kept rule) := by
  cases kept with
  | none => simp [toState, initialState, applyPageRule, Priority.pick]
  | some b =>
    simp only [toState, applyPageRule, Priority.pick, ruleKey_lt_iff, ruleKey_eq_iff]
    by_cases hlen : rule.path.length < b.path.length
    · simp [hlen]
    · by_cases heq : rule.path.length = b.path.length
      · simp only [heq, lt_irrefl, if_false, true_and, false_or]
        split <;> rfl
      · simp [hlen, heq]

theorem ruleOutcome_overridden_iff (regExpTest : RegExpTest) (aliases : TagAliases) (requested : List JsString)
    (page : AccessPage) (rule : AccessRule) : ruleOutcome regExpTest aliases requested page rule = .overridden ↔
    Applies regExpTest aliases requested page rule := by
  have hrole : rule.roles.any (fun role => requested.contains role) = true ↔
      ∃ role ∈ rule.roles, role ∈ requested := by simp
  unfold ruleOutcome
  constructor
  · intro h
    split at h
    · cases h
    · split at h
      · cases h
      · split at h
        · rename_i hl hr hk
          exact ⟨by simpa using hl, hrole.mp (by simpa using hr), hk⟩
        · cases h
  · rintro ⟨hl, hr, hk⟩
    rw [if_neg (by simp [hl]), if_neg (by rw [hrole.mpr hr]; simp), if_pos hk]

/-! ## The loops as one fold -/

section
variable (regExpTest : RegExpTest) (aliases : TagAliases) (requested : List JsString)
  (page : AccessPage)

def matchingRules (rules : List AccessRule) : List AccessRule :=
  rules.filter fun rule => ruleOutcome regExpTest aliases requested page rule = .overridden

theorem mem_matchingRules (rules : List AccessRule) (rule : AccessRule) :
    rule ∈ matchingRules regExpTest aliases requested page rules ↔
      rule ∈ rules ∧ Applies regExpTest aliases requested page rule := by
  simp [matchingRules, ruleOutcome_overridden_iff]

/-- The state after the rules of `entries`, whatever is traced. -/
theorem foldl_visitRule_state (collectTrace : Bool) (group : AccessGroup)
    (entries : List (AccessRule × Nat)) (acc : Evaluation) (kept : Option AccessRule)
    (hacc : acc.state = toState kept) :
    (entries.foldl (visitRule regExpTest aliases requested page collectTrace group) acc).state =
      toState ((matchingRules regExpTest aliases requested page (entries.map Prod.fst)).foldl
        (Priority.pick ruleKey AccessRule.deny) kept) := by
  induction entries generalizing acc kept with
  | nil => simpa [matchingRules] using hacc
  | cons entry entries ih =>
    obtain ⟨rule, index⟩ := entry
    by_cases h : ruleOutcome regExpTest aliases requested page rule = .overridden
    · have hstep : (visitRule regExpTest aliases requested page collectTrace group acc
          (rule, index)).state = toState (Priority.pick ruleKey AccessRule.deny kept rule) := by
        simp [visitRule, h, hacc, applyPageRule_toState]
      simpa [matchingRules, h] using ih _ _ hstep
    · have hstep : (visitRule regExpTest aliases requested page collectTrace group acc
          (rule, index)).state = toState kept := by
        simp [visitRule, h, hacc]
      simpa [matchingRules, h] using ih _ _ hstep

theorem foldl_visitGroup_state (collectTrace : Bool) (groups : List AccessGroup)
    (acc : Evaluation) (kept : Option AccessRule) (hacc : acc.state = toState kept) :
    (groups.foldl (visitGroup regExpTest aliases requested page collectTrace) acc).state =
      toState ((matchingRules regExpTest aliases requested page (allRules groups)).foldl
        (Priority.pick ruleKey AccessRule.deny) kept) := by
  induction groups generalizing acc kept with
  | nil => simpa [matchingRules, allRules] using hacc
  | cons group groups ih =>
    have hgroup := foldl_visitRule_state regExpTest aliases requested page collectTrace group
      group.pageRules.zipIdx acc kept hacc
    rw [zipIdx_map_fst] at hgroup
    have hsplit : matchingRules regExpTest aliases requested page (allRules (group :: groups)) =
        matchingRules regExpTest aliases requested page group.pageRules ++
          matchingRules regExpTest aliases requested page (allRules groups) := by
      simp [matchingRules, allRules]
    rw [foldl_cons, hsplit, foldl_append]
    exact ih _ _ hgroup

theorem evaluateRules_state (groups : List AccessGroup) (collectTrace : Bool) :
    (evaluateRules regExpTest aliases requested groups (some page) collectTrace).state =
      toState (Priority.winner ruleKey AccessRule.deny
        (matchingRules regExpTest aliases requested page (allRules groups))) :=
  foldl_visitGroup_state regExpTest aliases requested page collectTrace groups _ none rfl

/-- The page part of the answer: some matching rule was kept and it allows. -/
def pageGranted (groups : List AccessGroup) : Bool :=
  Priority.granted ruleKey AccessRule.deny
    (matchingRules regExpTest aliases requested page (allRules groups))

theorem toState_granted (kept : Option AccessRule) :
    ((toState kept).match.isSome && !(toState kept).deny) = kept.any (fun rule => !rule.deny) := by
  cases kept <;> rfl

theorem pageGranted_iff (groups : List AccessGroup) : pageGranted regExpTest aliases requested page groups = true ↔
    (∃ rule ∈ allRules groups, Applies regExpTest aliases requested page rule) ∧ ∀ rule ∈ allRules groups,
    Applies regExpTest aliases requested page rule →
    (∀ other ∈ allRules groups, Applies regExpTest aliases requested page other → ruleKey other ≤ ruleKey rule) →
    rule.deny = false := by
  simp only [pageGranted, Priority.granted_iff, Priority.Top, mem_matchingRules, and_imp]

end

section
variable (regExpTest : RegExpTest) (permissions requested : List JsString)
  (page : Option AccessPage) (aliases : TagAliases)

theorem evaluateGroupAccess_allowed (groups : List AccessGroup) (collectTrace : Bool) :
    (evaluateGroupAccess regExpTest permissions requested groups page aliases
        collectTrace).allowed =
      (permissions.contains (js "manage:system") ||
        (requested.any (fun p => permissions.contains p) &&
          page.all (fun page => pageGranted regExpTest aliases requested page groups))) := by
  cases page with
  | none => simp [evaluateGroupAccess]
  | some page =>
    simp only [evaluateGroupAccess, evaluateRules_state, toState_granted, Option.isNone_some,
      Bool.false_or, Option.all_some, pageGranted, Priority.granted]

/-- The answer reads the rules of all groups as a set. -/
theorem evaluateGroupAccess_congr {groups groups' : List AccessGroup}
    (h : ∀ rule, rule ∈ allRules groups ↔ rule ∈ allRules groups')
    (collectTrace collectTrace' : Bool) :
    (evaluateGroupAccess regExpTest permissions requested groups page aliases
        collectTrace).allowed =
      (evaluateGroupAccess regExpTest permissions requested groups' page aliases collectTrace').allowed := by
  have hpage : ∀ page, pageGranted regExpTest aliases requested page groups =
      pageGranted regExpTest aliases requested page groups' := fun page =>
    Priority.granted_congr _ _ fun rule => by simp only [mem_matchingRules, h]
  simp only [evaluateGroupAccess_allowed, hpage]

/-- The answer only grows with the page part. -/
theorem evaluateGroupAccess_mono {groups groups' : List AccessGroup} (collectTrace : Bool)
    (hpage : ∀ page, pageGranted regExpTest aliases requested page groups = true →
      pageGranted regExpTest aliases requested page groups' = true)
    (h : (evaluateGroupAccess regExpTest permissions requested groups page aliases collectTrace).allowed = true) :
    (evaluateGroupAccess regExpTest permissions requested groups' page aliases collectTrace).allowed = true := by
  rw [evaluateGroupAccess_allowed, Bool.or_eq_true, Bool.and_eq_true] at h ⊢
  refine h.imp_right fun ⟨hperm, hall⟩ => ⟨hperm, ?_⟩
  cases page with
  | none => rfl
  | some page => exact hpage page hall

end

/-! ## Rearranging groups, adding rules -/

/-- The same rules in another order, or spread over groups in another way. -/
inductive Rearranged : List AccessGroup → List AccessGroup → Prop
  | refl (groups) : Rearranged groups groups
  | trans {a b c} : Rearranged a b → Rearranged b c → Rearranged a c
  | groups {a b : List AccessGroup} : a.Perm b → Rearranged a b
  | rules {before after : List AccessGroup} {group : AccessGroup} {rules : List AccessRule} :
      group.pageRules.Perm rules →
      Rearranged (before ++ group :: after) (before ++ { group with pageRules := rules } :: after)
  | split {before after : List AccessGroup} {group left right : AccessGroup} :
      group.pageRules = left.pageRules ++ right.pageRules →
      Rearranged (before ++ group :: after) (before ++ left :: right :: after)
  | merge {before after : List AccessGroup} {group left right : AccessGroup} :
      group.pageRules = left.pageRules ++ right.pageRules →
      Rearranged (before ++ left :: right :: after) (before ++ group :: after)

/-- `rule` is inserted anywhere in a group, or comes with a new group. -/
inductive RuleAdded (rule : AccessRule) : List AccessGroup → List AccessGroup → Prop
  | inGroup {before after : List AccessGroup} {group : AccessGroup} {first last} :
      group.pageRules = first ++ last →
      RuleAdded rule (before ++ group :: after)
        (before ++ { group with pageRules := first ++ rule :: last } :: after)
  | newGroup {before after : List AccessGroup} {group : AccessGroup} :
      group.pageRules = [rule] →
      RuleAdded rule (before ++ after) (before ++ group :: after)

theorem Rearranged.mem_allRules {groups groups' : List AccessGroup} (h : Rearranged groups groups')
    (rule : AccessRule) : rule ∈ allRules groups ↔ rule ∈ allRules groups' := by
  induction h with
  | refl => rfl
  | trans _ _ ih₁ ih₂ => exact ih₁.trans ih₂
  | groups hperm => simp only [allRules, mem_flatMap, hperm.mem_iff]
  | rules hperm => simp [allRules, hperm.mem_iff]
  | split hrules => simp [allRules, hrules]
  | merge hrules => simp [allRules, hrules]

theorem RuleAdded.mem_allRules {rule : AccessRule} {groups groups' : List AccessGroup}
    (h : RuleAdded rule groups groups') (r : AccessRule) : r ∈ allRules groups' ↔ r = rule ∨ r ∈ allRules groups := by
  cases h with
  | inGroup hrules =>
    simp only [allRules, flatMap_append, flatMap_cons, hrules, mem_append, mem_cons]
    tauto
  | newGroup hrules =>
    simp only [allRules, flatMap_append, flatMap_cons, hrules, mem_append, mem_singleton]
    tauto

section
variable (regExpTest : RegExpTest) (aliases : TagAliases) (requested : List JsString)
  (page : AccessPage)

/-- A new rule that does not apply changes nothing; one that does joins the set. -/
theorem RuleAdded.mem_matchingRules {rule : AccessRule} {groups groups' : List AccessGroup}
    (h : RuleAdded rule groups groups') :
    (∀ r, r ∈ matchingRules regExpTest aliases requested page (allRules groups') ↔
      r ∈ matchingRules regExpTest aliases requested page (allRules groups)) ∨
    (∀ r, r ∈ matchingRules regExpTest aliases requested page (allRules groups') ↔
      r = rule ∨ r ∈ matchingRules regExpTest aliases requested page (allRules groups)) := by
  simp only [Access.mem_matchingRules, h.mem_allRules]
  by_cases ha : Applies regExpTest aliases requested page rule
  · right
    intro r
    constructor
    · rintro ⟨rfl | hr, happ⟩
      · exact .inl rfl
      · exact .inr ⟨hr, happ⟩
    · rintro (rfl | ⟨hr, happ⟩)
      · exact ⟨.inl rfl, ha⟩
      · exact ⟨.inr hr, happ⟩
  · left
    intro r
    constructor
    · rintro ⟨rfl | hr, happ⟩
      · exact absurd happ ha
      · exact ⟨hr, happ⟩
    · rintro ⟨hr, happ⟩
      exact ⟨.inr hr, happ⟩

theorem pageGranted_of_deny_added {rule : AccessRule} {groups groups' : List AccessGroup}
    (h : RuleAdded rule groups groups') (hdeny : rule.deny = true)
    (hg : pageGranted regExpTest aliases requested page groups' = true) :
    pageGranted regExpTest aliases requested page groups = true := by
  rcases h.mem_matchingRules regExpTest aliases requested page with hsame | hadd
  · rwa [pageGranted, ← Priority.granted_congr _ _ hsame]
  · exact Priority.granted_of_insert_veto _ _ hadd hdeny hg

theorem pageGranted_allow_added {rule : AccessRule} {groups groups' : List AccessGroup}
    (h : RuleAdded rule groups groups') (hallow : rule.deny = false)
    (hg : pageGranted regExpTest aliases requested page groups = true) :
    pageGranted regExpTest aliases requested page groups' = true := by
  rcases h.mem_matchingRules regExpTest aliases requested page with hsame | hadd
  · rwa [pageGranted, Priority.granted_congr _ _ hsame]
  · exact Priority.granted_insert _ _ hadd hallow hg

end

/-- **Deny wins.** The answer of `evaluateGroupAccess` by the rules alone, the
rearrangements it ignores, the direction in which one more rule moves it, and its
independence of the trace. -/
theorem evaluateGroupAccess_denyWins (regExpTest : RegExpTest)
    (permissions requested : List JsString) (page : Option AccessPage) (aliases : TagAliases)
    (groups : List AccessGroup) (collectTrace : Bool) :
    ((evaluateGroupAccess regExpTest permissions requested groups page aliases
        collectTrace).allowed = true ↔
      js "manage:system" ∈ permissions ∨
        (∃ p ∈ requested, p ∈ permissions) ∧
          ∀ pg, page = some pg →
            (∃ rule ∈ allRules groups, Applies regExpTest aliases requested pg rule) ∧
            ∀ rule ∈ allRules groups, Applies regExpTest aliases requested pg rule →
              (∀ other ∈ allRules groups, Applies regExpTest aliases requested pg other →
                ruleKey other ≤ ruleKey rule) →
              rule.deny = false) ∧
    (∀ groups', Rearranged groups groups' →
      (evaluateGroupAccess regExpTest permissions requested groups' page aliases collectTrace).allowed =
      (evaluateGroupAccess regExpTest permissions requested groups page aliases collectTrace).allowed) ∧
    (∀ rule groups', RuleAdded rule groups groups' → rule.deny = true →
      (evaluateGroupAccess regExpTest permissions requested groups page aliases collectTrace).allowed = false →
      (evaluateGroupAccess regExpTest permissions requested groups' page aliases collectTrace).allowed = false) ∧
    (∀ rule groups', RuleAdded rule groups groups' → rule.deny = false →
      (evaluateGroupAccess regExpTest permissions requested groups page aliases collectTrace).allowed = true →
      (evaluateGroupAccess regExpTest permissions requested groups' page aliases collectTrace).allowed = true) ∧
    ((evaluateGroupAccess regExpTest permissions requested groups page aliases true).allowed =
      (evaluateGroupAccess regExpTest permissions requested groups page aliases false).allowed) := by
  refine ⟨?_, ?_, ?_, ?_, ?_⟩
  · rw [evaluateGroupAccess_allowed]
    cases page with
    | none => simp
    | some page => simp [pageGranted_iff]
  · intro groups' h
    exact evaluateGroupAccess_congr _ _ _ _ _ (fun rule => (h.mem_allRules rule).symm) _ _
  · intro rule groups' h hdeny hrefused
    by_contra hgranted
    have := evaluateGroupAccess_mono regExpTest permissions requested page aliases collectTrace
      (fun page => pageGranted_of_deny_added regExpTest aliases requested page h hdeny)
      (by simpa using hgranted)
    simp [hrefused] at this
  · intro rule groups' h hallow
    exact evaluateGroupAccess_mono regExpTest permissions requested page aliases collectTrace
      fun page => pageGranted_allow_added regExpTest aliases requested page h hallow
  · exact evaluateGroupAccess_congr _ _ _ _ _ (fun _ => Iff.rfl) _ _

end TsEpistle.Access
