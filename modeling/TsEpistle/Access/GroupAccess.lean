import TsEpistle.Library.JsString

/-! Page-rule evaluation (`server/helpers/group-access.ts`), with the tag lookup
of `server/helpers/tag-aliases.ts`. The rules of every group are folded, in the
order of the groups, into one `RuleState`; each rule also leaves a trace line. -/

namespace TsEpistle.Access
open Library

inductive GroupRuleMatch
  | START | SUBTREE | END | REGEX | TAG | EXACT
  deriving DecidableEq, Repr

structure AccessRule where
  id : Option JsString
  «match» : GroupRuleMatch
  path : JsString
  deny : Bool
  roles : List JsString
  locales : Option (List JsString)
  deriving DecidableEq, Repr

structure AccessGroup where
  id : Int
  name : Option JsString
  permissions : Option (List JsString)
  pageRules : List AccessRule
  deriving DecidableEq, Repr

structure AccessPage where
  path : JsString
  locale : Option JsString
  tags : Option (List JsString)
  deriving DecidableEq, Repr

/-- A record from tag name to canonical name; `some none` is an own `null`. -/
abbrev TagAliases := JsString → Option (Option JsString)

def resolveTagName (aliases : TagAliases) (name : JsString) : Option JsString :=
  match aliases name with
  | some value => value
  | none => some name

def rank : GroupRuleMatch → Nat
  | .START => 0
  | .SUBTREE => 1
  | .END => 2
  | .REGEX => 3
  | .TAG => 4
  | .EXACT => 5

/-- `match` is `none` for the literal `false` of the initial state. -/
structure RuleState where
  deny : Bool
  «match» : Option GroupRuleMatch
  specificity : JsString
  deriving DecidableEq, Repr

def applyPageRule (rule : AccessRule) (state : RuleState) : RuleState :=
  let next : RuleState := ⟨rule.deny, some rule.match, rule.path⟩
  if rule.path.length < state.specificity.length then state
  else match state.match with
    | some current =>
      if rule.path.length = state.specificity.length ∧
          (rank rule.match < rank current ∨ (rule.match = current ∧ state.deny = true ∧ rule.deny = false)) then state
      else next
    | none => next

inductive Outcome
  | winner | overridden | noMatch | locale | permission
  deriving DecidableEq, Repr

structure TraceEntry where
  groupId : Int
  (groupName ruleId : JsString)
  «match» : GroupRuleMatch
  path : JsString
  deny : Bool
  outcome : Outcome
  deriving DecidableEq, Repr

/-- `new RegExp(pattern).test(input)`; `none` when the constructor throws. -/
abbrev RegExpTest := JsString → JsString → Option Bool

/-- The kind test of a rule whose locale and role apply. -/
def matchesKind (regExpTest : RegExpTest) (aliases : TagAliases) (page : AccessPage)
    (rule : AccessRule) : Bool :=
  match rule.match with
  | .START => startsWith (js "/" ++ page.path) (js "/" ++ rule.path)
  | .SUBTREE =>
    rule.path == [] || page.path == rule.path || startsWith page.path (rule.path ++ js "/")
  | .END => endsWith page.path rule.path
  | .EXACT => js "/" ++ page.path == js "/" ++ rule.path
  | .REGEX => (regExpTest rule.path page.path).getD false
  | .TAG =>
    match resolveTagName aliases rule.path with
    | none => false
    | some resolved =>
      (page.tags.getD []).any fun tag => resolveTagName aliases tag == some resolved

/-- `rule.locales?.length && (!page.locale || !rule.locales.includes(page.locale))` -/
def localeExcluded (page : AccessPage) (rule : AccessRule) : Bool :=
  let locales := rule.locales.getD []
  locales.length != 0 &&
    match page.locale with
    | none => true
    | some locale => locale == [] || !locales.contains locale

/-- The outcome of one rule before the winner is known; `overridden` is the
only one that reaches `applyPageRule`. -/
def ruleOutcome (regExpTest : RegExpTest) (aliases : TagAliases) (requested : List JsString)
    (page : AccessPage) (rule : AccessRule) : Outcome :=
  if localeExcluded page rule then .locale
  else if !rule.roles.any (fun role => requested.contains role) then .permission
  else if matchesKind regExpTest aliases page rule then .overridden
  else .noMatch

structure Evaluation where
  state : RuleState
  trace : List TraceEntry
  deriving DecidableEq, Repr

structure AccessResult where
  allowed : Bool
  reason : String
  rules : List TraceEntry
  deriving DecidableEq, Repr

section
variable (regExpTest : RegExpTest) (aliases : TagAliases) (requested : List JsString)
  (page : AccessPage) (collectTrace : Bool)

/-- The body of the inner loop, for the rule at `index` of `group`. -/
def visitRule (group : AccessGroup) (acc : Evaluation) (entry : AccessRule × Nat) : Evaluation :=
  let (rule, index) := entry
  let outcome := ruleOutcome regExpTest aliases requested page rule
  { state := if outcome = .overridden then applyPageRule rule acc.state else acc.state
    trace :=
      if collectTrace then
        acc.trace ++
          [{ groupId := group.id
             groupName := group.name.getD (js s!"Group {group.id}")
             ruleId := rule.id.getD (js s!"{index + 1}")
             «match» := rule.match
             path := rule.path
             deny := rule.deny
             outcome := outcome }]
      else acc.trace }

def visitGroup (acc : Evaluation) (group : AccessGroup) : Evaluation :=
  group.pageRules.zipIdx.foldl (visitRule regExpTest aliases requested page collectTrace group) acc

end

def initialState : RuleState := ⟨false, none, []⟩

/-- The two nested loops; nothing is visited without a page. -/
def evaluateRules (regExpTest : RegExpTest) (aliases : TagAliases) (requested : List JsString)
    (groups : List AccessGroup) (page : Option AccessPage) (collectTrace : Bool) : Evaluation :=
  match page with
  | none => ⟨initialState, []⟩
  | some page =>
    groups.foldl (visitGroup regExpTest aliases requested page collectTrace) ⟨initialState, []⟩

def markWinner (state : RuleState) (entry : TraceEntry) : TraceEntry :=
  if entry.outcome = .overridden ∧ entry.path.length = state.specificity.length ∧
      some entry.match = state.match ∧ entry.deny = state.deny then
    { entry with outcome := .winner }
  else entry

/-- `page` is `none` for the `false` and `undefined` of the source. -/
def evaluateGroupAccess (regExpTest : RegExpTest) (permissions requested : List JsString)
    (groups : List AccessGroup) (page : Option AccessPage) (aliases : TagAliases)
    (collectTrace : Bool) : AccessResult :=
  let bypass := permissions.contains (js "manage:system")
  let hasPermission := requested.any fun p => permissions.contains p
  let result := evaluateRules regExpTest aliases requested groups page collectTrace
  let state := result.state
  { allowed := bypass || (hasPermission && (page.isNone || (state.match.isSome && !state.deny)))
    reason :=
      if bypass then "Full system administration bypasses page rules."
      else if !hasPermission then "The required global permission is missing."
      else if page.isNone then "The global permission is granted."
      else if state.match.isNone then "No page rule grants this action."
      else if state.deny then "The highest-priority matching rule denies this action."
      else "The highest-priority matching rule allows this action."
    rules := result.trace.map (markWinner state) }

end TsEpistle.Access
