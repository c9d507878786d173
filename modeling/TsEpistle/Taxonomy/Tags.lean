import TsEpistle.Access.GroupAccess
import TsEpistle.Pages.Approvals

/-! Tags, their aliases and the page rules that name them (`server/helpers/tag-aliases.ts`,
`server/helpers/taxonomy-plan.ts`). -/

namespace TsEpistle.Taxonomy
open Library

structure TagRow where
  id : Int
  (tag title : JsString)
  redirectToId : Option Int
  isArchived : Bool
  deriving DecidableEq, Repr

structure TagAssignment where
  (pageId tagId : Int)
  deriving DecidableEq, Repr

inductive Visibility
  | isPublic
  | isPrivate
  deriving DecidableEq, Repr

structure TaxonomyPage where
  id : Int
  locale : JsString
  visibility : Visibility
  deriving DecidableEq, Repr

structure TagGroup where
  id : Int
  name : JsString
  pageRules : List Access.AccessRule
  deriving DecidableEq, Repr

structure HistoryCount where
  tagId : Int
  count : Nat
  deriving DecidableEq, Repr

structure TaxonomySnapshot where
  tags : List TagRow
  assignments : List TagAssignment
  pages : List TaxonomyPage
  groups : List TagGroup
  history : List HistoryCount
  deriving DecidableEq, Repr

structure TaxonomyError where
  message : String
  status : Nat
  code : Option String
  deriving DecidableEq, Repr

def invalid (message : String) : TaxonomyError := ⟨message, 400, some "INVALID_TAXONOMY_CHANGE"⟩

/-- Errors that are no `ApplicationError`. -/
def redirectCycle : TaxonomyError := ⟨"Taxonomy contains a redirect cycle", 500, none⟩
def noActiveDestination : TaxonomyError := ⟨"Taxonomy alias has no active destination", 500, none⟩
def destinationMissing : TaxonomyError := ⟨"Taxonomy destination is missing", 500, none⟩

/-! ## Names -/

def hasControlCharacters (value : JsString) : Bool := value.any fun unit => unit < 32 || unit = 127

def invalidTagName : TaxonomyError :=
  invalid "Use a tag name of 1–255 characters without control characters."

def invalidTitle : TaxonomyError :=
  invalid "Use a display label of up to 255 characters without control characters."

section
variable (toLowerCase : JsString → JsString)

def tagName (value : JsString) : Except TaxonomyError JsString :=
  let canonical := toLowerCase (Pages.trim value)
  if canonical = [] || 255 < canonical.length || hasControlCharacters value then
    .error invalidTagName
  else .ok canonical

def tagDefinition (tag title : JsString) : Except TaxonomyError (JsString × JsString) := do
  let tag ← tagName toLowerCase tag
  if 255 < (Pages.trim title).length || hasControlCharacters title then .error invalidTitle
  else return (tag, Pages.trim title)

/-! ## Changes -/

inductive TaxonomyChange
  | edit (tagId : Int) (tag title : JsString)
  | merge (tagId targetId : Int)
  | archive (tagId : Int)
  | restore (tagId : Int)
  deriving DecidableEq, Repr

def TaxonomyChange.tagId : TaxonomyChange → Int
  | edit tagId _ _ | merge tagId _ | archive tagId | restore tagId => tagId

def validId (id : Int) : Bool := 1 ≤ id && id ≤ 2 ^ 53 - 1

def invalidSource : TaxonomyError := invalid "Select a valid source tag."
def invalidDestination : TaxonomyError := invalid "Select a different destination tag."

/-- A change as it is asked for. Values of other types, and other actions, are refused too. -/
def taxonomyChange (change : TaxonomyChange) : Except TaxonomyError TaxonomyChange :=
  if !validId change.tagId then .error invalidSource
  else
    match change with
    | .edit tagId tag title => do
        let (tag, title) ← tagDefinition toLowerCase tag title
        return .edit tagId tag title
    | .merge tagId targetId =>
      if !validId targetId || targetId = tagId then .error invalidDestination
      else .ok (.merge tagId targetId)
    | .archive tagId => .ok (.archive tagId)
    | .restore tagId => .ok (.restore tagId)

end

/-! ## Aliases -/

/-- `byId.get`: of rows with one id the last. -/
def byId (tags : List TagRow) (id : Int) : Option TagRow := tags.reverse.find? (·.id = id)

/-- The loop of `tagAliasMap`. More steps than there are tags visit one of them again. -/
def activeDestination (tags : List TagRow) (steps : Nat) (visited : List Int) (current : TagRow) :
    Except TaxonomyError TagRow :=
  match current.redirectToId with
  | none => .ok current
  | some redirectToId =>
    if visited.contains current.id then .error redirectCycle
    else
      match steps, byId tags redirectToId with
      | 0, _ => .error redirectCycle
      | _, none => .error noActiveDestination
      | steps + 1, some next =>
        if next.isArchived then .error noActiveDestination
        else activeDestination tags steps (current.id :: visited) next

/-- `null` is `some none` and no property `none`. -/
abbrev AliasMap := List (JsString × Option JsString)

def tagAliasMap (tags : List TagRow) : Except TaxonomyError AliasMap :=
  tags.mapM fun tag =>
    if tag.isArchived then .ok (tag.tag, none)
    else (activeDestination tags tags.length [] tag).map fun current => (tag.tag, some current.tag)

/-- `aliases[name]`: a later tag of one name overrides. -/
def AliasMap.get (aliases : AliasMap) (name : JsString) : Option (Option JsString) :=
  (aliases.reverse.find? (·.1 = name)).map (·.2)

/-- The loop of `canonicalId`. -/
def canonicalFrom (tags : List TagRow) (steps : Nat) (visited : List Int) (tag : Option TagRow) :
    Except TaxonomyError Int :=
  match tag with
  | none => .error destinationMissing
  | some tag =>
    match tag.redirectToId with
    | none => .ok tag.id
    | some redirectToId =>
      if visited.contains tag.id then .error redirectCycle
      else
        match steps with
        | 0 => .error redirectCycle
        | steps + 1 => canonicalFrom tags steps (tag.id :: visited) (byId tags redirectToId)

def canonicalId (tags : List TagRow) (id : Int) : Except TaxonomyError Int :=
  canonicalFrom tags tags.length [] (byId tags id)

/-! ## The inventory -/

structure TaxonomyTag extends TagRow where
  (pageCount historyCount ruleCount : Nat)
  deriving DecidableEq, Repr

def tagRules (groups : List TagGroup) : List Access.AccessRule :=
  (groups.flatMap (·.pageRules)).filter (·.match = .TAG)

def inventoryTag (snapshot : TaxonomySnapshot) (aliases : AliasMap) (tag : TagRow) :
    Except TaxonomyError TaxonomyTag := do
  let target ← canonicalId snapshot.tags tag.id
  let pages := ((snapshot.assignments.filter (·.tagId = target)).map (·.pageId)).dedup
  return {
    toTagRow := tag
    pageCount := if tag.isArchived then 0 else pages.length
    historyCount := ((snapshot.history.reverse.find? (·.tagId = tag.id)).map (·.count)).getD 0
    ruleCount := ((tagRules snapshot.groups).filter fun rule => rule.path = tag.tag
      || !tag.isArchived && aliases.get rule.path = aliases.get tag.tag).length }

def taxonomyInventory (snapshot : TaxonomySnapshot) : Except TaxonomyError (List TaxonomyTag) := do
  let aliases ← tagAliasMap snapshot.tags
  snapshot.tags.mapM (inventoryTag snapshot aliases)

/-! ## Rules -/

/-- The pages that a rule is about before its tag is looked at. -/
def rulePages (pages : List TaxonomyPage) (rule : Access.AccessRule) : List Int :=
  (pages.filter fun page => page.visibility = .isPublic
    && (rule.locales.getD [] = [] || (rule.locales.getD []).contains page.locale)).map (·.id)

/-- The pages of a rule, each once. An empty name stands for no name. -/
def ruleMatches (snapshot : TaxonomySnapshot) (rule : Access.AccessRule) :
    Except TaxonomyError (List Int) := do
  let aliases ← tagAliasMap snapshot.tags
  match ((aliases.get rule.path).getD none).filter (· ≠ []) with
  | none => return []
  | some name =>
    let ids := (snapshot.tags.filter fun tag =>
      aliases.get tag.tag = some (some name) && !tag.isArchived).map (·.id)
    return ((snapshot.assignments.filter fun assignment => ids.contains assignment.tagId
      && (rulePages snapshot.pages rule).contains assignment.pageId).map (·.pageId)).dedup

structure TaxonomyRuleImpact where
  groupId : Int
  (groupName path : JsString)
  deny : Bool
  (roles locales : List JsString)
  (before after added removed : Nat)
  deriving DecidableEq, Repr

def ruleImpact (before after : TaxonomySnapshot) (group : TagGroup) (rule : Access.AccessRule) :
    Except TaxonomyError TaxonomyRuleImpact := do
  let previous ← ruleMatches before rule
  let next ← ruleMatches after rule
  return {
    groupId := group.id
    groupName := group.name
    path := rule.path
    deny := rule.deny
    roles := rule.roles
    locales := rule.locales.getD []
    before := previous.length
    after := next.length
    added := (next.filter fun id => !previous.contains id).length
    removed := (previous.filter fun id => !next.contains id).length }

def taxonomyRules (before after : TaxonomySnapshot) (names : List JsString) :
    Except TaxonomyError (List TaxonomyRuleImpact) := do
  let impacts ← before.groups.mapM fun group =>
    (group.pageRules.filter fun rule => rule.match = .TAG && names.contains rule.path).mapM
      (ruleImpact before after group)
  return impacts.flatten

end TsEpistle.Taxonomy
