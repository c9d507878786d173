import TsEpistle.Taxonomy.Tags

/-! The plan of a taxonomy change (`server/helpers/taxonomy-plan.ts`) and how it is applied
(`server/operations/taxonomy.ts`). -/

namespace TsEpistle.Taxonomy
open Library

def tagNotFound : TaxonomyError := ⟨"This tag no longer exists.", 404, some "TAG_NOT_FOUND"⟩

def notCanonical : TaxonomyError := invalid
  "Only active canonical tags can be edited or merged. Open the destination, or restore this tag first."

def noChanges : TaxonomyError := invalid "There are no changes to save."

def nameReserved : TaxonomyError := invalid
  "This name is already reserved by a tag, alias or archived tag. Choose another name, or merge into an active tag."

def badDestination : TaxonomyError := invalid "The merge destination must be an active canonical tag."
def alreadyArchived : TaxonomyError := invalid "This tag is already archived."
def alreadyActive : TaxonomyError := invalid "This tag is already active."

def destinationArchived : TaxonomyError := invalid
  "Restore the canonical destination before restoring this alias."

/-! ## The rows of a change -/

def retitle (title : JsString) (tag : TagRow) : TagRow := { tag with title }

def redirect (destinationId : Int) (tag : TagRow) : TagRow :=
  { tag with redirectToId := some destinationId }

def flag (isArchived : Bool) (tag : TagRow) : TagRow := { tag with isArchived }

/-- What is written to `tags.find(t => t.id === id)`. -/
def updateTag (change : TagRow → TagRow) (id : Int) : List TagRow → List TagRow
  | [] => []
  | tag :: tags => if tag.id = id then change tag :: tags else tag :: updateTag change id tags

def updateTags (change : TagRow → TagRow) (ids : List Int) (tags : List TagRow) : List TagRow :=
  ids.foldl (fun tags id => updateTag change id tags) tags

/-- The other tags that lead to a tag. -/
def aliasesOf (tags : List TagRow) (sourceId : Int) : List TagRow → Except TaxonomyError (List TagRow)
  | [] => .ok []
  | tag :: rest =>
    if tag.id = sourceId then aliasesOf tags sourceId rest
    else do
      let id ← canonicalId tags tag.id
      let aliases ← aliasesOf tags sourceId rest
      return if id = sourceId then tag :: aliases else aliases

/-- The id of a destination that has no row yet. -/
def pendingId : Int := -1

/-- The assignments of a source go to a destination, each once. -/
def moveAssignments (sourceId destinationId : Int) (assignments : List TagAssignment) :
    List TagAssignment :=
  (assignments.map fun assignment =>
    if assignment.tagId = sourceId then { assignment with tagId := destinationId }
    else assignment).eraseDups

/-- A source and its aliases lead to a destination. -/
def redirectTo (snapshot : TaxonomySnapshot) (tags : List TagRow) (sourceId : Int)
    (aliases : List TagRow) (destination : TagRow) : TaxonomySnapshot :=
  { snapshot with
    tags := updateTags (redirect destination.id) (sourceId :: aliases.map (·.id)) tags
    assignments := moveAssignments sourceId destination.id snapshot.assignments }

/-- What a change makes of a snapshot, and the destination of an edit or a merge. -/
def changeTags (snapshot : TaxonomySnapshot) (source : TagRow) (aliases : List TagRow) :
    TaxonomyChange → Except TaxonomyError (TaxonomySnapshot × Option TagRow)
  | .edit _ tag title =>
    if source.isArchived || source.redirectToId.isSome then .error notCanonical
    else if tag = source.tag then
      if title = source.title then .error noChanges
      else .ok ({ snapshot with
        tags := updateTag (retitle title) source.id snapshot.tags }, none)
    else if snapshot.tags.any (·.tag = tag) then .error nameReserved
    else
      let destination := { source with id := pendingId, tag, title }
      .ok (redirectTo snapshot (snapshot.tags ++ [destination]) source.id aliases destination, some destination)
  | .merge _ targetId =>
    if source.isArchived || source.redirectToId.isSome then .error notCanonical
    else
      match snapshot.tags.find? (·.id = targetId) with
      | none => .error badDestination
      | some destination =>
        if destination.isArchived || destination.redirectToId.isSome then .error badDestination
        else .ok (redirectTo snapshot snapshot.tags source.id aliases destination, some destination)
  | .archive _ =>
    if source.isArchived then .error alreadyArchived
    else if source.redirectToId = none then
      .ok ({ snapshot with
        tags := updateTags (flag true) (source.id :: aliases.map (·.id)) snapshot.tags
        assignments := snapshot.assignments.filter (·.tagId ≠ source.id) }, none)
    else
      .ok ({ snapshot with
        tags := updateTag (flag true) source.id snapshot.tags },
        none)
  | .restore _ =>
    if !source.isArchived then .error alreadyActive
    else do
      if source.redirectToId.isSome then
        let destinationId ← canonicalId snapshot.tags source.id
        if (snapshot.tags.find? (·.id = destinationId)).any (·.isArchived) then
          .error destinationArchived
      return ({ snapshot with
        tags := updateTag (flag false) source.id snapshot.tags },
        none)

/-! ## The preview -/

structure TaxonomyPreview where
  change : TaxonomyChange
  source : TaxonomyTag
  destination : Option TaxonomyTag
  pages : List TaxonomyPage
  aliases : List TaxonomyTag
  rules : List TaxonomyRuleImpact
  accessChanges : Bool
  pageCount : Nat
  deriving DecidableEq, Repr

structure TaxonomyPlan where
  preview : TaxonomyPreview
  after : TaxonomySnapshot
  changedPageIds : List Int
  deriving DecidableEq, Repr

/-- The tag ids of a page in order; no list is the empty one. -/
def pageAssignments (assignments : List TagAssignment) (pageId : Int) : List Int :=
  ((assignments.filter (·.pageId = pageId)).map (·.tagId)).insertionSort (· ≤ ·)

def changedPages (before after : TaxonomySnapshot) : List TaxonomyPage :=
  before.pages.filter fun page =>
    pageAssignments before.assignments page.id ≠ pageAssignments after.assignments page.id

/-- The names whose rules a preview lists. -/
def impactNames (snapshot : TaxonomySnapshot) (source : TagRow) (aliases : List TagRow)
    (destination : Option TagRow) (beforeMap afterMap : AliasMap) : List JsString :=
  (snapshot.tags.filter fun tag => tag.id = source.id || aliases.any (·.id = tag.id)
      || beforeMap.get tag.tag = some (some source.tag)
      || destination.any fun destination => afterMap.get tag.tag = some (some destination.tag)).map
    (·.tag) ++ (destination.map (·.tag)).toList

def planPreview (snapshot : TaxonomySnapshot) (change : TaxonomyChange) (inventory : List TaxonomyTag)
    (source : TaxonomyTag) (aliases : List TagRow) (after : TaxonomySnapshot)
    (destination : Option TagRow) : Except TaxonomyError TaxonomyPlan := do
  let changed := changedPages snapshot after
  let beforeMap ← tagAliasMap snapshot.tags
  let afterMap ← tagAliasMap after.tags
  let rules ← taxonomyRules snapshot after
    (impactNames snapshot source.toTagRow aliases destination beforeMap afterMap)
  let afterInventory ← taxonomyInventory after
  return {
    after
    changedPageIds := changed.map (·.id)
    preview := {
      change
      source
      destination := destination.bind fun destination =>
        afterInventory.find? (·.id = destination.id)
      pages := snapshot.pages.filter fun page => (changed.map (·.id)).contains page.id
      aliases := inventory.filter fun tag => aliases.any (·.id = tag.id)
      rules
      accessChanges := rules.any fun rule => 0 < rule.added || 0 < rule.removed
      pageCount := changed.length } }

def planTaxonomy (toLowerCase : JsString → JsString) (snapshot : TaxonomySnapshot)
    (input : TaxonomyChange) : Except TaxonomyError TaxonomyPlan := do
  let change ← taxonomyChange toLowerCase input
  let inventory ← taxonomyInventory snapshot
  match inventory.find? (·.id = change.tagId) with
  | none => .error tagNotFound
  | some source => do
      let aliases ← aliasesOf snapshot.tags source.id snapshot.tags
      let (after, destination) ← changeTags snapshot source.toTagRow aliases change
      planPreview snapshot change inventory source aliases after destination

/-! ## Application -/

/-- The id of the new row for the one that stood for it. -/
def freshId (fresh id : Int) : Int := if id = pendingId then fresh else id

def TaxonomySnapshot.substitute (snapshot : TaxonomySnapshot) (fresh : Int) : TaxonomySnapshot :=
  { snapshot with
    tags := snapshot.tags.map fun tag =>
      { tag with id := freshId fresh tag.id, redirectToId := tag.redirectToId.map (freshId fresh) }
    assignments := snapshot.assignments.map fun assignment =>
      { assignment with tagId := freshId fresh assignment.tagId } }

/-- The tables. -/
structure Store where
  tags : List TagRow
  pageTags : List TagAssignment
  pages : List TaxonomyPage
  groups : List TagGroup
  history : List HistoryCount
  deriving DecidableEq, Repr

/-- Only pages with tags are read. The order of the rows is left to the tables. -/
def readTaxonomySnapshot (store : Store) : TaxonomySnapshot where
  tags := store.tags
  assignments := store.pageTags
  pages := store.pages.filter fun page => store.pageTags.any (·.pageId = page.id)
  groups := store.groups
  history := store.history

def notAcknowledged : TaxonomyError :=
  ⟨"Acknowledge the changes to tag-based access rule matches before continuing.", 400, none⟩

/-- A page has its assignments written anew. -/
def writePageTags (after : List TagAssignment) (pageTags : List TagAssignment) (pageId : Int) :
    List TagAssignment :=
  pageTags.filter (·.pageId ≠ pageId) ++ after.filter (·.pageId = pageId)

/-- A tag that changed is written. -/
def writeTag (before rows : List TagRow) (tag : TagRow) : List TagRow :=
  match before.find? (·.id = tag.id) with
  | none => rows
  | some previous =>
    if previous.redirectToId = tag.redirectToId && previous.isArchived = tag.isArchived
        && previous.title = tag.title then rows
    else rows.map fun row =>
      if row.id = tag.id then
        { row with redirectToId := tag.redirectToId, isArchived := tag.isArchived, title := tag.title }
      else row

/-- The row that an edit inserts. -/
def insertedTag (plan : TaxonomyPlan) (fresh : Int) : List TagRow :=
  match plan.preview.destination with
  | none => []
  | some destination =>
    if destination.id = pendingId then [⟨fresh, destination.tag, destination.title, none, false⟩]
    else []

/-- `apply`: the transaction, which plans again on what it has locked, as one step. `fresh` is the id
that the table gives to a new row, `history` the counts with the versions that are kept. -/
def apply (toLowerCase : JsString → JsString) (store : Store) (change : TaxonomyChange)
    (acknowledgeAccess : Bool) (fresh : Int) (history : List HistoryCount) :
    Except TaxonomyError Store := do
  let before := readTaxonomySnapshot store
  let plan ← planTaxonomy toLowerCase before change
  if plan.preview.accessChanges && !acknowledgeAccess then .error notAcknowledged
  else
    let after := plan.after.substitute fresh
    return { store with
      tags := after.tags.foldl (writeTag before.tags) (store.tags ++ insertedTag plan fresh)
      pageTags := plan.changedPageIds.foldl (writePageTags after.assignments) store.pageTags
      history }

end TsEpistle.Taxonomy
