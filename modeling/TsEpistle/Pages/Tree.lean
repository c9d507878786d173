import TsEpistle.Outbox.PageProjection
import TsEpistle.Storage.Paths

/-! The tree of folders and pages (`replacePageTree` in `server/models/pages.ts`). -/

namespace TsEpistle.Pages.Tree
open Library Library.Table List
open Outbox (PageVisibility)
open Storage (segments joined joined_segments segments_joined segments_no_slash)

/-- Where a path is unique. -/
structure Scope where
  visibility : PageVisibility
  ownerId : Option Int
  localeCode : JsString
  deriving DecidableEq, Repr

structure PageTreeSourceRow where
  id : Nat
  (path title : JsString)
  scope : Scope
  deriving DecidableEq, Repr

/-- `ancestors` is stored as JSON. -/
structure PageTreeInsertRow where
  id : Nat
  scope : Scope
  path : JsString
  depth : Nat
  title : JsString
  isFolder : Bool
  (parent pageId : Option Nat)
  ancestors : List Nat
  deriving DecidableEq, Repr

def PageTreeSourceRow.identity (page : PageTreeSourceRow) : Scope × JsString := (page.scope, page.path)
def PageTreeInsertRow.identity (row : PageTreeInsertRow) : Scope × JsString := (row.scope, row.path)

/-- The variables of the loop over the parts of a path. -/
structure Walk where
  tree : List PageTreeInsertRow
  nextId : Nat
  currentPath : JsString
  parentId : Option Nat
  ancestors : List Nat

def visit (page : PageTreeSourceRow) (count : Nat) (walk : Walk) (entry : JsString × Nat) : Walk :=
  let part := entry.1
  let depth := entry.2 + 1
  let isFolder : Bool := depth < count
  let currentPath := if walk.currentPath = [] then part else walk.currentPath ++ 47 :: part
  let identity := (page.scope, currentPath)
  match walk.tree.find? fun row => row.identity = identity with
  | none =>
    let id := walk.nextId + 1
    { tree := walk.tree ++ [{
        id := id
        scope := page.scope
        path := currentPath
        depth := depth
        title := if isFolder then part else page.title
        isFolder := isFolder
        parent := walk.parentId
        pageId := if isFolder then none else some page.id
        ancestors := walk.ancestors }]
      nextId := id
      currentPath := currentPath
      parentId := some id
      ancestors := walk.ancestors ++ [id] }
  | some treeRow =>
    { tree :=
        if isFolder && !treeRow.isFolder then
          updateWhere (fun row => row.identity = identity) (fun row => { row with isFolder := true }) walk.tree
        else walk.tree
      nextId := walk.nextId
      currentPath := currentPath
      parentId := some treeRow.id
      ancestors := walk.ancestors ++ [treeRow.id] }

def addPage (walk : Walk) (page : PageTreeSourceRow) : Walk :=
  let pagePaths := segments page.path
  pagePaths.zipIdx.foldl (visit page pagePaths.length)
    { walk with currentPath := [], parentId := none, ancestors := [] }

/-- The rows that are inserted for `pages` in the order of the query. -/
def replacePageTree (pages : List PageTreeSourceRow) : List PageTreeInsertRow :=
  (pages.foldl addPage ⟨[], 0, [], none, []⟩).tree

/-! ## What the tree should be -/

/-- All prefixes but the empty one, the shortest first. -/
def prefixes {α : Type} (l : List α) : List (List α) := l.inits.tail

structure Faithful (pages : List PageTreeSourceRow) (tree : List PageTreeInsertRow) : Prop where
  ids : (tree.map (·.id)).Nodup
  identities : (tree.map (·.identity)).Nodup
  own : ∀ page ∈ pages, ∃ row ∈ tree, row.identity = page.identity ∧ row.title = page.title
    ∧ ∀ other ∈ tree, other.pageId = some page.id ↔ other = row
  rows : ∀ scope path, (∃ row ∈ tree, row.identity = (scope, path))
    ↔ ∃ page ∈ pages, page.scope = scope ∧ segments path <+: segments page.path
  ancestry : ∀ row ∈ tree, row.depth = (segments row.path).length ∧ row.parent = row.ancestors.getLast?
    ∧ List.Forall₂ (fun id path => ∃ above ∈ tree, above.id = id ∧ above.identity = (row.scope, path))
        row.ancestors ((prefixes (segments row.path)).dropLast.map joined)
  folders : ∀ row ∈ tree, row.isFolder = true ↔ ∃ page ∈ pages, page.scope = row.scope
    ∧ segments row.path <+: segments page.path ∧ row.path ≠ page.path

/-- `page` lies below the path of `other`. -/
def Below (page other : PageTreeSourceRow) : Prop :=
  page.scope = other.scope ∧ segments other.path <+: segments page.path ∧ other.path ≠ page.path

/-! ## Prefixes -/

theorem mem_prefixes {α : Type} {l l' : List α} : l' ∈ prefixes l ↔ l' <+: l ∧ l' ≠ [] := by
  unfold prefixes
  cases l with
  | nil => simp
  | cons a l =>
    rw [inits_cons, tail_cons, mem_map]
    constructor
    · rintro ⟨l', hl', rfl⟩
      exact ⟨cons_prefix_cons.mpr ⟨rfl, (mem_inits _ _).mp hl'⟩, by simp⟩
    · rintro ⟨hfront, hne⟩
      cases l' with
      | nil => exact absurd rfl hne
      | cons b l' =>
        obtain ⟨rfl, hl'⟩ := cons_prefix_cons.mp hfront
        exact ⟨l', (mem_inits _ _).mpr hl', rfl⟩

@[simp] theorem prefixes_nil {α : Type} : prefixes ([] : List α) = [] := rfl

theorem prefixes_concat {α : Type} (l : List α) (a : α) : prefixes (l ++ [a]) = prefixes l ++ [l ++ [a]] := by
  unfold prefixes
  rw [inits_append, tail_append_of_ne_nil (by cases l <;> simp)]
  rfl

theorem joined_concat {parts : List JsString} (hne : parts ≠ []) (part : JsString) :
    joined (parts ++ [part]) = joined parts ++ 47 :: part := by
  induction parts with
  | nil => exact absurd rfl hne
  | cons first parts ih =>
    cases parts with
    | nil => simp [joined]
    | cons second parts =>
      have hlonger : second :: parts ++ [part] ≠ [] := by simp
      have hrest : second :: parts ≠ [] := cons_ne_nil _ _
      rw [cons_append, Storage.joined_cons first hlonger, ih hrest, Storage.joined_cons first hrest]
      simp

/-! ## Visits -/

/-- A page at one of the prefixes of its path. -/
abbrev Visit := PageTreeSourceRow × List JsString

def Visit.node (visit : Visit) : Scope × List JsString := (visit.1.scope, visit.2)
def Visit.isFolder (visit : Visit) : Bool := visit.2.length < (segments visit.1.path).length

def PageTreeInsertRow.node (row : PageTreeInsertRow) : Scope × List JsString := (row.scope, segments row.path)

def visitsOf (page : PageTreeSourceRow) : List Visit := (prefixes (segments page.path)).map (page, ·)

theorem identity_iff (row : PageTreeInsertRow) (scope : Scope) (path : JsString) :
    row.identity = (scope, path) ↔ row.node = (scope, segments path) := by
  unfold PageTreeInsertRow.identity PageTreeInsertRow.node
  rw [Prod.mk.injEq, Prod.mk.injEq]
  refine and_congr_right fun _ => ⟨fun h => by rw [h], fun h => ?_⟩
  rw [← joined_segments row.path, h, joined_segments]

/-- A row has this id and stands for these segments. -/
def IdOf (tree : List PageTreeInsertRow) (scope : Scope) (id : Nat) (parts : List JsString) : Prop :=
  ∃ row ∈ tree, row.id = id ∧ row.node = (scope, parts)

/-- The tree after `visits`. -/
structure Grown (visits : List Visit) (tree : List PageTreeInsertRow) : Prop where
  ids : tree.map (·.id) = List.range' 1 tree.length
  nodes : (tree.map (·.node)).Nodup
  rows : ∀ node, (∃ row ∈ tree, row.node = node) ↔ ∃ visit ∈ visits, visit.node = node
  ancestry : ∀ row ∈ tree, row.depth = (segments row.path).length ∧ row.parent = row.ancestors.getLast?
    ∧ List.Forall₂ (IdOf tree row.scope) row.ancestors (prefixes (segments row.path)).dropLast
  folders : ∀ row ∈ tree, row.isFolder = true ↔ ∃ visit ∈ visits, visit.node = row.node ∧ visit.isFolder = true
  first : ∀ row ∈ tree, ∃ visit, visits.find? (fun visit => visit.node = row.node) = some visit
    ∧ row.pageId = (if visit.isFolder then none else some visit.1.id)
    ∧ (visit.isFolder = false → row.title = visit.1.title)

theorem IdOf.mono {tree tree' : List PageTreeInsertRow} {scope : Scope}
    (h : ∀ row ∈ tree, ∃ row' ∈ tree', row'.id = row.id ∧ row'.node = row.node) {id : Nat} {parts : List JsString}
    (hid : IdOf tree scope id parts) : IdOf tree' scope id parts := by
  obtain ⟨row, hrow, rfl, hnode⟩ := hid
  obtain ⟨row', hrow', hid', hnode'⟩ := h row hrow
  exact ⟨row', hrow', hid', hnode'.trans hnode⟩

theorem Grown.nil : Grown [] [] where
  ids := rfl
  nodes := nodup_nil
  rows := by simp
  ancestry := by simp
  folders := by simp
  first := by simp

/-- A visit of a node that has no row. -/
theorem Grown.push {visits : List Visit} {tree : List PageTreeInsertRow} (h : Grown visits tree) {visit : Visit}
    (hnew : ∀ row ∈ tree, row.node ≠ visit.node) {row : PageTreeInsertRow} (hnode : row.node = visit.node)
    (hid : row.id = tree.length + 1) (hdepth : row.depth = (segments row.path).length)
    (hparent : row.parent = row.ancestors.getLast?)
    (hancestors : List.Forall₂ (IdOf tree row.scope) row.ancestors (prefixes (segments row.path)).dropLast)
    (hfolder : row.isFolder = visit.isFolder)
    (hpage : row.pageId = if visit.isFolder then none else some visit.1.id)
    (htitle : visit.isFolder = false → row.title = visit.1.title) :
    Grown (visits ++ [visit]) (tree ++ [row]) := by
  have hfresh : ∀ other ∈ visits, other.node ≠ visit.node := by
    intro other hother hsame
    obtain ⟨row', hrow', hrow''⟩ := (h.rows other.node).mpr ⟨other, hother, rfl⟩
    exact hnew row' hrow' (hrow''.trans hsame)
  have hmono : ∀ scope id parts, IdOf tree scope id parts → IdOf (tree ++ [row]) scope id parts :=
    fun _ _ _ => IdOf.mono fun other hother => ⟨other, mem_append_left _ hother, rfl, rfl⟩
  refine ⟨?_, ?_, fun node => ?_, fun other hother => ?_, fun other hother => ?_, fun other hother => ?_⟩
  · rw [map_append, h.ids, length_append, length_singleton, range'_concat]
    simp [hid, Nat.add_comm]
  · rw [map_append, nodup_append]
    refine ⟨h.nodes, by simp, fun node hmem node' hmem' => ?_⟩
    obtain ⟨other, hother, rfl⟩ := mem_map.mp hmem
    rw [map_singleton, mem_singleton] at hmem'
    rw [hmem', hnode]
    exact hnew other hother
  · have hrows := h.rows node
    simp only [mem_append, mem_singleton, or_and_right, exists_or, exists_eq_left, hnode, hrows]
  · rcases mem_append.mp hother with hother | hother
    · obtain ⟨hdepth', hparent', hancestors'⟩ := h.ancestry other hother
      exact ⟨hdepth', hparent', hancestors'.imp fun _ _ => hmono _ _ _⟩
    · obtain rfl := mem_singleton.mp hother
      exact ⟨hdepth, hparent, hancestors.imp fun _ _ => hmono _ _ _⟩
  · rcases mem_append.mp hother with hother | hother
    · rw [h.folders other hother]
      have hne : visit.node ≠ other.node := fun hsame => hnew other hother hsame.symm
      simp [or_and_right, exists_or, hne]
    · obtain rfl := mem_singleton.mp hother
      rw [hfolder]
      constructor
      · exact fun hvisit => ⟨visit, by simp, hnode.symm, hvisit⟩
      · rintro ⟨other', hother', hsame, hvisit⟩
        rcases mem_append.mp hother' with hother' | hother'
        · exact absurd (hsame.trans hnode) (hfresh other' hother')
        · exact mem_singleton.mp hother' ▸ hvisit
  · rcases mem_append.mp hother with hother | hother
    · obtain ⟨visit', hfind, hrest⟩ := h.first other hother
      exact ⟨visit', by rw [find?_append, hfind]; rfl, hrest⟩
    · obtain rfl := mem_singleton.mp hother
      refine ⟨visit, ?_, hpage, htitle⟩
      rw [find?_append, find?_eq_none.mpr fun other' hother' => by
        simpa [hnode] using hfresh other' hother']
      simp [hnode]

/-- A row after a visit of its node. -/
def marked (visit : Visit) (row : PageTreeInsertRow) : PageTreeInsertRow :=
  { row with isFolder := row.isFolder || (visit.isFolder && decide (row.node = visit.node)) }

/-- A visit of a node that has a row. -/
theorem Grown.touch {visits : List Visit} {tree : List PageTreeInsertRow} (h : Grown visits tree) {visit : Visit}
    (hold : ∃ row ∈ tree, row.node = visit.node) : Grown (visits ++ [visit]) (tree.map (marked visit)) := by
  have hmono : ∀ scope id parts, IdOf tree scope id parts → IdOf (tree.map (marked visit)) scope id parts :=
    fun _ _ _ => IdOf.mono fun other hother => ⟨marked visit other, mem_map_of_mem hother, rfl, rfl⟩
  refine ⟨?_, ?_, fun node => ?_, ?_, ?_, ?_⟩
  · rw [map_map, length_map, ← h.ids]
    rfl
  · rw [map_map]
    exact h.nodes
  · have hrows := h.rows node
    have hsame : (∃ row ∈ tree.map (marked visit), row.node = node) ↔ ∃ row ∈ tree, row.node = node := by
      simp only [mem_map, exists_exists_and_eq_and]
      rfl
    rw [hsame, hrows]
    constructor
    · exact fun ⟨other, hother, hnode⟩ => ⟨other, mem_append_left _ hother, hnode⟩
    · rintro ⟨other, hother, hnode⟩
      rcases mem_append.mp hother with hother | hother
      · exact ⟨other, hother, hnode⟩
      · obtain rfl := mem_singleton.mp hother
        exact hrows.mp (hnode ▸ hold)
  · rw [forall_mem_map]
    intro row hrow
    obtain ⟨hdepth, hparent, hancestors⟩ := h.ancestry row hrow
    exact ⟨hdepth, hparent, hancestors.imp fun _ _ => hmono _ _ _⟩
  · rw [forall_mem_map]
    intro row hrow
    have hfolders := h.folders row hrow
    change (row.isFolder || (visit.isFolder && decide (row.node = visit.node))) = true ↔ _
    rw [Bool.or_eq_true, hfolders, Bool.and_eq_true, decide_eq_true_iff]
    constructor
    · rintro (⟨other, hother, hrest⟩ | ⟨hfolder, hnode⟩)
      · exact ⟨other, mem_append_left _ hother, hrest⟩
      · exact ⟨visit, by simp, hnode.symm, hfolder⟩
    · rintro ⟨other, hother, hnode, hfolder⟩
      rcases mem_append.mp hother with hother | hother
      · exact .inl ⟨other, hother, hnode, hfolder⟩
      · obtain rfl := mem_singleton.mp hother
        exact .inr ⟨hfolder, hnode.symm⟩
  · rw [forall_mem_map]
    intro row hrow
    obtain ⟨visit', hfind, hrest⟩ := h.first row hrow
    refine ⟨visit', ?_, hrest⟩
    have hfind' : visits.find? (fun other => other.node = (marked visit row).node) = some visit' := hfind
    rw [find?_append, hfind']
    rfl

/-! ## One path -/

/-- The walk of `page` after the parts `pre`. -/
structure Walked (before : List Visit) (page : PageTreeSourceRow) (pre : List JsString) (walk : Walk) : Prop where
  grown : Grown (before ++ (prefixes pre).map (page, ·)) walk.tree
  next : walk.nextId = walk.tree.length
  path : walk.currentPath = joined pre
  parent : walk.parentId = walk.ancestors.getLast?
  ancestors : List.Forall₂ (IdOf walk.tree page.scope) walk.ancestors (prefixes pre)

/-- The parts so far make a path that is not empty, where the path has no slash in front. -/
theorem joined_empty_iff {path part : JsString} {pre rest : List JsString} (hslash : path.head? ≠ some 47)
    (hparts : segments path = pre ++ part :: rest) : joined pre = [] ↔ pre = [] := by
  refine ⟨fun hempty => ?_, fun hnil => by rw [hnil]; rfl⟩
  by_contra hne
  apply hslash
  have hpath := joined_segments path
  rw [hparts] at hpath
  cases pre with
  | nil => exact absurd rfl hne
  | cons first pre =>
    cases pre with
    | nil =>
      rw [Storage.joined_single] at hempty
      have hrest : part :: rest ≠ [] := cons_ne_nil _ _
      rw [singleton_append, Storage.joined_cons first hrest, hempty] at hpath
      rw [← hpath]
      rfl
    | cons second pre =>
      rw [Storage.joined_cons first (cons_ne_nil _ _)] at hempty
      simp at hempty

theorem markAll {tree : List PageTreeInsertRow} (hnodes : (tree.map (·.node)).Nodup) {treeRow : PageTreeInsertRow}
    (hrow : treeRow ∈ tree) {visit : Visit} (hnode : treeRow.node = visit.node) {path : JsString}
    (hpath : visit.node = (visit.1.scope, segments path)) :
    (if visit.isFolder && !treeRow.isFolder then
      updateWhere (fun row => row.identity = (visit.1.scope, path)) (fun row => { row with isFolder := true }) tree
    else tree) = tree.map (marked visit) := by
  split
  · rename_i hmark
    rw [Bool.and_eq_true] at hmark
    refine map_congr_left fun row _ => ?_
    have hiff : row.identity = (visit.1.scope, path) ↔ row.node = visit.node := by
      rw [identity_iff, hpath]
    by_cases hsame : row.node = visit.node <;> simp [marked, hmark.1, hiff, hsame]
  · rename_i hmark
    refine (map_id tree).symm.trans (map_congr_left fun row hmem => ?_)
    by_cases hsame : row.node = visit.node
    · obtain rfl : row = treeRow := inj_on_of_nodup_map hnodes hmem hrow (hsame.trans hnode.symm)
      cases hfolder : visit.isFolder <;> cases hfolder' : row.isFolder <;> simp_all [marked]
      all_goals rw [← hfolder']
    · simp [marked, hsame]

/-- **One part.** -/
theorem walked_visit {before : List Visit} {page : PageTreeSourceRow} {pre rest : List JsString} {walk : Walk}
    {part : JsString} (h : Walked before page pre walk) (hslash : page.path.head? ≠ some 47)
    (hparts : segments page.path = pre ++ part :: rest) :
    Walked before page (pre ++ [part]) (visit page (segments page.path).length walk (part, pre.length)) := by
  have hpath : (if walk.currentPath = [] then part else walk.currentPath ++ 47 :: part)
      = joined (pre ++ [part]) := by
    rw [h.path]
    by_cases hnil : pre = []
    · rw [if_pos ((joined_empty_iff hslash hparts).mpr hnil), hnil, nil_append, Storage.joined_single]
    · rw [if_neg fun hempty => hnil ((joined_empty_iff hslash hparts).mp hempty), joined_concat hnil]
  have hsegments : segments (joined (pre ++ [part])) = pre ++ [part] := by
    refine segments_joined (fun s hs => segments_no_slash page.path s ?_) (by simp)
    rw [hparts]
    rcases mem_append.mp hs with hs | hs
    · exact mem_append_left _ hs
    · exact mem_append_right _ (mem_singleton.mp hs ▸ mem_cons_self)
  let entered : Visit := (page, pre ++ [part])
  have hfolder : decide (pre.length + 1 < (segments page.path).length) = entered.isFolder := by
    simp [entered, Visit.isFolder]
  have hnode : entered.node = (page.scope, segments (joined (pre ++ [part]))) := by rw [hsegments]; rfl
  have hvisits : before ++ (prefixes (pre ++ [part])).map (page, ·)
      = before ++ (prefixes pre).map (page, ·) ++ [entered] := by
    rw [prefixes_concat, map_append, ← append_assoc]
    rfl
  unfold visit
  simp only [hpath, hfolder]
  cases hfind : walk.tree.find? fun row => row.identity = (page.scope, joined (pre ++ [part])) with
  | none =>
    have hnew : ∀ row ∈ walk.tree, row.node ≠ entered.node := by
      intro row hrow hsame
      have := find?_eq_none.mp hfind row hrow
      rw [hnode, ← identity_iff] at hsame
      simp [hsame] at this
    have hlast : (prefixes (segments (joined (pre ++ [part])))).dropLast = prefixes pre := by
      rw [hsegments, prefixes_concat, dropLast_concat]
    refine ⟨?_, ?_, rfl, by simp, ?_⟩
    · rw [hvisits]
      refine h.grown.push hnew hnode.symm (by rw [h.next]) ?_ h.parent ?_ rfl rfl fun hleaf => ?_
      · simp [hsegments]
      · simp only [hlast]
        exact h.ancestors
      · simp [hleaf, entered]
    · simp [h.next]
    · rw [prefixes_concat]
      refine rel_append (h.ancestors.imp fun _ _ => ?_) (.cons ?_ .nil)
      · exact IdOf.mono fun row hrow => ⟨row, mem_append_left _ hrow, rfl, rfl⟩
      · exact ⟨_, mem_append_right _ mem_cons_self, rfl, hnode.symm⟩
  | some treeRow =>
    have hrow := mem_of_find?_eq_some hfind
    have hsame : treeRow.node = entered.node := by
      rw [hnode, ← identity_iff]
      simpa using find?_some hfind
    have hmark : (if entered.isFolder && !treeRow.isFolder then
        updateWhere (fun row => row.identity = (page.scope, joined (pre ++ [part])))
          (fun row => { row with isFolder := true }) walk.tree
        else walk.tree) = walk.tree.map (marked entered) := markAll h.grown.nodes hrow hsame hnode
    refine ⟨?_, ?_, rfl, by simp, ?_⟩
    · rw [hvisits]
      simp only [hmark]
      exact h.grown.touch ⟨treeRow, hrow, hsame⟩
    · simp only [hmark, length_map]
      exact h.next
    · rw [prefixes_concat]
      simp only [hmark]
      refine rel_append (h.ancestors.imp fun _ _ => ?_) (.cons ?_ .nil)
      · exact IdOf.mono fun row hrow => ⟨marked entered row, mem_map_of_mem hrow, rfl, rfl⟩
      · exact ⟨marked entered treeRow, mem_map_of_mem hrow, rfl, hsame⟩

theorem walked_parts {before : List Visit} {page : PageTreeSourceRow} (hslash : page.path.head? ≠ some 47)
    {rest pre : List JsString} {walk : Walk} (h : Walked before page pre walk)
    (hparts : segments page.path = pre ++ rest) : Walked before page (segments page.path)
    ((rest.zipIdx pre.length).foldl (visit page (segments page.path).length) walk) := by
  induction rest generalizing pre walk with
  | nil =>
    rw [append_nil] at hparts
    rw [zipIdx_nil, foldl_nil, hparts]
    exact h
  | cons part rest ih =>
    have hstep := walked_visit h hslash hparts
    have hrest := ih hstep (by rw [hparts]; simp)
    rwa [length_append, length_singleton] at hrest

theorem addPage_grown {before : List Visit} {page : PageTreeSourceRow} {walk : Walk}
    (hslash : page.path.head? ≠ some 47) (h : Grown before walk.tree) (hnext : walk.nextId = walk.tree.length) :
    Grown (before ++ visitsOf page) (addPage walk page).tree
      ∧ (addPage walk page).nextId = (addPage walk page).tree.length := by
  have hstart : Walked before page [] { walk with currentPath := [], parentId := none, ancestors := [] } :=
    ⟨by simpa using h, hnext, rfl, rfl, .nil⟩
  have hwalked := walked_parts hslash hstart (nil_append (segments page.path)).symm
  exact ⟨hwalked.grown, hwalked.next⟩

/-- **The loop.** -/
theorem grown_pages {pages : List PageTreeSourceRow} (hslash : ∀ page ∈ pages, page.path.head? ≠ some 47) :
    Grown (pages.flatMap visitsOf) (replacePageTree pages) := by
  have hloop : ∀ (pages : List PageTreeSourceRow) (before : List Visit) (walk : Walk),
      (∀ page ∈ pages, page.path.head? ≠ some 47) → Grown before walk.tree → walk.nextId = walk.tree.length →
      Grown (before ++ pages.flatMap visitsOf) (pages.foldl addPage walk).tree := by
    intro pages
    induction pages with
    | nil =>
      intro before walk _ h _
      simpa using h
    | cons page pages ih =>
      intro before walk hslash h hnext
      obtain ⟨hgrown, hnext'⟩ := addPage_grown (hslash page mem_cons_self) h hnext
      have := ih _ _ (fun other hother => hslash other (mem_cons_of_mem _ hother)) hgrown hnext'
      rwa [append_assoc] at this
  exact hloop pages [] ⟨[], 0, [], none, []⟩ hslash Grown.nil rfl

end TsEpistle.Pages.Tree
