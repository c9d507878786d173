import TsEpistle.Pages.Tree

/-! When the tree of pages says what the pages are (`replacePageTree` in `server/models/pages.ts`). -/

namespace TsEpistle.Pages.Tree
open Library Library.Table List
open Storage (segments joined joined_segments segments_no_slash)

/-! ## Slashes in front -/

variable {page : PageTreeSourceRow}

theorem visit_head {count : Nat} {walk : Walk} {entry : JsString × Nat} (hpart : 47 ∉ entry.1)
    (htree : ∀ row ∈ walk.tree, row.path.head? ≠ some 47) (hpath : walk.currentPath.head? ≠ some 47) :
    (∀ row ∈ (visit page count walk entry).tree, row.path.head? ≠ some 47)
      ∧ (visit page count walk entry).currentPath.head? ≠ some 47 := by
  have hcurrent : (if walk.currentPath = [] then entry.1 else walk.currentPath ++ 47 :: entry.1).head?
      ≠ some 47 := by
    split
    · exact fun h => hpart (mem_of_head? h)
    · rename_i hne
      rwa [head?_append_of_ne_nil _ hne]
  unfold visit
  simp only
  split
  · refine ⟨fun row hrow => ?_, hcurrent⟩
    rcases mem_append.mp hrow with hrow | hrow
    · exact htree row hrow
    · rw [mem_singleton.mp hrow]
      exact hcurrent
  · refine ⟨?_, hcurrent⟩
    split
    · exact forall_updateWhere htree fun _ _ _ h => h
    · exact htree

/-- No row has a path with a slash in front. -/
theorem row_head (pages : List PageTreeSourceRow) : ∀ row ∈ replacePageTree pages, row.path.head? ≠ some 47 := by
  have hparts : ∀ (page : PageTreeSourceRow) (count : Nat) (entries : List (JsString × Nat)) (walk : Walk),
      (∀ entry ∈ entries, 47 ∉ entry.1) → (∀ row ∈ walk.tree, row.path.head? ≠ some 47) →
      walk.currentPath.head? ≠ some 47 →
      ∀ row ∈ (entries.foldl (visit page count) walk).tree, row.path.head? ≠ some 47 := by
    intro page count entries
    induction entries with
    | nil => exact fun walk _ htree _ => htree
    | cons entry entries ih =>
      intro walk hentries htree hpath
      obtain ⟨htree', hpath'⟩ := visit_head (hentries entry mem_cons_self) htree hpath
      exact ih _ (fun other hother => hentries other (mem_cons_of_mem _ hother)) htree' hpath'
  have hloop : ∀ (pages : List PageTreeSourceRow) (walk : Walk), (∀ row ∈ walk.tree, row.path.head? ≠ some 47) →
      ∀ row ∈ (pages.foldl addPage walk).tree, row.path.head? ≠ some 47 := by
    intro pages
    induction pages with
    | nil => exact fun walk htree => htree
    | cons page pages ih =>
      intro walk htree
      refine ih _ (hparts page _ _ _ (fun entry hentry => ?_) htree (by simp))
      exact segments_no_slash page.path entry.1 (fst_mem_of_mem_zipIdx hentry)
  exact hloop pages ⟨[], 0, [], none, []⟩ (by simp)

/-! ## First visits -/

theorem mem_visits {pages : List PageTreeSourceRow} {visit : Visit} :
    visit ∈ pages.flatMap visitsOf ↔ visit.1 ∈ pages ∧ visit.2 <+: segments visit.1.path ∧ visit.2 ≠ [] := by
  obtain ⟨page, parts⟩ := visit
  simp only [mem_flatMap, visitsOf, mem_map, Prod.mk.injEq, mem_prefixes]
  constructor
  · rintro ⟨other, hother, parts', ⟨hfront, hne⟩, rfl, rfl⟩
    exact ⟨hother, hfront, hne⟩
  · exact fun ⟨hpage, hfront, hne⟩ => ⟨page, hpage, parts, ⟨hfront, hne⟩, rfl, rfl⟩

theorem leaf_parts {visit : Visit} (hfront : visit.2 <+: segments visit.1.path) (hleaf : visit.isFolder = false) :
    visit.2 = segments visit.1.path :=
  hfront.eq_of_length_le (by simpa [Visit.isFolder] using hleaf)

theorem segments_inj {path path' : JsString} (h : segments path = segments path') : path = path' := by
  rw [← joined_segments path, h, joined_segments]

theorem folder_iff {visit : Visit} {path : JsString} (hfront : visit.2 <+: segments visit.1.path)
    (hparts : visit.2 = segments path) : visit.isFolder = true ↔ path ≠ visit.1.path := by
  constructor
  · rintro hfolder rfl
    rw [Visit.isFolder, decide_eq_true_iff, hparts] at hfolder
    exact lt_irrefl _ hfolder
  · intro hne
    by_contra hleaf
    rw [Bool.not_eq_true] at hleaf
    exact hne (segments_inj (hparts.symm.trans (leaf_parts hfront hleaf)))

/-- A page is visited first as a leaf if no page before it lies below its path. -/
theorem first_leaf_iff {before after : List PageTreeSourceRow}
    (hidentities : ((before ++ page :: after).map (·.identity)).Nodup) {visit : Visit}
    (hfind : ((before ++ page :: after).flatMap visitsOf).find?
      (fun visit => visit.node = (page.scope, segments page.path)) = some visit) :
    visit.isFolder = false ↔ ∀ other ∈ before, ¬ Below other page := by
  have hbelow : ∀ other ∈ before, Below other page →
      ((other, segments page.path) : Visit) ∈ before.flatMap visitsOf := fun other hother hother' =>
    mem_visits.mpr ⟨hother, hother'.2.1, splitOn_ne_nil 47 _⟩
  rw [flatMap_append, flatMap_cons, find?_append, find?_append] at hfind
  cases hearly : (before.flatMap visitsOf).find?
      (fun visit => visit.node = (page.scope, segments page.path)) with
  | some early =>
    rw [hearly] at hfind
    obtain rfl : early = visit := Option.some.inj hfind
    obtain ⟨hmem, hfront, -⟩ := mem_visits.mp (mem_of_find?_eq_some hearly)
    have hnode : early.node = (page.scope, segments page.path) := by simpa using find?_some hearly
    have hscope : early.1.scope = page.scope := congrArg Prod.fst hnode
    have hparts : early.2 = segments page.path := congrArg Prod.snd hnode
    have hne : page.path ≠ early.1.path := by
      intro hpath
      rw [map_append, nodup_append] at hidentities
      refine hidentities.2.2 early.1.identity (mem_map_of_mem hmem) page.identity
        (mem_map_of_mem mem_cons_self) ?_
      exact Prod.ext hscope hpath.symm
    have hfolder := (folder_iff hfront hparts).mpr hne
    refine iff_of_false (by rw [hfolder]; simp) fun hnone => hnone early.1 hmem ⟨hscope, hparts ▸ hfront, hne⟩
  | none =>
    refine iff_of_true ?_ fun other hother hother' => ?_
    · rw [hearly, Option.none_or] at hfind
      have hown : (visitsOf page).find? (fun visit => visit.node = (page.scope, segments page.path)) ≠ none := by
        intro hnone
        have hmem : ((page, segments page.path) : Visit) ∈ visitsOf page :=
          mem_map_of_mem (mem_prefixes.mpr ⟨prefix_refl _, splitOn_ne_nil 47 _⟩)
        simpa [Visit.node] using find?_eq_none.mp hnone _ hmem
      obtain ⟨own, hown⟩ := Option.ne_none_iff_exists'.mp hown
      rw [hown] at hfind
      obtain rfl : own = visit := Option.some.inj hfind
      have hnode : own.node = (page.scope, segments page.path) := by simpa using find?_some hown
      obtain ⟨parts, -, rfl⟩ := mem_map.mp (mem_of_find?_eq_some hown)
      have hparts : parts = segments page.path := congrArg Prod.snd hnode
      simp [Visit.isFolder, hparts]
    · have := find?_eq_none.mp hearly _ (hbelow other hother hother')
      simp [Visit.node, hother'.1] at this

/-! ## The whole tree -/

theorem pairwise_iff_split {α : Type} {R : α → α → Prop} {l : List α} :
    l.Pairwise R ↔ ∀ before a after, l = before ++ a :: after → ∀ b ∈ before, R b a := by
  constructor
  · rintro h before a after rfl b hb
    exact (pairwise_append.mp h).2.2 b hb a mem_cons_self
  · intro h
    induction l using List.reverseRecOn with
    | nil => exact Pairwise.nil
    | append_singleton l a ih =>
      refine pairwise_append.mpr ⟨ih fun before b after hl => ?_, pairwise_singleton _ _, fun b hb c hc => ?_⟩
      · exact h before b (after ++ [a]) (by rw [hl]; simp)
      · exact mem_singleton.mp hc ▸ h l a [] rfl b hb

section
variable {pages : List PageTreeSourceRow}

/-- What is known of the first visit of a row's node. -/
theorem Grown.own_row {tree : List PageTreeInsertRow} (h : Grown (pages.flatMap visitsOf) tree) (hpage : page ∈ pages) :
    ∃ row ∈ tree, row.identity = page.identity := by
  have hvisit : ((page, segments page.path) : Visit) ∈ pages.flatMap visitsOf :=
    mem_visits.mpr ⟨hpage, prefix_refl _, splitOn_ne_nil 47 _⟩
  obtain ⟨row, hrow, hnode⟩ := (h.rows (page.scope, segments page.path)).mpr ⟨_, hvisit, rfl⟩
  exact ⟨row, hrow, (identity_iff row page.scope page.path).mpr hnode⟩

/-- A row that names a page is the row of this page. -/
theorem Grown.named {tree : List PageTreeInsertRow} (h : Grown (pages.flatMap visitsOf) tree)
    (hids : (pages.map (·.id)).Nodup) (hpage : page ∈ pages) {row : PageTreeInsertRow}
    (hrow : row ∈ tree) (hnamed : row.pageId = some page.id) : row.identity = page.identity := by
  obtain ⟨visit, hfind, hid, -⟩ := h.first row hrow
  obtain ⟨hmem, hfront, -⟩ := mem_visits.mp (mem_of_find?_eq_some hfind)
  have hnode : visit.node = row.node := by simpa using find?_some hfind
  cases hfolder : visit.isFolder with
  | true =>
    rw [hnamed, hfolder] at hid
    cases hid
  | false =>
    rw [hnamed, hfolder] at hid
    have hsame : visit.1 = page := inj_on_of_nodup_map hids hmem hpage (Option.some.inj hid).symm
    refine (identity_iff row page.scope page.path).mpr ?_
    rw [← hnode, Visit.node, leaf_parts hfront hfolder, hsame]

theorem Grown.first_of {tree : List PageTreeInsertRow} (h : Grown (pages.flatMap visitsOf) tree)
    {row : PageTreeInsertRow} (hrow : row ∈ tree) (hidentity : row.identity = page.identity) :
    ∃ visit, (pages.flatMap visitsOf).find? (fun visit => visit.node = (page.scope, segments page.path)) = some visit
      ∧ row.pageId = (if visit.isFolder then none else some visit.1.id)
      ∧ (visit.isFolder = false → row.title = visit.1.title) := by
  have hnode := (identity_iff row page.scope page.path).mp hidentity
  obtain ⟨visit, hfind, hrest⟩ := h.first row hrow
  exact ⟨visit, by rw [hnode] at hfind; exact hfind, hrest⟩

/-- The leaf that a page's node is first visited as is the page itself. -/
theorem leaf_page (hidentities : (pages.map (·.identity)).Nodup) (hpage : page ∈ pages) {visit : Visit}
    (hfind : (pages.flatMap visitsOf).find? (fun visit => visit.node = (page.scope, segments page.path)) = some visit)
    (hleaf : visit.isFolder = false) : visit.1 = page := by
  obtain ⟨hmem, hfront, -⟩ := mem_visits.mp (mem_of_find?_eq_some hfind)
  have hnode : visit.node = (page.scope, segments page.path) := by simpa using find?_some hfind
  have hscope : visit.1.scope = page.scope := congrArg Prod.fst hnode
  have hpath := segments_inj ((leaf_parts hfront hleaf).symm.trans (congrArg Prod.snd hnode))
  exact inj_on_of_nodup_map hidentities hmem hpage (Prod.ext hscope hpath)

theorem faithful_of_ordered (hids : (pages.map (·.id)).Nodup) (hidentities : (pages.map (·.identity)).Nodup)
    (hslash : ∀ page ∈ pages, page.path.head? ≠ some 47)
    (hordered : pages.Pairwise fun earlier later => ¬ Below earlier later) :
    Faithful pages (replacePageTree pages) := by
  have hgrown := grown_pages hslash
  have hnodup : ((replacePageTree pages).map (·.identity)).Nodup := by
    have hnodes := hgrown.nodes
    have hmap : (replacePageTree pages).map (·.node)
        = ((replacePageTree pages).map (·.identity)).map fun identity => (identity.1, segments identity.2) := by
      rw [map_map]
      rfl
    rw [hmap] at hnodes
    exact Nodup.of_map _ hnodes
  refine ⟨?_, hnodup, fun page hpage => ?_, fun scope path => ?_, fun row hrow => ?_, fun row hrow => ?_⟩
  · rw [hgrown.ids]
    exact nodup_range'
  · obtain ⟨row, hrow, hidentity⟩ := hgrown.own_row hpage
    obtain ⟨visit, hfind, hid, htitle⟩ := hgrown.first_of hrow hidentity
    obtain ⟨before, after, rfl⟩ := append_of_mem hpage
    have hleaf := (first_leaf_iff hidentities hfind).mpr (pairwise_iff_split.mp hordered before page after rfl)
    have hpage' := leaf_page hidentities hpage hfind hleaf
    refine ⟨row, hrow, hidentity, hpage' ▸ htitle hleaf, fun other hother => ⟨fun hnamed => ?_, ?_⟩⟩
    · have hsame := (hgrown.named hids hpage hother hnamed).trans hidentity.symm
      exact inj_on_of_nodup_map hnodup hother hrow hsame
    · rintro rfl
      rw [hid, hleaf, hpage']
      rfl
  · have hrows := hgrown.rows (scope, segments path)
    have hsame : (∃ row ∈ replacePageTree pages, row.identity = (scope, path))
        ↔ ∃ row ∈ replacePageTree pages, row.node = (scope, segments path) :=
      exists_congr fun row => and_congr_right fun _ => identity_iff row scope path
    rw [hsame, hrows]
    constructor
    · rintro ⟨visit, hvisit, hnode⟩
      obtain ⟨hmem, hfront, -⟩ := mem_visits.mp hvisit
      have hparts : visit.2 = segments path := congrArg Prod.snd hnode
      exact ⟨visit.1, hmem, congrArg Prod.fst hnode, hparts ▸ hfront⟩
    · rintro ⟨page, hpage, rfl, hfront⟩
      exact ⟨(page, segments path), mem_visits.mpr ⟨hpage, hfront, splitOn_ne_nil 47 _⟩, rfl⟩
  · obtain ⟨hdepth, hparent, hancestors⟩ := hgrown.ancestry row hrow
    refine ⟨hdepth, hparent, forall₂_map_right_iff.mpr (hancestors.imp ?_)⟩
    rintro id parts ⟨above, habove, hid, hnode⟩
    have hscope : above.scope = row.scope := congrArg Prod.fst hnode
    have hparts : segments above.path = parts := congrArg Prod.snd hnode
    refine ⟨above, habove, hid, Prod.ext hscope ?_⟩
    exact (joined_segments above.path).symm.trans (congrArg joined hparts)
  · rw [hgrown.folders row hrow]
    constructor
    · rintro ⟨visit, hvisit, hnode, hfolder⟩
      obtain ⟨hmem, hfront, -⟩ := mem_visits.mp hvisit
      have hparts : visit.2 = segments row.path := congrArg Prod.snd hnode
      exact ⟨visit.1, hmem, congrArg Prod.fst hnode, hparts ▸ hfront, (folder_iff hfront hparts).mp hfolder⟩
    · rintro ⟨page, hpage, hscope, hfront, hne⟩
      exact ⟨(page, segments row.path), mem_visits.mpr ⟨hpage, hfront, splitOn_ne_nil 47 _⟩,
        Prod.ext hscope rfl, (folder_iff hfront rfl).mpr hne⟩

/-- The query gives the pages of a scope in an order of their paths. -/
def InQueryOrder (le : JsString → JsString → Prop) (pages : List PageTreeSourceRow) : Prop :=
  pages.Pairwise fun earlier later => earlier.scope = later.scope → le earlier.path later.path

/-- **The tree of pages.** The rows are faithful to the pages exactly if no path has a slash in front and no
page comes after a page below its path, in whatever order they are read; and none does in the order of the
query, where a path comes before those below it. -/
theorem replacePageTree_faithful (hids : (pages.map (·.id)).Nodup)
    (hidentities : (pages.map (·.identity)).Nodup) :
    (Faithful pages (replacePageTree pages)
      ↔ (∀ page ∈ pages, page.path.head? ≠ some 47) ∧ pages.Pairwise fun earlier later => ¬ Below earlier later)
    ∧ ∀ le : JsString → JsString → Prop, (∀ p q, le p q → le q p → p = q) →
        (∀ p q, segments p <+: segments q → le p q) → InQueryOrder le pages →
          pages.Pairwise fun earlier later => ¬ Below earlier later := by
  refine ⟨⟨fun h => ?_, fun ⟨hslash, hordered⟩ => faithful_of_ordered hids hidentities hslash hordered⟩,
    fun le hantisymm hstarts hquery => hquery.imp fun hle hbelow =>
      hbelow.2.2 (hantisymm _ _ (hstarts _ _ hbelow.2.1) (hle hbelow.1))⟩
  have hslash : ∀ page ∈ pages, page.path.head? ≠ some 47 := by
    intro page hpage
    obtain ⟨row, hrow, hidentity, -⟩ := h.own page hpage
    have hpath : row.path = page.path := congrArg Prod.snd hidentity
    exact hpath ▸ row_head pages row hrow
  refine ⟨hslash, pairwise_iff_split.mpr fun before page after hpages => ?_⟩
  subst hpages
  have hpage : page ∈ before ++ page :: after := by simp
  obtain ⟨row, hrow, hidentity, -, hnamed⟩ := h.own page hpage
  obtain ⟨visit, hfind, hid, -⟩ := (grown_pages hslash).first_of hrow hidentity
  refine (first_leaf_iff hidentities hfind).mp ?_
  have hself := (hnamed row hrow).mpr rfl
  by_contra hfolder
  rw [Bool.not_eq_false] at hfolder
  rw [hself, hfolder] at hid
  cases hid

end

/-! ## Two orders -/

def publicScope : Scope := ⟨.public, none, js "en"⟩

def pageAt (id : Nat) (path : JsString) : PageTreeSourceRow := ⟨id, path, path, publicScope⟩

theorem replacePageTree_faithful_example :
    Faithful [pageAt 1 (js "a"), pageAt 2 (js "a/b")] (replacePageTree [pageAt 1 (js "a"), pageAt 2 (js "a/b")]) := by
  refine (replacePageTree_faithful (by decide) (by decide)).1.mpr ⟨by decide, ?_⟩
  refine pairwise_pair.mpr fun hbelow => ?_
  exact absurd hbelow.2.1 (by decide)

/-- Read in this order, the second page is in no row. -/
theorem page_lost_behind_folder : ([pageAt 2 (js "a/b"), pageAt 1 (js "a")].map (·.id)).Nodup ∧
    ([pageAt 2 (js "a/b"), pageAt 1 (js "a")].map (·.identity)).Nodup ∧
    ¬ Faithful [pageAt 2 (js "a/b"), pageAt 1 (js "a")] (replacePageTree [pageAt 2 (js "a/b"), pageAt 1 (js "a")]) := by
  refine ⟨by decide, by decide, fun h => ?_⟩
  obtain ⟨row, hrow, -, -, hnamed⟩ := h.own (pageAt 1 (js "a")) (by simp)
  have hnone : ∀ row ∈ replacePageTree [pageAt 2 (js "a/b"), pageAt 1 (js "a")], row.pageId ≠ some 1 := by
    decide
  exact hnone row hrow ((hnamed row hrow).mpr rfl)

end TsEpistle.Pages.Tree
