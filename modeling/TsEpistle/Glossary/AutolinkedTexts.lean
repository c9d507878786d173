import TsEpistle.Glossary.AutolinkChoices

/-! The links of a page are those of the greedy choice, and leave its texts as they are. -/

namespace TsEpistle.Glossary.Autolinks
open Library List
open Discussions (characters slice)
open Pages (trim)

/-! ## Texts -/

theorem flatten_characters : ∀ text : JsString, (characters text).flatten = text
  | [] => rfl
  | [_] => rfl
  | unit :: next :: rest => by
      rw [characters]
      split
      · rw [flatten_cons, flatten_characters rest]
        rfl
      · rw [flatten_cons, flatten_characters (next :: rest)]
        rfl

theorem characters_ne_nil : ∀ text : JsString, ∀ character ∈ characters text, character ≠ []
  | [] => forall_mem_nil _
  | [_] => forall_mem_cons.mpr ⟨cons_ne_nil _ _, forall_mem_nil _⟩
  | unit :: next :: rest => by
      rw [characters]
      split
      · exact forall_mem_cons.mpr ⟨cons_ne_nil _ _, characters_ne_nil rest⟩
      · exact forall_mem_cons.mpr ⟨cons_ne_nil _ _, characters_ne_nil (next :: rest)⟩

variable {data : JsString}

section
variable {language : Language}

/-- Each unit of the normal form has its grapheme in the source. -/
structure Mapped (source : Normalized) (index stop : Nat) : Prop where
  starts : source.starts.length = source.text.length
  ends : source.ends.length = source.text.length
  ordered : ∀ i j start last : Nat, i ≤ j → source.starts[i]? = some start → source.ends[j]? = some last → start < last
  after : ∀ last ∈ source.ends, index < last
  within : ∀ last ∈ source.ends, last ≤ stop

theorem normalizedFrom_mapped (language : Language) (segments : List JsString)
    (hne : ∀ segment ∈ segments, segment ≠ []) (index : Nat) :
    Mapped (normalizedFrom language index segments) index (index + segments.flatten.length) := by
  induction segments generalizing index with
  | nil => exact ⟨rfl, rfl, fun i j start last _ hstart => (nomatch hstart), forall_mem_nil _, forall_mem_nil _⟩
  | cons segment rest ih =>
    obtain ⟨hsegment, hrest⟩ := forall_mem_cons.mp hne
    have hpositive := length_pos_of_ne_nil hsegment
    obtain ⟨hstarts, hends, hordered, hafter, hwithin⟩ := ih hrest (index + segment.length)
    rw [normalizedFrom, flatten_cons, length_append]
    refine ⟨?_, ?_, ?_, ?_, ?_⟩
    · rw [length_append, length_append, length_replicate, hstarts]
    · rw [length_append, length_append, length_replicate, hends]
    · intro i j start last hle hstart hlast
      dsimp only at hstart hlast
      rw [getElem?_append, length_replicate] at hstart hlast
      by_cases hi : i < (language.nfc segment).length
      · rw [if_pos hi, getElem?_replicate, if_pos hi] at hstart
        obtain rfl := Option.some.inj hstart
        by_cases hj : j < (language.nfc segment).length
        · rw [if_pos hj, getElem?_replicate, if_pos hj] at hlast
          have hsame := Option.some.inj hlast
          omega
        · rw [if_neg hj] at hlast
          have hlater := hafter last (mem_of_getElem? hlast)
          omega
      · have hj : ¬ j < (language.nfc segment).length := by omega
        rw [if_neg hi] at hstart
        rw [if_neg hj] at hlast
        exact hordered _ _ start last (by omega) hstart hlast
    · intro last hlast
      rcases mem_append.mp hlast with hlast | hlast
      · have hsame := eq_of_mem_replicate hlast
        omega
      · have hlater := hafter last hlast
        omega
    · intro last hlast
      rcases mem_append.mp hlast with hlast | hlast
      · have hsame := eq_of_mem_replicate hlast
        omega
      · have hlater := hwithin last hlast
        omega

variable (language) in
/-- Graphemes cut a text into pieces that are not empty. -/
def Segmented : Prop :=
  ∀ text, (language.graphemes text).flatten = text ∧ ∀ segment ∈ language.graphemes text, segment ≠ []

/-- A link covers some units of its node. -/
def Match.Within (link : Match) (data : JsString) : Prop := link.start < link.stop ∧ link.stop ≤ data.length

theorem candidate_within (hsegmented : Segmented language) {found : Found} (order : Nat) (term : GlossaryAutolinkTerm)
    (name : JsString) (hless : found.index < found.stop) (hstop : found.stop ≤ (normalized language data).text.length) :
    (candidateOf language order (normalized language data) term name found).link.Within data := by
  obtain ⟨hflatten, hne⟩ := hsegmented data
  obtain ⟨hstarts, hends, hordered, -, hwithin⟩ := normalizedFrom_mapped language _ hne 0
  rw [hflatten, Nat.zero_add] at hwithin
  have hstart := getElem?_eq_getElem (l := (normalized language data).starts) (i := found.index)
    (by rw [normalized, hstarts]; rw [normalized] at hstop; omega)
  have hlast := getElem?_eq_getElem (l := (normalized language data).ends) (i := found.stop - 1)
    (by rw [normalized, hends]; rw [normalized] at hstop; omega)
  rw [Match.Within, candidateOf]
  dsimp only
  rw [hstart, hlast]
  exact ⟨hordered _ _ _ _ (by omega) hstart hlast, hwithin _ (getElem_mem _)⟩

/-! ## Links of a page -/

/-- A search that finds places where the expression matches. -/
def Sound (search : Search) : Prop := ∀ taken text, search taken text ⊆ exhaustive taken text

theorem scanning_sound : Sound scanning := fun _ _ => (matchAll_sublist 0 0 _).subset

theorem exhaustive_sound : Sound exhaustive := fun _ _ => List.Subset.refl _

/-- What is known of a candidate: it covers units of its node, and is not explicit. -/
structure Fits (nodes : List TextNode) (candidate : Candidate) : Prop where
  node : ∃ node, nodes[candidate.order]? = some node ∧ candidate.link.Within node.data
  automatic : candidate.link.explicit = false
  label : candidate.link.label = none

theorem candidates_fit (hsegmented : Segmented language) {search : Search} (hsound : Sound search)
    {nodes : List TextNode} {terms : List GlossaryAutolinkTerm} {candidate : Candidate}
    (h : candidate ∈ candidates language search nodes terms) : Fits nodes candidate := by
  obtain ⟨group, hgroup, h⟩ := mem_flatten.mp h
  obtain ⟨⟨node, order⟩, hentry, rfl⟩ := mem_map.mp hgroup
  obtain ⟨term, -, h⟩ := mem_flatMap.mp h
  obtain ⟨name, -, h⟩ := mem_flatMap.mp h
  unfold candidatesOfName at h
  dsimp only at h
  split at h
  · cases h
  · obtain ⟨found, hfound, rfl⟩ := mem_map.mp (mem_filter.mp h).1
    have hplace := hsound _ _ (mem_filter.mp hfound).1
    have hbounds := everyMatch_within _ (fun _ _ => matchHere_prefix) (characters_ne_nil _) hplace
    rw [flatten_characters, Nat.zero_add] at hbounds
    refine ⟨⟨node, mem_zipIdx_iff_getElem?.mp hentry, ?_⟩, rfl, rfl⟩
    exact candidate_within hsegmented order term name hbounds.1 hbounds.2

theorem explicit_separate (data : JsString) :
    (explicitMatches language data).Pairwise fun left right => left.overlaps right = false := by
  have hseparate := matchAll_separate (fun text => (explicitHere language text).map Prod.fst)
    (fun _ _ => explicitHere_prefix) 0 0 (characters data)
  refine pairwise_map.mpr (hseparate.imp fun {left right} hle => ?_)
  have hstop : (explicitMatch language left).stop = left.stop := by
    unfold explicitMatch
    split <;> rfl
  have hstart : (explicitMatch language right).start = right.index := by
    unfold explicitMatch
    split <;> rfl
  rw [Match.overlaps, hstop, hstart, Bool.and_eq_false_iff]
  exact .inr (decide_eq_false (by omega))

theorem explicit_within {link : Match} (h : link ∈ explicitMatches language data) :
    link.Within data ∧ link.explicit = true := by
  obtain ⟨found, hfound, rfl⟩ := mem_map.mp h
  have hbounds := everyMatch_within (fun text => (explicitHere language text).map Prod.fst)
    (fun _ _ => explicitHere_prefix) (characters_ne_nil data) ((matchAll_sublist 0 0 _).subset hfound)
  rw [flatten_characters, Nat.zero_add] at hbounds
  unfold explicitMatch
  split
  · exact ⟨hbounds, rfl⟩
  · exact ⟨hbounds, rfl⟩

end

section
variable {language : Language} {nodes : List TextNode} {terms : List GlossaryAutolinkTerm}

theorem at_start (i : Nat) :
    (⟨[], nodes.map fun node => explicitMatches language node.data⟩ : Linked).at i =
      (nodes[i]?.map fun node => explicitMatches language node.data).getD [] := by
  rw [Linked.at, getElem?_map]

theorem linksOf_disjoint (search : Search) : Disjoint (linksOf language search nodes terms) := by
  refine choices_keep (fun i => ?_) fun state candidate _ h => h.choose candidate
  rw [at_start]
  cases nodes[i]? with
  | none => exact .nil
  | some node => exact explicit_separate node.data

theorem linksOf_once (search : Search) (id : Nat) :
    automaticCount id (linksOf language search nodes terms).links ≤ 1 := by
  have hstart : Once ⟨[], nodes.map fun node => explicitMatches language node.data⟩ := by
    intro id
    have hnone : automaticCount id (nodes.map fun node => explicitMatches language node.data) = 0 := by
      rw [automaticCount, countP_eq_zero]
      intro link hlink
      obtain ⟨links, hlinks, hlink⟩ := mem_flatten.mp hlink
      obtain ⟨node, -, rfl⟩ := mem_map.mp hlinks
      rw [(explicit_within hlink).2]
      exact Bool.false_ne_true
    rw [hnone]
    exact Nat.zero_le _
  have honce : Once (linksOf language search nodes terms) :=
    choices_keep hstart fun state candidate _ h => h.choose candidate
  refine (honce id).trans ?_
  split
  · exact le_refl _
  · exact Nat.zero_le _

/-- The links of a node cover units of it, and only explicit ones have a label. -/
def Shown (nodes : List TextNode) (state : Linked) : Prop :=
  ∀ i node, nodes[i]? = some node → ∀ link ∈ state.at i,
    link.Within node.data ∧ (link.explicit = true ∨ link.label = none)

theorem linksOf_fit (hsegmented : Segmented language) {search : Search} (hsound : Sound search) :
    Shown nodes (linksOf language search nodes terms) ∧ Backed nodes.length (linksOf language search nodes terms) := by
  refine choices_keep (P := fun state => Shown nodes state ∧ Backed nodes.length state) ⟨?_, ?_, forall_mem_nil _⟩ ?_
  · intro i node hnode link hlink
    rw [at_start, hnode] at hlink
    obtain ⟨hwithin, hexplicit⟩ := explicit_within hlink
    exact ⟨hwithin, .inl hexplicit⟩
  · exact length_map _
  · rintro state candidate hcandidate ⟨hshown, hbacked⟩
    rw [mem_insertionSort] at hcandidate
    obtain ⟨⟨owner, howner, hwithin⟩, hautomatic, hlabel⟩ := candidates_fit hsegmented hsound hcandidate
    obtain ⟨horder, -⟩ := List.getElem?_eq_some_iff.mp howner
    refine ⟨fun i node hnode link hlink => ?_, hbacked.choose horder hautomatic⟩
    by_cases hsame : i = candidate.order
    · subst hsame
      rcases at_choose state candidate candidate.order with hkept | ⟨hadded, -⟩
      · rw [hkept] at hlink
        exact hshown _ node hnode link hlink
      · rw [hadded] at hlink
        rcases mem_append.mp hlink with hlink | hlink
        · exact hshown _ node hnode link hlink
        · obtain rfl := mem_singleton.mp hlink
          obtain rfl := Option.some.inj (hnode.symm.trans howner)
          exact ⟨hwithin, .inr hlabel⟩
    · have hother : (choose state candidate).at i = state.at i := by
        unfold Autolinks.choose
        split
        · rfl
        · rw [Linked.at, getElem?_modify_append, if_neg fun hboth => hsame hboth.1.symm]
          rfl
      rw [hother] at hlink
      exact hshown i node hnode link hlink

/-- A candidate of the search is covered: its term is linked, or another link overlaps it. -/
theorem linksOf_cover (hsegmented : Segmented language) {search : Search} (hsound : Sound search)
    {candidate : Candidate} (h : candidate ∈ candidates language search nodes terms) :
    (∃ i, ∃ link ∈ (linksOf language search nodes terms).at i, link.id = candidate.link.id ∧ link.explicit = false) ∨
    ∃ link ∈ (linksOf language search nodes terms).at candidate.order, candidate.link.overlaps link = true := by
  have hmem := (mem_insertionSort Candidate.le).mpr h
  rcases choices_cover hmem ⟨[], nodes.map fun node => explicitMatches language node.data⟩ with hused | hcovered
  · exact .inl ((linksOf_fit hsegmented hsound).2.2 _ hused)
  · exact .inr hcovered

variable (language) in
/-- What the choice asks of a place: it stands at the bounds of words, and no explicit link overlaps it. -/
def eligible (node : TextNode) (order : Nat) (term : GlossaryAutolinkTerm) (name : JsString) (found : Found) : Bool :=
  isBounded language node (normalized language node.data).text found
    && !(explicitMatches language node.data).any
      (candidateOf language order (normalized language node.data) term name found).link.overlaps

theorem candidatesOfName_eq (search : Search) (order : Nat) (node : TextNode) (term : GlossaryAutolinkTerm)
    (name : JsString) :
    candidatesOfName language search order node term name =
      if trim name = [] then []
      else ((search (matchHere language term.caseSensitive (namePattern language name))
        (characters (normalized language node.data).text)).filter (eligible language node order term name)).map
          (candidateOf language order (normalized language node.data) term name) := by
  unfold candidatesOfName
  dsimp only
  split
  · rfl
  · rw [filter_map, filter_filter]
    congr 1
    exact filter_congr fun found _ => Bool.and_comm _ _

variable (language nodes terms) in
/-- No eligible place of a name overlaps an earlier place of the name. -/
def Clear : Prop :=
  ∀ entry ∈ nodes.zipIdx, ∀ term ∈ terms, ∀ name ∈ term.term :: term.aliases,
    ∀ found ∈ exhaustive (matchHere language term.caseSensitive (namePattern language name))
        (characters (normalized language entry.1.data).text),
      eligible language entry.1 entry.2 term name found = true →
        ∀ earlier ∈ exhaustive (matchHere language term.caseSensitive (namePattern language name))
            (characters (normalized language entry.1.data).text),
          earlier.index < found.index → earlier.stop ≤ found.index

theorem candidates_eq (h : Clear language nodes terms) :
    candidates language scanning nodes terms = candidates language exhaustive nodes terms := by
  unfold candidates
  congr 1
  refine map_congr_left fun entry hentry => ?_
  refine flatMap_congr fun term hterm => flatMap_congr fun name hname => ?_
  rw [candidatesOfName_eq, candidatesOfName_eq]
  split
  · rfl
  · have hne := characters_ne_nil (normalized language entry.1.data).text
    rw [scanning, exhaustive, filter_eq_of_sublist (matchAll_sublist 0 0 _) (everyMatch_nodup 0 hne)]
    intro found hfound heligible
    refine mem_matchAll (fun _ _ => matchHere_prefix) hne hfound ?_
      (h entry hentry term hterm name hname found hfound heligible)
    rw [take_zero, flatten_nil, length_nil]
    exact Nat.zero_le _

/-! ## Pieces -/

def Piece.source (data : JsString) : Piece → JsString
  | .text shown => shown
  | .anchor link _ => slice data link.start link.stop

theorem slice_append_drop {start stop : Nat} (hle : start ≤ stop) (hstop : stop ≤ data.length) :
    slice data start stop ++ data.drop stop = data.drop start := by
  conv_rhs => rw [← List.take_append_drop stop data]
  rw [slice, drop_append_of_le_length]
  rw [length_take]
  omega

theorem pieces_source {links : List Match} {position : Nat} (hposition : ∀ link ∈ links, position ≤ link.start)
    (hwithin : ∀ link ∈ links, link.Within data) (hordered : links.Pairwise fun left right => left.stop ≤ right.start) :
    ((piecesFrom data position links).map (Piece.source data)).flatten = data.drop position := by
  induction links generalizing position with
  | nil => exact append_nil _
  | cons link rest ih =>
    obtain ⟨hbehind, hordered⟩ := pairwise_cons.mp hordered
    obtain ⟨hlink, hrest⟩ := forall_mem_cons.mp hwithin
    obtain ⟨hless, hstop⟩ := hlink
    have hfirst := hposition link mem_cons_self
    rw [piecesFrom, map_cons, map_cons, flatten_cons, flatten_cons, ih hbehind hrest hordered,
      Piece.source, Piece.source, slice_append_drop (Nat.le_of_lt hless) hstop, slice_append_drop hfirst (by omega)]

theorem pieces_shown {links : List Match} (position : Nat)
    (hlabel : ∀ link ∈ links, link.explicit = true ∨ link.label = none) : ∀ piece ∈ piecesFrom data position links,
    piece.shown = piece.source data ∨ ∃ link shown, piece = .anchor link shown ∧ link.explicit = true := by
  induction links generalizing position with
  | nil => exact forall_mem_cons.mpr ⟨.inl rfl, forall_mem_nil _⟩
  | cons link rest ih =>
    obtain ⟨hlink, hrest⟩ := forall_mem_cons.mp hlabel
    rw [piecesFrom]
    refine forall_mem_cons.mpr ⟨.inl rfl, forall_mem_cons.mpr ⟨?_, ih link.stop hrest⟩⟩
    rcases hlink with hexplicit | hnone
    · exact .inr ⟨link, _, rfl, hexplicit⟩
    · rw [hnone]
      exact .inl rfl

/-- Links that do not overlap, put in the order of their starts, stand one behind the other. -/
theorem sorted_ordered {links : List Match} (hwithin : ∀ link ∈ links, link.Within data)
    (hdisjoint : links.Pairwise fun left right => left.overlaps right = false) :
    (links.insertionSort fun left right => left.start ≤ right.start).Pairwise fun left right =>
      left.stop ≤ right.start := by
  have hperm := perm_insertionSort (fun left right : Match => left.start ≤ right.start) links
  have hsorted := pairwise_insertionSort (fun left right : Match => left.start ≤ right.start) links
  have hfree := (hperm.symm.pairwise_iff fun {left right} h => by rw [overlaps_comm]; exact h).mp hdisjoint
  refine (hsorted.and hfree).imp_of_mem fun {left right} _ hright hboth => ?_
  obtain ⟨hless, -⟩ := hwithin right (hperm.mem_iff.mp hright)
  obtain ⟨hle, hfalse⟩ := hboth
  rw [Match.overlaps, Bool.and_eq_false_iff, decide_eq_false_iff_not, decide_eq_false_iff_not] at hfalse
  rcases hfalse with hfalse | hfalse
  · omega
  · omega

def Decorated.pieces : Decorated → List Piece
  | .plain node => [.text node.data]
  | .wrapper pieces _ => pieces

/-- The text of a node stays, but for the labels of its explicit links. -/
structure Faithful (data : JsString) (pieces : List Piece) : Prop where
  source : (pieces.map (Piece.source data)).flatten = data
  shown : ∀ piece ∈ pieces,
    piece.shown = piece.source data ∨ ∃ link shown, piece = .anchor link shown ∧ link.explicit = true

theorem decorate_faithful {node : TextNode} {links : List Match}
    (hlinks : ∀ link ∈ links, link.Within node.data ∧ (link.explicit = true ∨ link.label = none))
    (hdisjoint : links.Pairwise fun left right => left.overlaps right = false) :
    Faithful node.data (decorate node links).pieces := by
  unfold decorate
  split
  · exact ⟨append_nil _, forall_mem_cons.mpr ⟨.inl rfl, forall_mem_nil _⟩⟩
  · have hsorted : ∀ link ∈ links.insertionSort (fun left right => left.start ≤ right.start), link ∈ links :=
      fun link hlink => (mem_insertionSort _).mp hlink
    refine ⟨?_, pieces_shown 0 fun link hlink => (hlinks link (hsorted link hlink)).2⟩
    exact pieces_source (fun link _ => Nat.zero_le _) (fun link hlink => (hlinks link (hsorted link hlink)).1)
      (sorted_ordered (fun link hlink => (hlinks link hlink).1) hdisjoint)

theorem cleanup_decorate (node : TextNode) (links : List Match) : (decorate node links).cleanup = node := by
  unfold decorate
  split
  · rfl
  · rfl

theorem cleanup_all {nodes : List TextNode} {links : List (List Match)} (hlength : links.length = nodes.length) :
    (List.zipWith decorate nodes links).map Decorated.cleanup = nodes := by
  induction nodes generalizing links with
  | nil => rfl
  | cons node nodes ih =>
    cases links with
    | nil => cases hlength
    | cons first links =>
      rw [zipWith_cons_cons, map_cons, cleanup_decorate, ih (Nat.succ.inj hlength)]

/-- Candidates are tried in this order. -/
theorem candidates_sorted (tried : List Candidate) : (tried.insertionSort Candidate.le).Pairwise Candidate.le := by
  have htotal : Std.Total Candidate.le := ⟨fun left right => by
    unfold Candidate.le
    omega⟩
  have htrans : IsTrans Candidate Candidate.le := ⟨fun left middle right hleft hright => by
    unfold Candidate.le at hleft hright ⊢
    omega⟩
  exact pairwise_insertionSort _ _

end

/-- A language of single units: letters and digits make words, and capitals are folded. -/
def plainLanguage : Language where
  graphemes := fun text => text.map fun unit => [unit]
  nfc := id
  fold := fun character => character.map fun unit => if 65 ≤ unit ∧ unit ≤ 90 then unit + 32 else unit
  isWord := fun character =>
    character.any fun unit => (48 ≤ unit && unit ≤ 57) || (65 ≤ unit && unit ≤ 90) || (97 ≤ unit && unit ≤ 122)
      || unit = 95

theorem plainLanguage_segmented : Segmented plainLanguage := by
  intro text
  refine ⟨?_, fun segment hsegment => ?_⟩
  · show (text.map fun unit => [unit]).flatten = text
    induction text with
    | nil => rfl
    | cons unit text ih =>
      rw [map_cons, flatten_cons, ih]
      rfl
  · obtain ⟨unit, -, rfl⟩ := mem_map.mp hsegment
    exact cons_ne_nil _ _

def seen : List TextNode := [⟨js "see a a now", [], []⟩]

def doubled : List GlossaryAutolinkTerm := [⟨1, js "a a", [], false⟩]

end TsEpistle.Glossary.Autolinks
