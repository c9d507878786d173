import TsEpistle.Glossary.Terms

/-! The tables of the glossary stay a graph: names belong to their terms, relations join terms of one locale, and a
revision tells every change of a term or of its relations. -/

namespace TsEpistle.Glossary
open Library Library.Checked Json List Function
open Okf (property)

/-! ## Inputs -/

theorem mapM_length {ε α β : Type} {f : α → Except ε β} {items : List α} {results : List β}
    (h : items.mapM f = .ok results) : results.length = items.length := by
  induction items generalizing results with
  | nil =>
    cases h
    rfl
  | cons item items ih =>
    rw [mapM_cons] at h
    obtain ⟨result, -, h⟩ := bind_ok h
    obtain ⟨rest, hrest, h⟩ := bind_ok h
    obtain rfl := Except.ok.inj h
    rw [length_cons, length_cons, ih hrest]

section
variable {ν : Type} {platform : Platform ν}

theorem array_length {value : Option (JsonValue ν)} {maximum : Nat} {items : List (JsonValue ν)}
    (h : array value maximum = .ok items) : items.length ≤ maximum := by
  unfold array at h
  split at h
  · obtain ⟨hlength, h⟩ := guard_ok h
    obtain rfl := Except.ok.inj h
    omega
  · cases h

theorem parseInput_related {raw : JsonValue ν} {input : GlossaryTermInput} (h : parseInput platform raw = .ok input) :
    input.relatedIds.Nodup ∧ input.relatedIds.length ≤ RELATED_LIMIT := by
  cases raw with
  | null | boolean | number | string | array => cases h
  | object value =>
    rw [parseInput] at h
    obtain ⟨term, -, h⟩ := bind_ok h
    obtain ⟨items, -, h⟩ := bind_ok h
    obtain ⟨aliases, -, h⟩ := bind_ok h
    obtain ⟨-, h⟩ := guard_ok h
    obtain ⟨items, -, h⟩ := bind_ok h
    obtain ⟨references, -, h⟩ := bind_ok h
    obtain ⟨related, hrelated, h⟩ := bind_ok h
    obtain ⟨relatedIds, hids, h⟩ := bind_ok h
    obtain ⟨hnodup, h⟩ := guard_ok h
    obtain ⟨-, h⟩ := guard_ok h
    obtain ⟨locale, -, h⟩ := bind_ok h
    obtain ⟨expansion, -, h⟩ := bind_ok h
    obtain ⟨definition, -, h⟩ := bind_ok h
    obtain ⟨category, -, h⟩ := bind_ok h
    obtain ⟨label, -, h⟩ := bind_ok h
    obtain ⟨page, -, h⟩ := bind_ok h
    obtain rfl := Except.ok.inj h
    have hlength := array_length hrelated
    rw [← mapM_length hids] at hlength
    exact ⟨not_not.mp hnodup, hlength⟩

end

/-! ## Rows -/

@[simp] theorem TermRow.increment_id (ids : List Nat) (now : Int) (term : TermRow) :
    (term.increment ids now).id = term.id := by
  unfold TermRow.increment
  split <;> rfl

@[simp] theorem TermRow.increment_fields (ids : List Nat) (now : Int) (term : TermRow) :
    (term.increment ids now).fields = term.fields := by
  unfold TermRow.increment
  split <;> rfl

theorem TermRow.increment_le (ids : List Nat) (now : Int) (term : TermRow) :
    term.revision ≤ (term.increment ids now).revision := by
  unfold TermRow.increment
  split
  · exact Nat.le_succ _
  · exact Nat.le_refl _

theorem TermRow.increment_lt {ids : List Nat} {term : TermRow} (h : term.id ∈ ids) (now : Int) :
    term.revision < (term.increment ids now).revision := by
  rw [TermRow.increment, if_pos (contains_iff_mem.mpr h)]
  exact Nat.lt_succ_self _

theorem incrementRevisions_ok {ids : List Nat} {now : Int} {terms terms' : List TermRow}
    (h : incrementRevisions ids now terms = .ok terms') : terms' = terms.map (TermRow.increment ids now) :=
  (Except.ok.inj (guard_ok h).2).symm

theorem termById_some {id : Nat} {terms : List TermRow} {term : TermRow} (h : termById id terms = some term) :
    term ∈ terms ∧ term.id = id :=
  ⟨mem_of_find?_eq_some h, by simpa using find?_some h⟩

theorem referenced_iff {terms : List TermRow} {id : Nat} {locale : JsString} :
    referenced terms id locale = true ↔ ∃ term ∈ terms, term.id = id ∧ term.fields.locale = locale := by
  simp [referenced]

/-! ## Relations -/

theorem joins_iff {id : Nat} {relation : RelationRow} :
    relation.joins id = true ↔ relation.leftId = id ∨ relation.rightId = id := by
  simp [RelationRow.joins]

/-- Two terms are related. -/
def Related (db : Database) (id peer : Nat) : Prop :=
  ∃ relation ∈ db.relations,
    (relation.leftId = id ∧ relation.rightId = peer) ∨ (relation.leftId = peer ∧ relation.rightId = id)

theorem Related.symm {db : Database} {id peer : Nat} (h : Related db id peer) : Related db peer id := by
  obtain ⟨relation, hmem, h⟩ := h
  exact ⟨relation, hmem, h.symm⟩

theorem mem_peerIds {db : Database} {id peer : Nat} :
    peer ∈ peerIds (relationQuery id db.relations) id ↔ Related db id peer := by
  rw [peerIds, mem_insertionSort, mem_map]
  constructor
  · rintro ⟨relation, hrelation, rfl⟩
    obtain ⟨hmem, hjoins⟩ := mem_filter.mp hrelation
    refine ⟨relation, hmem, ?_⟩
    by_cases hleft : relation.leftId = id
    · exact .inl ⟨hleft, by rw [RelationRow.peer, if_pos hleft]⟩
    · refine .inr ⟨by rw [RelationRow.peer, if_neg hleft], ?_⟩
      exact (joins_iff.mp hjoins).resolve_left hleft
  · rintro ⟨relation, hmem, hends⟩
    refine ⟨relation, mem_filter.mpr ⟨hmem, joins_iff.mpr ?_⟩, ?_⟩
    · rcases hends with hends | hends
      · exact .inl hends.1
      · exact .inr hends.2
    · rcases hends with ⟨hleft, hright⟩ | ⟨hleft, hright⟩
      · rw [RelationRow.peer, if_pos hleft, hright]
      · by_cases hsame : relation.leftId = id
        · rw [RelationRow.peer, if_pos hsame, hright, ← hsame, hleft]
        · rw [RelationRow.peer, if_neg hsame, hleft]

theorem relationRow_ends (locale : JsString) (id peer : Nat) :
    ((relationRow locale id peer).leftId = id ∧ (relationRow locale id peer).rightId = peer)
      ∨ ((relationRow locale id peer).leftId = peer ∧ (relationRow locale id peer).rightId = id) := by
  rcases Nat.le_total id peer with hle | hle
  · exact .inl ⟨Nat.min_eq_left hle, Nat.max_eq_right hle⟩
  · exact .inr ⟨Nat.min_eq_right hle, Nat.max_eq_left hle⟩

theorem relationRow_joins {locale : JsString} {id peer other : Nat} :
    (relationRow locale id peer).joins other = true ↔ other = id ∨ other = peer := by
  rw [joins_iff]
  rcases relationRow_ends locale id peer with ⟨hleft, hright⟩ | ⟨hleft, hright⟩
  · rw [hleft, hright]
    omega
  · rw [hleft, hright]
    omega

/-- The relations after those of one term have been written anew. -/
def rewritten (locale : JsString) (id : Nat) (relatedIds : List Nat) (relations : List RelationRow) :
    List RelationRow :=
  relations.filter (fun relation => !relation.joins id) ++ relatedIds.map (relationRow locale id)

/-- The term is related to those it was saved with, and the relations between others stay. -/
theorem related_rewritten {db db' : Database} {locale : JsString} {id : Nat} {relatedIds : List Nat}
    (h : db'.relations = rewritten locale id relatedIds db.relations) (first second : Nat) :
    Related db' first second ↔ (first ≠ id ∧ second ≠ id ∧ Related db first second)
      ∨ (first = id ∧ second ∈ relatedIds) ∨ (second = id ∧ first ∈ relatedIds) := by
  unfold Related
  rw [h, rewritten]
  constructor
  · rintro ⟨relation, hmem, hends⟩
    rcases mem_append.mp hmem with hmem | hmem
    · obtain ⟨hmem, hjoins⟩ := mem_filter.mp hmem
      rw [Bool.not_eq_true', ← Bool.not_eq_true, joins_iff, not_or] at hjoins
      refine .inl ⟨?_, ?_, relation, hmem, hends⟩
      · rcases hends with hends | hends
        · exact hends.1 ▸ hjoins.1
        · exact hends.2 ▸ hjoins.2
      · rcases hends with hends | hends
        · exact hends.2 ▸ hjoins.2
        · exact hends.1 ▸ hjoins.1
    · obtain ⟨peer, hpeer, rfl⟩ := mem_map.mp hmem
      refine .inr ?_
      rcases relationRow_ends locale id peer with ⟨hleft, hright⟩ | ⟨hleft, hright⟩
      · rw [hleft, hright] at hends
        rcases hends with ⟨rfl, rfl⟩ | ⟨rfl, rfl⟩
        · exact .inl ⟨rfl, hpeer⟩
        · exact .inr ⟨rfl, hpeer⟩
      · rw [hleft, hright] at hends
        rcases hends with ⟨rfl, rfl⟩ | ⟨rfl, rfl⟩
        · exact .inr ⟨rfl, hpeer⟩
        · exact .inl ⟨rfl, hpeer⟩
  · rintro (⟨hfirst, hsecond, relation, hmem, hends⟩ | ⟨rfl, hpeer⟩ | ⟨rfl, hpeer⟩)
    · refine ⟨relation, mem_append_left _ (mem_filter.mpr ⟨hmem, ?_⟩), hends⟩
      rw [Bool.not_eq_true', ← Bool.not_eq_true, joins_iff]
      rcases hends with ⟨hleft, hright⟩ | ⟨hleft, hright⟩
      · rw [hleft, hright]
        exact not_or.mpr ⟨hfirst, hsecond⟩
      · rw [hleft, hright]
        exact not_or.mpr ⟨hsecond, hfirst⟩
    · exact ⟨_, mem_append_right _ (mem_map_of_mem hpeer), relationRow_ends locale first second⟩
    · exact ⟨_, mem_append_right _ (mem_map_of_mem hpeer), (relationRow_ends locale second first).symm⟩

/-- The peers whose relations change are those whose revision is raised. -/
theorem mem_changedPeers {db : Database} {id peer : Nat} {relatedIds : List Nat} :
    peer ∈ changedPeers (peerIds (relationQuery id db.relations) id) relatedIds
      ↔ ¬ (Related db id peer ↔ peer ∈ relatedIds) := by
  simp only [changedPeers, mem_append, mem_filter, mem_peerIds, Bool.not_eq_true', contains_eq_mem,
    decide_eq_false_iff_not]
  tauto

/-- The limit is kept by the term itself, by its new peers, which are checked, and by its old ones. -/
theorem rewritten_limit {db : Database} {locale : JsString} {id : Nat} {relatedIds : List Nat}
    (hnodup : relatedIds.Nodup) (hlength : relatedIds.length ≤ RELATED_LIMIT)
    (hlimit : ∀ other, (relationQuery other db.relations).length ≤ RELATED_LIMIT)
    (hfree : ∀ peer ∈ relatedIds, ¬ Related db id peer → (relationQuery peer db.relations).length < RELATED_LIMIT)
    (other : Nat) : (relationQuery other (rewritten locale id relatedIds db.relations)).length ≤ RELATED_LIMIT := by
  rw [relationQuery, rewritten, filter_append, length_append, filter_filter]
  by_cases hother : other = id
  · have hnone : db.relations.filter (fun relation => relation.joins other && !relation.joins id) = [] := by
      rw [filter_eq_nil_iff, hother]
      simp
    have hmap := length_filter_le (RelationRow.joins other) (relatedIds.map (relationRow locale id))
    rw [length_map] at hmap
    rw [hnone, length_nil]
    omega
  · have hnew : ((relatedIds.map (relationRow locale id)).filter (RelationRow.joins other)).length =
        relatedIds.count other := by
      rw [filter_map, length_map, List.count, countP_eq_length_filter]
      congr 2
      funext peer
      rw [comp_apply, Bool.eq_iff_iff, relationRow_joins, or_iff_right hother, beq_iff_eq]
      exact eq_comm
    have hold : db.relations.filter (fun relation => relation.joins other && !relation.joins id) =
        (relationQuery other db.relations).filter fun relation => !relation.joins id := by
      rw [relationQuery, filter_filter]
      exact filter_congr fun relation _ => Bool.and_comm _ _
    have hle := length_filter_le (fun relation => !relation.joins id) (relationQuery other db.relations)
    rw [hnew, hold]
    by_cases hmem : other ∈ relatedIds
    · rw [count_eq_one_of_mem hnodup hmem]
      by_cases hrelated : Related db id other
      · obtain ⟨relation, hrelation, hends⟩ := hrelated
        have hjoins : relation.joins other = true ∧ relation.joins id = true := by
          rw [joins_iff, joins_iff]
          omega
        have hlt : ((relationQuery other db.relations).filter fun relation => !relation.joins id).length <
            (relationQuery other db.relations).length :=
          length_filter_lt_length_iff_exists.mpr
            ⟨relation, mem_filter.mpr ⟨hrelation, hjoins.1⟩, by simp [hjoins.2]⟩
        have hbound := hlimit other
        omega
      · have hbound := hfree other hmem hrelated
        omega
    · rw [count_eq_zero_of_not_mem hmem]
      have hbound := hlimit other
      omega

/-! ## What a save writes -/

/-- The update of a term that is there, or a new one. -/
inductive Written (newId : Nat) (now : Int) (fields : TermFields) (terms : List TermRow) : Nat → List TermRow → Prop
  | update {previous : TermRow} (hmem : previous ∈ terms) (hlocale : previous.fields.locale = fields.locale) :
      Written newId now fields terms previous.id (terms.map (previous.rewrite fields now))
  | create : Written newId now fields terms newId (terms ++ [⟨newId, fields, 1, now, now⟩])

@[simp] theorem TermRow.rewrite_id (previous : TermRow) (fields : TermFields) (now : Int) (term : TermRow) :
    (previous.rewrite fields now term).id = term.id := by
  unfold TermRow.rewrite
  split <;> rfl

theorem TermRow.rewrite_other {previous term : TermRow} (h : term.id ≠ previous.id) (fields : TermFields) (now : Int) :
    previous.rewrite fields now term = term := by
  rw [TermRow.rewrite, if_neg fun hsame => h hsame.1]

theorem TermRow.rewrite_self (previous : TermRow) (fields : TermFields) (now : Int) :
    (previous.rewrite fields now previous).fields = fields
      ∧ (previous.rewrite fields now previous).revision = previous.revision + 1 := by
  rw [TermRow.rewrite, if_pos ⟨rfl, rfl⟩]
  exact ⟨rfl, rfl⟩

namespace Written
variable {newId : Nat} {now : Int} {fields : TermFields} {terms terms' : List TermRow} {savedId : Nat}

theorem ids (h : Written newId now fields terms savedId terms') (hids : (terms.map TermRow.id).Nodup)
    (hnew : ∀ term ∈ terms, term.id ≠ newId) : (terms'.map TermRow.id).Nodup := by
  cases h with
  | update =>
    rw [map_map]
    exact (map_congr_left fun term _ => TermRow.rewrite_id _ fields now term).symm ▸ hids
  | create =>
    rw [map_append]
    refine Nodup.append hids (nodup_singleton _) fun id hmem hmem' => ?_
    obtain ⟨term, hterm, rfl⟩ := mem_map.mp hmem
    exact hnew term hterm (mem_singleton.mp hmem')

/-- Every other term is one that was there. -/
theorem rows (h : Written newId now fields terms savedId terms') (hids : (terms.map TermRow.id).Nodup)
    (hnew : ∀ term ∈ terms, term.id ≠ newId) {term' : TermRow} (hterm' : term' ∈ terms') :
    (term'.id = savedId ∧ term'.fields = fields) ∨ (term'.id ≠ savedId ∧ term' ∈ terms) := by
  cases h with
  | @update previous hmem hlocale =>
    obtain ⟨term, hterm, rfl⟩ := mem_map.mp hterm'
    by_cases hsame : term.id = previous.id
    · obtain rfl := inj_on_of_nodup_map hids hterm hmem hsame
      exact .inl ⟨TermRow.rewrite_id _ _ _ _, (TermRow.rewrite_self _ _ _).1⟩
    · rw [TermRow.rewrite_other hsame]
      exact .inr ⟨hsame, hterm⟩
  | create =>
    rcases mem_append.mp hterm' with hterm | hterm
    · exact .inr ⟨hnew _ hterm, hterm⟩
    · obtain rfl := mem_singleton.mp hterm
      exact .inl ⟨rfl, rfl⟩

theorem saved (h : Written newId now fields terms savedId terms') : ∃ term' ∈ terms', term'.id = savedId := by
  cases h with
  | update hmem => exact ⟨_, mem_map_of_mem hmem, TermRow.rewrite_id _ _ _ _⟩
  | create => exact ⟨_, mem_append_right _ mem_cons_self, rfl⟩

/-- The terms that were there keep their locale. -/
theorem referenced (h : Written newId now fields terms savedId terms') (hids : (terms.map TermRow.id).Nodup) {id : Nat}
    {locale : JsString} (hreferenced : referenced terms id locale = true) : referenced terms' id locale = true := by
  rw [referenced_iff] at hreferenced ⊢
  obtain ⟨term, hterm, hid, hlocale⟩ := hreferenced
  cases h with
  | @update previous hmem hsame =>
    refine ⟨_, mem_map_of_mem hterm, by rw [TermRow.rewrite_id, hid], ?_⟩
    by_cases heq : term.id = previous.id
    · obtain rfl := inj_on_of_nodup_map hids hterm hmem heq
      rw [(TermRow.rewrite_self _ _ _).1, ← hsame, hlocale]
    · rw [TermRow.rewrite_other heq, hlocale]
  | create => exact ⟨term, mem_append_left _ hterm, hid, hlocale⟩

/-- The revision of the term that is saved grows. -/
theorem revision (h : Written newId now fields terms savedId terms') (hids : (terms.map TermRow.id).Nodup)
    (hnew : ∀ term ∈ terms, term.id ≠ newId) {term term' : TermRow} (hterm : term ∈ terms) (hterm' : term' ∈ terms')
    (hid : term'.id = term.id) :
    (term.id = savedId ∧ term.revision < term'.revision) ∨ (term.id ≠ savedId ∧ term' = term) := by
  cases h with
  | @update previous hmem hlocale =>
    obtain ⟨before, hbefore, rfl⟩ := mem_map.mp hterm'
    rw [TermRow.rewrite_id] at hid
    obtain rfl := inj_on_of_nodup_map hids hbefore hterm hid
    by_cases hsame : before.id = previous.id
    · obtain rfl := inj_on_of_nodup_map hids hbefore hmem hsame
      refine .inl ⟨rfl, ?_⟩
      rw [(TermRow.rewrite_self _ _ _).2]
      exact Nat.lt_succ_self _
    · exact .inr ⟨hsame, TermRow.rewrite_other hsame _ _⟩
  | create =>
    rcases mem_append.mp hterm' with hmem | hmem
    · exact .inr ⟨hnew term hterm, inj_on_of_nodup_map hids hmem hterm hid⟩
    · obtain rfl := mem_singleton.mp hmem
      exact absurd hid.symm (hnew term hterm)

theorem id_le (h : Written newId now fields terms savedId terms') (hle : ∀ term ∈ terms, term.id ≤ newId) :
    ∀ term' ∈ terms', term'.id ≤ newId := by
  intro term' hterm'
  cases h with
  | update =>
    obtain ⟨term, hterm, rfl⟩ := mem_map.mp hterm'
    rw [TermRow.rewrite_id]
    exact hle term hterm
  | create =>
    rcases mem_append.mp hterm' with hterm | hterm
    · exact hle term' hterm
    · obtain rfl := mem_singleton.mp hterm
      exact Nat.le_refl _

end Written

section
variable {ν : Type} {platform : Platform ν} {access : Access} {now : Int}

/-- The tables after names and relations have been written for a term. -/
structure Graphed (platform : Platform ν) (now : Int) (id : Nat) (locale : JsString) (input : GlossaryTermInput)
    (terms : List TermRow) (db db' : Database) : Prop where
  free : ∀ peer ∈ input.relatedIds, ¬ Related db id peer → (relationQuery peer db.relations).length < RELATED_LIMIT
  names : db'.names = db.names.filter (fun name => name.termId ≠ id)
    ++ nameRows platform locale id input.fields.term input.aliases
  keys : (db'.names.map fun name => (name.locale, name.key)).Nodup
  relations : db'.relations = rewritten locale id input.relatedIds db.relations
  ordered : ∀ peer ∈ input.relatedIds, (relationRow locale id peer).leftId < (relationRow locale id peer).rightId
  pairs : (db'.relations.map fun relation => (relation.leftId, relation.rightId)).Nodup
  joined : ∀ peer ∈ input.relatedIds, referenced terms (relationRow locale id peer).leftId locale = true
    ∧ referenced terms (relationRow locale id peer).rightId locale = true
  terms : db'.terms = terms.map
    (TermRow.increment (changedPeers (peerIds (relationQuery id db.relations) id) input.relatedIds) now)

theorem insertNames_ok {rows names names' : List NameRow} (h : insertNames rows names = .ok names') :
    names' = names ++ rows ∧ (names'.map fun name => (name.locale, name.key)).Nodup := by
  unfold insertNames at h
  split at h
  · rename_i hkeys
    obtain rfl := Except.ok.inj h
    exact ⟨rfl, hkeys.1⟩
  · cases h

theorem insertRelations_ok {terms : List TermRow} {rows relations relations' : List RelationRow}
    (h : insertRelations terms rows relations = .ok relations') : relations' = relations ++ rows ∧
    (∀ row ∈ rows, row.leftId < row.rightId) ∧ (relations'.map fun row => (row.leftId, row.rightId)).Nodup ∧
    ∀ row ∈ rows, referenced terms row.leftId row.locale = true ∧ referenced terms row.rightId row.locale = true := by
  unfold insertRelations at h
  obtain ⟨hordered, h⟩ := guard_ok h
  obtain ⟨hpairs, h⟩ := guard_ok h
  obtain ⟨hjoined, h⟩ := guard_ok h
  obtain rfl := Except.ok.inj h
  rw [not_not, all_eq_true] at hordered hjoined
  exact ⟨rfl, fun row hrow => of_decide_eq_true (hordered row hrow), not_not.mp hpairs,
    fun row hrow => Bool.and_eq_true_iff.mp (hjoined row hrow)⟩

theorem writeGraph_ok {id : Nat} {locale : JsString} {input : GlossaryTermInput} {terms : List TermRow}
    {db db' : Database} (h : writeGraph platform now id locale input terms db = .ok db') :
    Graphed platform now id locale input terms db db' := by
  unfold writeGraph at h
  obtain ⟨hfree, h⟩ := guard_ok h
  obtain ⟨names, hnames, h⟩ := bind_ok h
  obtain ⟨relations, hrelations, h⟩ := bind_ok h
  obtain ⟨terms', hterms, h⟩ := bind_ok h
  obtain rfl := Except.ok.inj h
  obtain ⟨rfl, hkeys⟩ := insertNames_ok hnames
  obtain ⟨rfl, hordered, hpairs, hjoined⟩ := insertRelations_ok hrelations
  refine ⟨?_, rfl, hkeys, rfl, ?_, hpairs, ?_, incrementRevisions_ok hterms⟩
  · intro peer hpeer hrelated
    by_contra hfull
    refine hfree (any_eq_true.mpr ⟨peer, hpeer, ?_⟩)
    rw [Bool.and_eq_true, Bool.not_eq_true', contains_eq_mem, decide_eq_false_iff_not, mem_peerIds, decide_eq_true_eq]
    exact ⟨hrelated, by omega⟩
  · exact fun peer hpeer => hordered _ (mem_map_of_mem hpeer)
  · exact fun peer hpeer => hjoined _ (mem_map_of_mem hpeer)

theorem mergedFields_ok {raw : JsonValue ν} {previous : Option TermRow} {fields fields' : TermFields}
    (h : mergedFields access raw previous fields = .ok fields') :
    fields'.locale = fields.locale ∧ fields'.term = fields.term := by
  cases previous with
  | none =>
    obtain rfl := Except.ok.inj h
    exact ⟨rfl, rfl⟩
  | some previous =>
    cases raw with
    | null | boolean | number | string | array =>
      obtain rfl := Except.ok.inj h
      exact ⟨rfl, rfl⟩
    | object entries =>
      rw [mergedFields, mergeDocumentation] at h
      cases hlabel : property (js "documentationLabel") entries with
      | some label =>
        simp only [hlabel] at h
        obtain rfl := Except.ok.inj h
        exact ⟨rfl, rfl⟩
      | none =>
        simp only [hlabel] at h
        obtain ⟨-, h⟩ := guard_ok h
        obtain rfl := Except.ok.inj h
        exact ⟨rfl, rfl⟩

theorem previousTerm_ok {id : Option (Nat × Nat)} {locale : JsString} {db : Database} {previous : Option TermRow}
    (h : previousTerm id locale db = .ok previous) :
    id = previous.map (fun previous => (previous.id, previous.revision))
      ∧ ∀ term ∈ previous, term ∈ db.terms ∧ term.fields.locale = locale := by
  unfold previousTerm at h
  cases id with
  | none =>
    obtain rfl := Except.ok.inj h
    exact ⟨rfl, nofun⟩
  | some wanted =>
    obtain ⟨id, revision⟩ := wanted
    cases hterm : termById id db.terms with
    | none => simp [hterm] at h
    | some term =>
      simp only [hterm] at h
      obtain ⟨hlocale, h⟩ := guard_ok h
      obtain ⟨hrevision, h⟩ := guard_ok h
      obtain rfl := Except.ok.inj h
      obtain ⟨hmem, rfl⟩ := termById_some hterm
      refine ⟨by rw [Option.map_some, not_not.mp hrevision], ?_⟩
      intro other hother
      obtain rfl := Option.mem_some_iff.mp hother
      exact ⟨hmem, not_not.mp hlocale⟩

theorem writeTerm_ok {newId savedId : Nat} {previous : Option TermRow} {fields : TermFields}
    {terms terms' : List TermRow} (hprevious : ∀ term ∈ previous, term ∈ terms ∧ term.fields.locale = fields.locale)
    (h : writeTerm now newId previous fields terms = .ok (savedId, terms')) :
    Written newId now fields terms savedId terms' := by
  cases previous with
  | none =>
    obtain ⟨rfl, rfl⟩ := Prod.mk.inj (Except.ok.inj (guard_ok h).2)
    exact .create
  | some previous =>
    obtain ⟨rfl, rfl⟩ := Prod.mk.inj (Except.ok.inj (guard_ok h).2)
    obtain ⟨hmem, hlocale⟩ := hprevious previous rfl
    exact .update hmem hlocale

/-- What a save has done when it succeeds. -/
theorem save_ok {raw : JsonValue ν} {rawId : Option (JsonValue ν)} {newId savedId : Nat} {aliases : List JsString}
    {db db' : Database} (h : save platform access now raw rawId newId db = .ok ((savedId, aliases), db')) :
    ∃ input fields terms, parseInput platform raw = .ok input ∧ input.aliases = aliases ∧
    fields.term = input.fields.term ∧ Written newId now fields db.terms savedId terms ∧
    Graphed platform now savedId fields.locale input terms db db' ∧ ∀ id revision,
    updatedTerm platform raw rawId = .ok (some (id, revision)) → ∃ term ∈ db.terms, term.id = id ∧
    term.revision = revision := by
  obtain ⟨input, hinput, h⟩ := bind_ok h
  obtain ⟨id, hid, h⟩ := bind_ok h
  obtain ⟨⟨savedId', db''⟩, hsave, h⟩ := bind_ok h
  obtain ⟨hsaved, rfl⟩ := Prod.mk.inj (Except.ok.inj h)
  obtain ⟨rfl, rfl⟩ := Prod.mk.inj hsaved
  obtain ⟨-, -, hsave⟩ := bind_ok (mapError_ok hsave)
  obtain ⟨previous, hprevious, hsave⟩ := bind_ok hsave
  obtain ⟨fields, hfields, hsave⟩ := bind_ok hsave
  obtain ⟨-, -, hsave⟩ := bind_ok hsave
  obtain ⟨-, -, hsave⟩ := bind_ok hsave
  obtain ⟨⟨writtenId, terms⟩, hterms, hsave⟩ := bind_ok hsave
  obtain ⟨saved, hgraph, hsave⟩ := bind_ok hsave
  obtain ⟨rfl, rfl⟩ := Prod.mk.inj (Except.ok.inj hsave)
  obtain ⟨hwanted, hmem⟩ := previousTerm_ok hprevious
  obtain ⟨hlocale, hterm⟩ := mergedFields_ok hfields
  refine ⟨input, fields, terms, hinput, rfl, hterm, writeTerm_ok ?_ hterms, writeGraph_ok hgraph, ?_⟩
  · intro term hprevious
    rw [hlocale]
    exact hmem term hprevious
  · intro id' revision hupdated
    obtain rfl := Except.ok.inj (hid.symm.trans hupdated)
    cases previous with
    | none => cases hwanted
    | some previous =>
      obtain ⟨rfl, rfl⟩ := Prod.mk.inj (Option.some.inj hwanted)
      exact ⟨previous, (hmem previous rfl).1, rfl, rfl⟩

theorem remove_ok {rawId rawRevision : Option (JsonValue ν)} {db db' : Database}
    (h : remove platform access now rawId rawRevision db = .ok db') :
    ∃ term ∈ db.terms, positiveInteger platform rawId = .ok term.id
      ∧ positiveInteger platform rawRevision = .ok term.revision
      ∧ db' = Database.delete term.id { db with
          terms := db.terms.map (TermRow.increment (peerIds (relationQuery term.id db.relations) term.id) now) } := by
  unfold remove at h
  obtain ⟨-, h⟩ := guard_ok h
  obtain ⟨id, hid, h⟩ := bind_ok h
  obtain ⟨revision, hrevision, h⟩ := bind_ok h
  cases hterm : termById id db.terms with
  | none => simp [hterm] at h
  | some term =>
    simp only [hterm] at h
    obtain ⟨-, -, h⟩ := bind_ok h
    obtain ⟨hsame, h⟩ := guard_ok h
    obtain ⟨terms, hterms, h⟩ := bind_ok h
    obtain rfl := Except.ok.inj h
    obtain ⟨hmem, rfl⟩ := termById_some hterm
    rw [incrementRevisions_ok hterms]
    refine ⟨term, hmem, hid, ?_, rfl⟩
    rw [hrevision, not_not.mp hsame]

/-! ## What every run keeps -/

/-- The names, the relations and the terms belong together. -/
structure Consistent (platform : Platform ν) (state : State) : Prop where
  ids : (state.db.terms.map TermRow.id).Nodup
  issued : ∀ term ∈ state.db.terms, term.id ≤ state.sequence
  keys : (state.db.names.map fun name => (name.locale, name.key)).Nodup
  named : ∀ term ∈ state.db.terms, state.db.names.filter (fun name => name.termId = term.id) =
    nameRows platform term.fields.locale term.id term.fields.term (state.aliases term.id)
  owned : ∀ name ∈ state.db.names, ∃ term ∈ state.db.terms, term.id = name.termId
  ordered : ∀ relation ∈ state.db.relations, relation.leftId < relation.rightId
  joined : ∀ relation ∈ state.db.relations, referenced state.db.terms relation.leftId relation.locale = true
    ∧ referenced state.db.terms relation.rightId relation.locale = true
  limited : ∀ id, (relationQuery id state.db.relations).length ≤ RELATED_LIMIT

theorem consistent_initial : Consistent platform State.initial where
  ids := nodup_nil
  issued := forall_mem_nil _
  keys := nodup_nil
  named := forall_mem_nil _
  owned := forall_mem_nil _
  ordered := forall_mem_nil _
  joined := forall_mem_nil _
  limited := fun _ => Nat.zero_le _

/-- Taking a number from the sequence. -/
theorem Consistent.issue {state : State} (h : Consistent platform state) :
    Consistent platform { state with sequence := state.sequence + 1 } :=
  { h with issued := fun term hterm => Nat.le_succ_of_le (h.issued term hterm) }

theorem Consistent.fresh {state : State} (h : Consistent platform state) :
    ∀ term ∈ state.db.terms, term.id ≠ state.sequence + 1 := by
  intro term hterm
  have hle := h.issued term hterm
  omega

theorem referenced_increment (ids : List Nat) (terms : List TermRow) (id : Nat) (locale : JsString) :
    referenced (terms.map (TermRow.increment ids now)) id locale = referenced terms id locale := by
  simp [referenced, comp_def]

theorem nameRows_termId {locale : JsString} {id : Nat} {term : JsString} {aliases : List JsString} {name : NameRow}
    (h : name ∈ nameRows platform locale id term aliases) : name.termId = id := by
  rcases mem_cons.mp h with rfl | h
  · rfl
  · obtain ⟨_, -, rfl⟩ := mem_map.mp h
    rfl

/-- The names of the term are those of its last save, the names of others stay. -/
theorem filter_names {names : List NameRow} {locale : JsString} {id other : Nat} {term : JsString}
    {aliases : List JsString} :
    (names.filter (fun name => name.termId ≠ id) ++ nameRows platform locale id term aliases).filter
        (fun name => name.termId = other) =
      if other = id then nameRows platform locale id term aliases
      else names.filter fun name => name.termId = other := by
  rw [filter_append, filter_filter]
  split
  · rename_i hsame
    rw [hsame]
    have hnone : names.filter (fun name => decide (name.termId = id) && decide (name.termId ≠ id)) = [] := by
      rw [filter_eq_nil_iff]
      simp
    rw [hnone, nil_append, filter_eq_self]
    exact fun name hname => decide_eq_true (nameRows_termId hname)
  · rename_i hne
    have hnone : (nameRows platform locale id term aliases).filter (fun name => name.termId = other) = [] := by
      rw [filter_eq_nil_iff]
      intro name hname
      rw [nameRows_termId hname, decide_eq_true_eq]
      exact fun hsame => hne hsame.symm
    rw [hnone, append_nil]
    refine filter_congr fun name _ => ?_
    by_cases hname : name.termId = other
    · simp [hname, hne]
    · simp [hname]

theorem Consistent.save {state : State} (h : Consistent platform state) {raw : JsonValue ν} {input : GlossaryTermInput}
    {fields : TermFields} {terms : List TermRow} {savedId : Nat} {db' : Database}
    (hinput : parseInput platform raw = .ok input) (hterm : fields.term = input.fields.term)
    (hwritten : Written (state.sequence + 1) now fields state.db.terms savedId terms)
    (hgraph : Graphed platform now savedId fields.locale input terms state.db db') :
    Consistent platform ⟨db', state.sequence + 1, Function.update state.aliases savedId input.aliases⟩ := by
  have hids := hwritten.ids h.ids h.fresh
  obtain ⟨hnodup, hlength⟩ := parseInput_related hinput
  constructor
  case ids =>
    show (db'.terms.map TermRow.id).Nodup
    rw [hgraph.terms, map_map]
    exact (map_congr_left fun term _ => TermRow.increment_id _ now term).symm ▸ hids
  case issued =>
    intro term hmem
    rw [hgraph.terms] at hmem
    obtain ⟨before, hbefore, rfl⟩ := mem_map.mp hmem
    rw [TermRow.increment_id]
    exact hwritten.id_le (fun term hterm => Nat.le_succ_of_le (h.issued term hterm)) before hbefore
  case keys => exact hgraph.keys
  case named =>
    intro term hmem
    rw [hgraph.terms] at hmem
    obtain ⟨before, hbefore, rfl⟩ := mem_map.mp hmem
    rw [TermRow.increment_id, TermRow.increment_fields]
    show db'.names.filter _ = nameRows platform _ _ _ (Function.update state.aliases savedId input.aliases before.id)
    rw [hgraph.names, filter_names]
    rcases hwritten.rows h.ids h.fresh hbefore with ⟨hsaved, hfields⟩ | ⟨hother, hold⟩
    · rw [if_pos hsaved, hsaved, update_self, hfields, hterm]
    · rw [if_neg hother, update_of_ne hother]
      exact h.named before hold
  case owned =>
    intro name hname
    have hterm : ∃ term ∈ terms, term.id = name.termId := by
      rw [hgraph.names] at hname
      rcases mem_append.mp hname with hname | hname
      · obtain ⟨term, hterm, hid⟩ := h.owned name (mem_filter.mp hname).1
        have hreferenced := hwritten.referenced h.ids (referenced_iff.mpr ⟨term, hterm, hid, rfl⟩)
        obtain ⟨term', hterm', hid', -⟩ := referenced_iff.mp hreferenced
        exact ⟨term', hterm', hid'⟩
      · rw [nameRows_termId hname]
        exact hwritten.saved
    obtain ⟨term, hterm, hid⟩ := hterm
    refine ⟨term.increment (changedPeers (peerIds (relationQuery savedId state.db.relations) savedId) input.relatedIds)
      now,
      ?_, by rw [TermRow.increment_id, hid]⟩
    rw [hgraph.terms]
    exact mem_map_of_mem hterm
  case ordered =>
    intro relation hrelation
    rw [hgraph.relations] at hrelation
    rcases mem_append.mp hrelation with hrelation | hrelation
    · exact h.ordered relation (mem_filter.mp hrelation).1
    · obtain ⟨peer, hpeer, rfl⟩ := mem_map.mp hrelation
      exact hgraph.ordered peer hpeer
  case joined =>
    intro relation hrelation
    rw [hgraph.terms, referenced_increment, referenced_increment]
    rw [hgraph.relations] at hrelation
    rcases mem_append.mp hrelation with hrelation | hrelation
    · obtain ⟨hleft, hright⟩ := h.joined relation (mem_filter.mp hrelation).1
      exact ⟨hwritten.referenced h.ids hleft, hwritten.referenced h.ids hright⟩
    · obtain ⟨peer, hpeer, rfl⟩ := mem_map.mp hrelation
      exact hgraph.joined peer hpeer
  case limited =>
    intro id
    rw [hgraph.relations]
    exact rewritten_limit hnodup hlength h.limited hgraph.free id

theorem Consistent.delete {state : State} (h : Consistent platform state) (id : Nat) (peers : List Nat) :
    Consistent platform ⟨Database.delete id { state.db with terms := state.db.terms.map (TermRow.increment peers now) },
      state.sequence + 1, state.aliases⟩ := by
  have hmember : ∀ term ∈ (state.db.terms.map (TermRow.increment peers now)).filter (fun term => term.id ≠ id),
      ∃ before ∈ state.db.terms, before.id ≠ id ∧ term = before.increment peers now := by
    intro term hterm
    obtain ⟨hmem, hne⟩ := mem_filter.mp hterm
    obtain ⟨before, hbefore, rfl⟩ := mem_map.mp hmem
    rw [TermRow.increment_id] at hne
    exact ⟨before, hbefore, of_decide_eq_true hne, rfl⟩
  have hmem : ∀ before ∈ state.db.terms, before.id ≠ id → before.increment peers now ∈
      (state.db.terms.map (TermRow.increment peers now)).filter (fun term => term.id ≠ id) := by
    intro before hbefore hne
    refine mem_filter.mpr ⟨mem_map_of_mem hbefore, ?_⟩
    rw [TermRow.increment_id]
    exact decide_eq_true hne
  constructor
  case ids =>
    refine Nodup.sublist (Sublist.map _ filter_sublist) ?_
    rw [map_map]
    exact (map_congr_left fun term _ => TermRow.increment_id _ now term).symm ▸ h.ids
  case issued =>
    intro term hterm
    obtain ⟨before, hbefore, -, rfl⟩ := hmember term hterm
    rw [TermRow.increment_id]
    exact Nat.le_succ_of_le (h.issued before hbefore)
  case keys => exact h.keys.sublist (filter_sublist.map _)
  case named =>
    intro term hterm
    obtain ⟨before, hbefore, hne, rfl⟩ := hmember term hterm
    rw [TermRow.increment_id, TermRow.increment_fields, ← h.named before hbefore]
    show (state.db.names.filter fun name => name.termId ≠ id).filter _ = _
    rw [filter_filter]
    refine filter_congr fun name _ => ?_
    by_cases hname : name.termId = before.id
    · simp [hname, hne]
    · simp [hname]
  case owned =>
    intro name hname
    obtain ⟨hname, hne⟩ := mem_filter.mp hname
    obtain ⟨before, hbefore, hid⟩ := h.owned name hname
    refine ⟨_, hmem before hbefore (hid ▸ of_decide_eq_true hne), ?_⟩
    rw [TermRow.increment_id, hid]
  case ordered => exact fun relation hrelation => h.ordered relation (mem_filter.mp hrelation).1
  case joined =>
    intro relation hrelation
    obtain ⟨hrelation, hjoins⟩ := mem_filter.mp hrelation
    rw [Bool.not_eq_true', ← Bool.not_eq_true, joins_iff, not_or] at hjoins
    have hkept : ∀ {other : Nat}, other ≠ id → referenced state.db.terms other relation.locale = true →
        referenced ((state.db.terms.map (TermRow.increment peers now)).filter fun term => term.id ≠ id) other
          relation.locale = true := by
      intro other hother hreferenced
      obtain ⟨before, hbefore, hid, hlocale⟩ := referenced_iff.mp hreferenced
      refine referenced_iff.mpr ⟨_, hmem before hbefore (hid ▸ hother), ?_, ?_⟩
      · rw [TermRow.increment_id, hid]
      · rw [TermRow.increment_fields, hlocale]
    obtain ⟨hleft, hright⟩ := h.joined relation hrelation
    exact ⟨hkept hjoins.1 hleft, hkept hjoins.2 hright⟩
  case limited =>
    intro other
    refine Nat.le_trans ?_ (h.limited other)
    exact (Sublist.filter _ filter_sublist).length_le

/-! ## Calls -/

theorem exec_error {op : Operation ν} {state : State} {failure : Failure}
    (h : perform platform op state = .error failure) :
    (glossary platform).exec op state = { state with sequence := state.sequence + 1 } := by
  simp only [glossary, h]

theorem perform_save {rawId : Option (JsonValue ν)} {raw : JsonValue ν} {state : State}
    {saved : Option (Nat × List JsString)} {db' : Database}
    (h : perform platform (.save access now raw rawId) state = .ok (saved, db')) :
    ∃ savedId aliases, saved = some (savedId, aliases)
      ∧ save platform access now raw rawId (state.sequence + 1) state.db = .ok ((savedId, aliases), db') := by
  obtain ⟨⟨⟨savedId, aliases⟩, db⟩, hsave, heq⟩ := map_ok h
  obtain ⟨rfl, rfl⟩ := Prod.mk.inj heq
  exact ⟨savedId, aliases, rfl, hsave⟩

theorem perform_remove {rawId rawRevision : Option (JsonValue ν)} {state : State} {saved : Option (Nat × List JsString)}
    {db' : Database} (h : perform platform (.remove access now rawId rawRevision) state = .ok (saved, db')) :
    saved = none ∧ remove platform access now rawId rawRevision state.db = .ok db' := by
  obtain ⟨db, hremove, heq⟩ := map_ok h
  obtain ⟨rfl, rfl⟩ := Prod.mk.inj heq
  exact ⟨rfl, hremove⟩

theorem consistent_of_reachable {state : State} (h : (glossary platform).Reachable State.initial state) :
    Consistent platform state := by
  refine h.invariant consistent_initial ?_
  intro op state _ hconsistent
  cases hperform : perform platform op state with
  | error failure =>
    rw [exec_error hperform]
    exact hconsistent.issue
  | ok outcome =>
    obtain ⟨saved, db'⟩ := outcome
    simp only [glossary, hperform]
    cases op with
    | save access now raw rawId =>
      obtain ⟨savedId, aliases, rfl, hsave⟩ := perform_save hperform
      obtain ⟨input, fields, terms, hinput, rfl, hterm, hwritten, hgraph, -⟩ := save_ok hsave
      exact hconsistent.save hinput hterm hwritten hgraph
    | remove access now rawId rawRevision =>
      obtain ⟨rfl, hremove⟩ := perform_remove hperform
      obtain ⟨term, -, -, -, rfl⟩ := remove_ok hremove
      exact hconsistent.delete _ _

/-- The term changed: its columns, its aliases or the terms that it is related to. -/
def Changed (state next : State) (term term' : TermRow) : Prop :=
  term'.fields ≠ term.fields ∨ next.aliases term.id ≠ state.aliases term.id
    ∨ ∃ peer, ¬ (Related next.db term.id peer ↔ Related state.db term.id peer)

/-- A change of a term is told by its revision. -/
theorem revision_of_exec {state : State} (h : Consistent platform state) (op : Operation ν) {term term' : TermRow}
    (hterm : term ∈ state.db.terms) (hterm' : term' ∈ ((glossary platform).exec op state).db.terms)
    (hid : term'.id = term.id) (hchanged : Changed state ((glossary platform).exec op state) term term') :
    term.revision < term'.revision := by
  cases hperform : perform platform op state with
  | error failure =>
    rw [exec_error hperform] at hterm' hchanged
    obtain rfl := inj_on_of_nodup_map h.ids hterm' hterm hid
    rcases hchanged with hfields | haliases | ⟨peer, hpeer⟩
    · exact absurd rfl hfields
    · exact absurd rfl haliases
    · exact absurd Iff.rfl hpeer
  | ok outcome =>
    obtain ⟨saved, db'⟩ := outcome
    simp only [glossary, hperform] at hterm' hchanged
    cases op with
    | save access now raw rawId =>
      obtain ⟨savedId, aliases, rfl, hsave⟩ := perform_save hperform
      obtain ⟨input, fields, terms, hinput, rfl, -, hwritten, hgraph, -⟩ := save_ok hsave
      rw [hgraph.terms] at hterm'
      obtain ⟨before, hbefore, rfl⟩ := mem_map.mp hterm'
      rw [TermRow.increment_id] at hid
      rcases hwritten.revision h.ids h.fresh hterm hbefore hid with ⟨-, hlt⟩ | ⟨hother, rfl⟩
      · exact Nat.lt_of_lt_of_le hlt (TermRow.increment_le _ _ _)
      · rcases hchanged with hfields | haliases | ⟨peer, hpeer⟩
        · exact absurd (TermRow.increment_fields _ _ _) hfields
        · exact absurd (update_of_ne hother _ _) haliases
        · refine TermRow.increment_lt (mem_changedPeers.mpr fun hsame => hpeer ?_) _
          rw [related_rewritten hgraph.relations]
          have hsymm : Related state.db before.id savedId ↔ Related state.db savedId before.id :=
            ⟨Related.symm, Related.symm⟩
          by_cases hpeerId : peer = savedId
          · rw [hpeerId, hsymm, hsame]
            simp [hother]
          · simp [hother, hpeerId]
    | remove access now rawId rawRevision =>
      obtain ⟨rfl, hremove⟩ := perform_remove hperform
      obtain ⟨removed, -, -, -, rfl⟩ := remove_ok hremove
      obtain ⟨hmem, hne⟩ := mem_filter.mp hterm'
      obtain ⟨before, hbefore, rfl⟩ := mem_map.mp hmem
      rw [TermRow.increment_id] at hid hne
      obtain rfl := inj_on_of_nodup_map h.ids hbefore hterm hid
      rcases hchanged with hfields | haliases | ⟨peer, hpeer⟩
      · exact absurd (TermRow.increment_fields _ _ _) hfields
      · exact absurd rfl haliases
      · refine TermRow.increment_lt ?_ _
        rw [mem_peerIds]
        by_contra hunrelated
        refine hpeer ⟨?_, ?_⟩
        · rintro ⟨relation, hrelation, hends⟩
          exact ⟨relation, (mem_filter.mp hrelation).1, hends⟩
        · rintro ⟨relation, hrelation, hends⟩
          refine ⟨relation, mem_filter.mpr ⟨hrelation, ?_⟩, hends⟩
          rw [Bool.not_eq_true', ← Bool.not_eq_true, joins_iff]
          intro hjoins
          have hne' := of_decide_eq_true hne
          refine hunrelated ⟨relation, hrelation, ?_⟩
          omega

/-- The call is about the term with this id at this revision. -/
def Expects (platform : Platform ν) : Operation ν → Nat → Nat → Prop
  | .save _ _ raw rawId, id, revision => updatedTerm platform raw rawId = .ok (some (id, revision))
  | .remove _ _ rawId rawRevision, id, revision =>
    positiveInteger platform rawId = .ok id ∧ positiveInteger platform rawRevision = .ok revision

/-- A call that succeeds has named the revision of its term. -/
theorem perform_revision {op : Operation ν} {state : State} {outcome : Option (Nat × List JsString) × Database}
    (h : perform platform op state = .ok outcome) {id revision : Nat} (hexpects : Expects platform op id revision) :
    ∃ term ∈ state.db.terms, term.id = id ∧ term.revision = revision := by
  obtain ⟨saved, db'⟩ := outcome
  cases op with
  | save access now raw rawId =>
    obtain ⟨savedId, aliases, rfl, hsave⟩ := perform_save h
    obtain ⟨input, fields, terms, -, -, -, -, -, hrevision⟩ := save_ok hsave
    exact hrevision id revision hexpects
  | remove access now rawId rawRevision =>
    obtain ⟨rfl, hremove⟩ := perform_remove h
    obtain ⟨term, hterm, hid, hrevision, -⟩ := remove_ok hremove
    exact ⟨term, hterm, Except.ok.inj (hid.symm.trans hexpects.1), Except.ok.inj (hrevision.symm.trans hexpects.2)⟩

/-- In every state that calls lead to, the names of a locale differ, a term has the names of its last save alone, and
relations are symmetric, join two terms of one locale and are not more than the limit. A call raises the revision of
every term that it changes; one that fails, as one with a stale revision does, leaves the tables as they were. -/
theorem glossary_consistent {state : State} (h : (glossary platform).Reachable State.initial state) :
    (state.db.names.map fun name => (name.locale, name.key)).Nodup
      ∧ (∀ term ∈ state.db.terms, state.db.names.filter (fun name => name.termId = term.id) =
          nameRows platform term.fields.locale term.id term.fields.term (state.aliases term.id))
      ∧ (∀ name ∈ state.db.names, ∃ term ∈ state.db.terms, term.id = name.termId)
      ∧ (∀ id peer, Related state.db id peer → Related state.db peer id ∧ id ≠ peer
          ∧ ∃ term ∈ state.db.terms, ∃ other ∈ state.db.terms, term.id = id ∧ other.id = peer
            ∧ term.fields.locale = other.fields.locale)
      ∧ (∀ id, (relationQuery id state.db.relations).length ≤ RELATED_LIMIT)
      ∧ ∀ op,
          (∀ term ∈ state.db.terms, ∀ term' ∈ ((glossary platform).exec op state).db.terms, term'.id = term.id →
            Changed state ((glossary platform).exec op state) term term' → term.revision < term'.revision)
          ∧ (∀ failure, perform platform op state = .error failure → ((glossary platform).exec op state).db = state.db)
          ∧ ∀ id revision, Expects platform op id revision →
              (∀ term ∈ state.db.terms, term.id = id → term.revision ≠ revision) →
                (∃ failure, perform platform op state = .error failure)
                  ∧ ((glossary platform).exec op state).db = state.db := by
  have hconsistent := consistent_of_reachable h
  have hfailed : ∀ {op : Operation ν} {failure : Failure}, perform platform op state = .error failure →
      ((glossary platform).exec op state).db = state.db := by
    intro op failure hfailure
    rw [exec_error hfailure]
  refine ⟨hconsistent.keys, hconsistent.named, hconsistent.owned, ?_, hconsistent.limited, fun op => ⟨?_, ?_, ?_⟩⟩
  · rintro id peer hrelated
    have hsymm := hrelated.symm
    obtain ⟨relation, hrelation, hends⟩ := hrelated
    have hordered := hconsistent.ordered relation hrelation
    obtain ⟨hleft, hright⟩ := hconsistent.joined relation hrelation
    obtain ⟨left, hleftMem, hleftId, hleftLocale⟩ := referenced_iff.mp hleft
    obtain ⟨right, hrightMem, hrightId, hrightLocale⟩ := referenced_iff.mp hright
    refine ⟨hsymm, by omega, ?_⟩
    rcases hends with ⟨rfl, rfl⟩ | ⟨rfl, rfl⟩
    · exact ⟨left, hleftMem, right, hrightMem, hleftId, hrightId, hleftLocale.trans hrightLocale.symm⟩
    · exact ⟨right, hrightMem, left, hleftMem, hrightId, hleftId, hrightLocale.trans hleftLocale.symm⟩
  · exact fun term hterm term' hterm' hid hchanged => revision_of_exec hconsistent op hterm hterm' hid hchanged
  · exact fun failure => hfailed
  · intro id revision hexpects hstale
    cases hperform : perform platform op state with
    | error failure => exact ⟨⟨failure, rfl⟩, hfailed hperform⟩
    | ok outcome =>
      obtain ⟨term, hterm, hid, hrevision⟩ := perform_revision hperform hexpects
      exact absurd hrevision (hstale term hterm hid)

end

/-- Two terms, the second related to the first. -/
theorem glossary_consistent_example :
    let platform : Platform Nat := ⟨id, id, fun _ => none, fun number => some number⟩
    let access : Access := ⟨true, .ok (), fun _ => false⟩
    let first : JsonValue Nat := .object [(js "term", .string [97]), (js "locale", .string (js "en"))]
    let second : JsonValue Nat := .object
      [(js "term", .string [98]), (js "locale", .string (js "en")), (js "relatedIds", .array [.number 1])]
    let operations : List (Operation Nat) := [.save access 0 first none, .save access 1 second none]
    let state := (glossary platform).after operations State.initial
    let stale : Operation Nat := .remove access 2 (some (.number 1)) (some (.number 1))
    state.db.relations = [⟨1, 2, js "en"⟩] ∧ state.db.terms.map TermRow.revision = [2, 1]
      ∧ (state.db.names.map fun name => (name.locale, name.key)).Nodup
      ∧ Related state.db 2 1 ∧ (relationQuery 1 state.db.relations).length ≤ RELATED_LIMIT
      ∧ ((glossary platform).exec stale state).db = state.db := by
  intro platform access first second operations state stale
  have hreachable : (glossary platform).Reachable State.initial state := ⟨operations, ⟨trivial, trivial, trivial⟩, rfl⟩
  obtain ⟨hnames, -, -, hrelated, hlimit, hcalls⟩ := glossary_consistent hreachable
  have hrelations : state.db.relations = [⟨1, 2, js "en"⟩] := by decide +kernel
  have hrevisions : ∀ term ∈ state.db.terms, term.id = 1 → term.revision ≠ 1 := by decide +kernel
  refine ⟨hrelations, by decide +kernel, hnames, (hrelated 1 2 ?_).1, hlimit 1,
    ((hcalls stale).2.2 1 1 ⟨rfl, rfl⟩ hrevisions).2⟩
  exact ⟨_, by rw [hrelations]; exact mem_singleton_self _, .inl ⟨rfl, rfl⟩⟩

end TsEpistle.Glossary
