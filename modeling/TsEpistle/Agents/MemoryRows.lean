import TsEpistle.Agents.Memory
import TsEpistle.Library.Checked

/-! What every call keeps of the rows of `server/agents/memory.ts`. -/

namespace TsEpistle.Agents.Memory
open Library Library.Checked Json List
open Pages (isSpace trim)

variable {δ : Type}

/-- The contents of a target, in the order of the rows. -/
def stored (target : AgentMemoryTarget) (rows : List (MemoryRow δ)) : List JsString :=
  (rows.filter fun row => row.target = target).map (·.content)

@[simp] theorem stored_nil (target : AgentMemoryTarget) : stored target ([] : List (MemoryRow δ)) = [] := rfl

theorem stored_append (target : AgentMemoryTarget) (before after : List (MemoryRow δ)) :
    stored target (before ++ after) = stored target before ++ stored target after := by
  simp [stored]

theorem stored_cons (target : AgentMemoryTarget) (row : MemoryRow δ) (rows : List (MemoryRow δ)) :
    stored target (row :: rows)
      = if row.target = target then row.content :: stored target rows else stored target rows := by
  unfold stored
  split <;> simp [*]

theorem stored_sublist (target : AgentMemoryTarget) {rows rows' : List (MemoryRow δ)} (h : rows.Sublist rows') :
    (stored target rows).Sublist (stored target rows') :=
  (h.filter _).map _

theorem contentsOf_perm (target : AgentMemoryTarget) (rows : List (MemoryRow δ)) :
    (contentsOf target rows).Perm (stored target rows) :=
  ((perm_insertionSort _ _).filter _).map _

variable {entries entries' : List JsString}

theorem characterCount_perm (h : entries.Perm entries') : characterCount entries = characterCount entries' := by
  unfold characterCount
  rw [(h.map List.length).sum_eq, h.length_eq]

theorem characterCount_sublist (h : entries.Sublist entries') : characterCount entries ≤ characterCount entries' := by
  have hsum := (h.map List.length).sum_le_sum fun _ _ => Nat.zero_le _
  have hlength := h.length_le
  unfold characterCount
  omega

/-- The count goes by the lengths of the entries alone. -/
theorem characterCount_lengths (h : entries.map List.length = entries'.map List.length) :
    characterCount entries = characterCount entries' := by
  have hlength := congrArg List.length h
  rw [length_map, length_map] at hlength
  rw [characterCount, characterCount, h, hlength]

/-! ## Contents -/

@[simp] theorem length_utf8 (content : JsString) : (utf8 content).length = content.length := by
  induction content using utf8.induct with
  | case1 => rfl
  | case2 unit hlone => rw [utf8, if_pos hlone]; rfl
  | case3 unit hplain => rw [utf8, if_neg hplain]
  | case4 unit next rest hpair ih => rw [utf8, if_pos hpair]; simp [ih]
  | case5 unit next rest hpair ih => rw [utf8, if_neg hpair]; simp [ih]

variable {target : AgentMemoryTarget} {raw content : JsString}

theorem normalizeContent_ok (h : normalizeContent target raw = .ok content) :
    content ≠ [] ∧ content.length ≤ target.limit ∧ containsForbiddenUnicode content = false := by
  unfold normalizeContent refuse at h
  simp only at h
  split at h
  · cases h
  · split at h
    · cases h
    · split at h
      · cases h
      · cases h
        rename_i hempty hlimit hclean
        simp only [Bool.or_eq_true, not_or, Bool.not_eq_true] at hclean
        exact ⟨fun hnil => hempty (by rw [hnil]; rfl), not_lt.mp hlimit, hclean.1.1.1⟩

theorem assertCapacity_ok {entries : List JsString} {characters : Nat}
    (h : assertCapacity target entries = .ok characters) : characterCount entries ≤ target.limit := by
  unfold assertCapacity refuse at h
  simp only at h
  split at h
  · cases h
  · exact not_lt.mp ‹_›

theorem assertCapacity_eq {entries : List JsString} (h : characterCount entries ≤ target.limit) :
    assertCapacity target entries = .ok (characterCount entries) := by
  unfold assertCapacity
  exact if_neg (not_lt.mpr h)

/-! ## Calls that commit -/

variable {rows : List (MemoryRow δ)} {id : Uuid}

/-- Ids are different, so one row has the id that was found. -/
theorem split_of_find (hids : (rows.map (·.id)).Nodup) {current : MemoryRow δ}
    (h : rows.find? (fun row => row.id = id) = some current) :
    current.id = id ∧ ∃ before after, rows = before ++ current :: after ∧ ∀ row ∈ before ++ after, row.id ≠ id := by
  have hid : current.id = id := by simpa using find?_some h
  obtain ⟨before, after, rfl⟩ := append_of_mem (mem_of_find?_eq_some h)
  refine ⟨hid, before, after, rfl, fun row hrow => ?_⟩
  rw [← hid]
  have hmoved : ((current :: (before ++ after)).map (·.id)).Nodup := (perm_middle.map _).nodup_iff.mp hids
  rw [map_cons, nodup_cons] at hmoved
  exact fun hsame => hmoved.1 (hsame ▸ mem_map_of_mem hrow)

theorem map_others {before after : List (MemoryRow δ)} {current : MemoryRow δ}
    (h : ∀ row ∈ before ++ after, row.id ≠ current.id) (next : MemoryRow δ) :
    (before ++ current :: after).map (fun row => if row.id = current.id then next else row)
      = before ++ next :: after := by
  have hsame : ∀ rows : List (MemoryRow δ), (∀ row ∈ rows, row.id ≠ current.id) →
      rows.map (fun row => if row.id = current.id then next else row) = rows :=
    fun rows hrows => (map_congr_left fun row hrow => if_neg (hrows row hrow)).trans (map_id' rows)
  rw [map_append, map_cons, if_pos rfl,
    hsame before fun row hrow => h row (mem_append_left _ hrow),
    hsame after fun row hrow => h row (mem_append_right _ hrow)]

variable [DecidableEq δ] (sha256 : JsString → δ)

/-- A call saves `content` for `target` beside `others`. -/
structure Fits (target : AgentMemoryTarget) (raw : JsString) (others : List (MemoryRow δ))
    (content : JsString) : Prop where
  normal : normalizeContent target raw = .ok content
  new : ∀ row ∈ others, row.target = target → row.contentSha256 ≠ sha256 (utf8 content)
  room : characterCount (stored target others ++ [content]) ≤ target.limit

variable {done : Committed δ} {now : Time}

/-- The rows after an addition that commits. -/
theorem add_cases {raw : JsString} (h : add sha256 rows target raw id now = .ok done) :
    (done.1 = rows ∧ done.2.changed = false) ∨ ∃ content, Fits sha256 target raw rows content ∧
    (∀ row ∈ rows, row.id ≠ id) ∧ done.2.changed = true ∧
    done.1 = rows ++ [⟨id, target, utf8 content, sha256 (utf8 content), 1, now, now⟩] := by
  obtain ⟨content, hnormal, h⟩ := bind_ok h
  simp only at h
  split at h
  · cases h
    exact .inl ⟨rfl, rfl⟩
  · rename_i hnew
    obtain ⟨characters, hroom, h⟩ := bind_ok h
    split at h
    · cases h
    · rename_i hid
      cases h
      refine .inr ⟨content, ⟨hnormal, fun row hrow htarget hhash => hnew ?_, assertCapacity_ok hroom⟩,
        fun row hrow hsame => hid ?_, rfl, rfl⟩
      · exact any_eq_true.mpr ⟨row, hrow, by simp [htarget, hhash]⟩
      · exact any_eq_true.mpr ⟨row, hrow, by simp [hsame]⟩

theorem add_fits (h : Fits sha256 target raw rows content) (hid : ∀ row ∈ rows, row.id ≠ id) :
    (add sha256 rows target raw id now).map (·.1)
      = .ok (rows ++ [⟨id, target, utf8 content, sha256 (utf8 content), 1, now, now⟩]) := by
  have hnew : (rows.any fun row => row.target = target && row.contentSha256 = sha256 (utf8 content))
      = false := by
    rw [any_eq_false]
    intro row hrow
    simpa using h.new row hrow
  have hfresh : (rows.any fun row => row.id = id) = false := by
    rw [any_eq_false]
    intro row hrow
    simpa using hid row hrow
  have hroom := assertCapacity_eq h.room
  unfold stored at hroom
  rw [add, h.normal]
  simp only [bind, Except.bind, hnew, hroom, hfresh]
  rfl

/-- The row that an update writes. -/
def updatedRow (current : MemoryRow δ) (target : AgentMemoryTarget) (content : JsString) (now : Time) :
    MemoryRow δ :=
  ⟨current.id, target, utf8 content, sha256 (utf8 content), current.version + 1, current.createdAt, now⟩

omit [DecidableEq δ] in
theorem stored_updated (before after : List (MemoryRow δ)) (row : MemoryRow δ) (h : row.target = target) :
    (stored target (before ++ row :: after)).Perm (stored target (before ++ after) ++ [row.content]) := by
  rw [stored_append, stored_cons, if_pos h, stored_append]
  exact perm_middle.trans (perm_append_singleton _ _).symm

/-- The rows after an update that commits. -/
theorem update_cases (hids : (rows.map (·.id)).Nodup) {expectedVersion : Nat} {raw : JsString}
    (h : update sha256 rows id expectedVersion target raw now = .ok done) : (done.1 = rows ∧ done.2.changed = false) ∨
    ∃ content before current after, rows = before ++ current :: after ∧ (∀ row ∈ before ++ after, row.id ≠ current.id) ∧
    current.id = id ∧ current.version = expectedVersion ∧ Fits sha256 target raw (before ++ after) content ∧
    done.2.changed = true ∧ done.1 = before ++ updatedRow sha256 current target content now :: after := by
  obtain ⟨content, hnormal, h⟩ := bind_ok h
  split at h
  · cases h
  · rename_i current hfind
    obtain ⟨rfl, before, after, rfl, hothers⟩ := split_of_find hids hfind
    split at h
    · cases h
    · rename_i hversion
      rw [not_not] at hversion
      subst hversion
      simp only at h
      split at h
      · cases h
      · rename_i hnew
        obtain ⟨characters, hroom, h⟩ := bind_ok h
        split at h
        · cases h
          exact .inl ⟨rfl, rfl⟩
        · rw [map_others hothers] at hroom
          cases h
          refine .inr ⟨content, before, current, after, rfl, hothers, rfl, rfl,
            ⟨hnormal, fun row hrow htarget hhash => hnew ?_, ?_⟩, rfl, map_others hothers _⟩
          · have hmem : row ∈ before ++ current :: after :=
              ((sublist_cons_self current after).append_left before).subset hrow
            exact any_eq_true.mpr ⟨row, hmem, by simp [htarget, hhash, hothers row hrow]⟩
          · rw [← characterCount_perm (stored_updated before after ⟨current.id, target, content,
              sha256 (utf8 content), current.version + 1, current.createdAt, now⟩ rfl)]
            exact assertCapacity_ok hroom

theorem update_fits {before after : List (MemoryRow δ)} {current : MemoryRow δ}
    (hothers : ∀ row ∈ before ++ after, row.id ≠ current.id)
    (h : Fits sha256 target raw (before ++ after) content) (hmoved : current.target ≠ target) :
    (update sha256 (before ++ current :: after) current.id current.version target raw now).map (·.1)
      = .ok (before ++ updatedRow sha256 current target content now :: after) := by
  have hfind : (before ++ current :: after).find? (fun row => row.id = current.id) = some current := by
    rw [find?_append, find?_eq_none.mpr]
    · simp
    · intro row hrow
      simpa using hothers row (mem_append_left _ hrow)
  have hnew : ((before ++ current :: after).any fun row =>
      row.id ≠ current.id && row.target = target && row.contentSha256 = sha256 (utf8 content)) = false := by
    rw [any_eq_false]
    intro row hrow
    rcases mem_append.mp hrow with hrow | hrow
    · simpa using fun _ => h.new row (mem_append_left _ hrow)
    · rcases mem_cons.mp hrow with rfl | hrow
      · simp
      · simpa using fun _ => h.new row (mem_append_right _ hrow)
  have hcount := characterCount_perm (stored_updated before after
    ⟨current.id, target, content, sha256 (utf8 content), current.version + 1, current.createdAt, now⟩ rfl)
  have hroom := assertCapacity_eq (hcount.trans_le h.room)
  unfold stored at hroom
  rw [update, h.normal]
  simp only [bind, Except.bind, hfind, hnew, map_others hothers, hroom, hmoved, ne_eq, not_true_eq_false,
    if_false, decide_false, Bool.false_and, Bool.false_eq_true]
  rfl

omit [DecidableEq δ] in
theorem remove_cases {expectedVersion : Nat} (h : remove rows id expectedVersion = .ok done) :
    done.1.Sublist rows ∧ done.2.changed = true := by
  unfold remove at h
  split at h
  · cases h
  · split at h
    · cases h
    · cases h
      exact ⟨filter_sublist, rfl⟩

/-! ## What is kept -/

/-- A content that was accepted, as the database has it. -/
def Accepted (content : JsString) : Prop :=
  ∃ source, content = utf8 source ∧ source ≠ [] ∧ containsForbiddenUnicode source = false

/-- What holds of the rows between transactions. -/
structure Kept (rows : List (MemoryRow δ)) : Prop where
  ids : (rows.map (·.id)).Nodup
  hashed : ∀ row ∈ rows, row.contentSha256 = sha256 row.content
  accepted : ∀ row ∈ rows, Accepted row.content
  distinct : rows.Pairwise fun left right => left.target = right.target → left.content ≠ right.content
  capacity : ∀ target, characterCount (stored target rows) ≤ target.limit

variable {sha256}

omit [DecidableEq δ] in
theorem Kept.nil : Kept sha256 [] where
  ids := nodup_nil
  hashed := by simp
  accepted := by simp
  distinct := Pairwise.nil
  capacity target := Nat.zero_le _

omit [DecidableEq δ] in
theorem Kept.sublist {rows rows' : List (MemoryRow δ)} (h : Kept sha256 rows) (hsub : rows'.Sublist rows) :
    Kept sha256 rows' where
  ids := h.ids.sublist (hsub.map _)
  hashed row hrow := h.hashed row (hsub.subset hrow)
  accepted row hrow := h.accepted row (hsub.subset hrow)
  distinct := h.distinct.sublist hsub
  capacity target := (characterCount_sublist (stored_sublist target hsub)).trans (h.capacity target)

omit [DecidableEq δ] in
theorem stored_perm (target : AgentMemoryTarget) {rows rows' : List (MemoryRow δ)} (h : rows.Perm rows') :
    (stored target rows).Perm (stored target rows') :=
  (h.filter _).map _

omit [DecidableEq δ] in
theorem Kept.perm {rows rows' : List (MemoryRow δ)} (h : Kept sha256 rows) (hperm : rows.Perm rows') :
    Kept sha256 rows' where
  ids := (hperm.map _).nodup_iff.mp h.ids
  hashed row hrow := h.hashed row (hperm.mem_iff.mpr hrow)
  accepted row hrow := h.accepted row (hperm.mem_iff.mpr hrow)
  distinct := by
    refine (hperm.pairwise_iff fun hne htarget hsame => ?_).mp h.distinct
    exact hne htarget.symm hsame.symm
  capacity target := (characterCount_perm (stored_perm target hperm)).symm.trans_le (h.capacity target)

omit [DecidableEq δ] in
/-- A content that fits is saved beside the others. -/
theorem Kept.insert {others : List (MemoryRow δ)} (h : Kept sha256 others)
    (hfits : Fits sha256 target raw others content) {row : MemoryRow δ}
    (hid : ∀ other ∈ others, other.id ≠ row.id) (htarget : row.target = target)
    (hcontent : row.content = utf8 content) (hhash : row.contentSha256 = sha256 (utf8 content)) :
    Kept sha256 (others ++ [row]) where
  ids := by
    rw [map_append, nodup_append]
    refine ⟨h.ids, by simp, fun id hmem id' hrow => ?_⟩
    obtain ⟨other, hother, rfl⟩ := mem_map.mp hmem
    rw [map_singleton, mem_singleton] at hrow
    exact hrow ▸ hid other hother
  hashed other hother := by
    rcases mem_append.mp hother with hother | hother
    · exact h.hashed other hother
    · rw [mem_singleton.mp hother, hhash, hcontent]
  accepted other hother := by
    obtain ⟨hne, -, hclean⟩ := normalizeContent_ok hfits.normal
    rcases mem_append.mp hother with hother | hother
    · exact h.accepted other hother
    · rw [mem_singleton.mp hother]
      exact ⟨content, hcontent, hne, hclean⟩
  distinct := by
    refine pairwise_append.mpr ⟨h.distinct, pairwise_singleton _ _, ?_⟩
    intro other hother last hlast hsame hequal
    rw [mem_singleton] at hlast
    subst hlast
    refine hfits.new other hother (hsame.trans htarget) ?_
    rw [h.hashed other hother, hequal, hcontent]
  capacity target' := by
    rw [stored_append, stored_cons]
    by_cases hsame : row.target = target'
    · subst htarget hsame
      rw [if_pos rfl, stored_nil]
      refine le_of_eq_of_le (characterCount_lengths ?_) hfits.room
      simp [hcontent]
    · rw [if_neg hsame, stored_nil, append_nil]
      exact h.capacity target'

/-! ## One transaction -/

section
variable (sha256)

/-- A call saves a content for a target that does not hold its entry. -/
def Enters (rows : List (MemoryRow δ)) (id : Uuid) : Call → AgentMemoryTarget → Prop
  | .add target raw, entered =>
    target = entered ∧ (∃ content, Fits sha256 target raw rows content) ∧ ∀ row ∈ rows, row.id ≠ id
  | .update id expectedVersion target raw, entered =>
    target = entered ∧ ∃ before current after content, rows = before ++ current :: after
      ∧ current.id = id ∧ current.version = expectedVersion ∧ current.target ≠ target
      ∧ Fits sha256 target raw (before ++ after) content
  | .remove _ _, _ => False
  | .clear, _ => False

/-- What one transaction that commits does to the rows. -/
structure Committing (rows : List (MemoryRow δ)) (call : Call) (id : Uuid)
    (done : List (MemoryRow δ) × Option AgentMemoryMutationResult) : Prop where
  kept : Kept sha256 done.1
  versions : ∀ row ∈ rows, ∀ row' ∈ done.1, row'.id = row.id → row' = row ∨ row.version < row'.version
  unchanged : ∀ result, done.2 = some result → result.changed = false → done.1 = rows
  entered : ∀ target, (stored target done.1).length ≤ (stored target rows).length
    ∨ Enters sha256 rows id call target ∧ (stored target done.1).length = (stored target rows).length + 1
end

omit [DecidableEq δ] in
theorem eq_of_id (hids : (rows.map (·.id)).Nodup) {row row' : MemoryRow δ} (hrow : row ∈ rows)
    (hrow' : row' ∈ rows) (h : row'.id = row.id) : row' = row :=
  inj_on_of_nodup_map hids hrow' hrow h

omit [DecidableEq δ] in
theorem Committing.same (h : Kept sha256 rows) (call : Call) (id : Uuid)
    (result : Option AgentMemoryMutationResult) : Committing sha256 rows call id (rows, result) where
  kept := h
  versions _ hrow _ hrow' hsame := .inl (eq_of_id h.ids hrow hrow' hsame)
  unchanged _ _ _ := rfl
  entered _ := .inl le_rfl

omit [DecidableEq δ] in
theorem Committing.fewer {rows rows' : List (MemoryRow δ)} (h : Kept sha256 rows) (hsub : rows'.Sublist rows)
    (call : Call) (id : Uuid) {result : Option AgentMemoryMutationResult}
    (hchanged : ∀ answer, result = some answer → answer.changed = true) :
    Committing sha256 rows call id (rows', result) where
  kept := h.sublist hsub
  versions _ hrow _ hrow' hsame := .inl (eq_of_id h.ids hrow (hsub.subset hrow') hsame)
  unchanged answer hresult hfalse := nomatch (hchanged answer hresult).symm.trans hfalse
  entered target := .inl (stored_sublist target hsub).length_le

theorem committing_add (h : Kept sha256 rows) {raw : JsString} (hadd : add sha256 rows target raw id now = .ok done) :
    Committing sha256 rows (.add target raw) id (done.1, some done.2) := by
  obtain ⟨rows', result⟩ := done
  rcases add_cases sha256 hadd with ⟨hrows, hchanged⟩ | ⟨content, hfits, hid, hchanged, hrows⟩
  · cases hrows
    exact Committing.same h _ _ _
  · obtain rfl : rows' = _ := hrows
    refine ⟨h.insert hfits hid rfl rfl rfl, fun row hrow row' hrow' hsame => ?_, fun answer hanswer hfalse => ?_,
      fun entered => ?_⟩
    · rcases mem_append.mp hrow' with hrow' | hrow'
      · exact .inl (eq_of_id h.ids hrow hrow' hsame)
      · rw [mem_singleton] at hrow'
        exact absurd (hsame.symm.trans (congrArg (·.id) hrow')) (hid row hrow)
    · cases hanswer
      exact nomatch hchanged.symm.trans hfalse
    · rw [stored_append, length_append, stored_cons]
      by_cases hentered : target = entered
      · exact .inr ⟨⟨hentered, ⟨content, hfits⟩, hid⟩, by simp [hentered]⟩
      · exact .inl (by simp [hentered])

theorem committing_update (h : Kept sha256 rows) {raw : JsString} {expectedVersion : Nat}
    (hupdate : update sha256 rows id expectedVersion target raw now = .ok done) (id' : Uuid) :
    Committing sha256 rows (.update id expectedVersion target raw) id' (done.1, some done.2) := by
  obtain ⟨rows', result⟩ := done
  rcases update_cases sha256 h.ids hupdate with ⟨hrows, hchanged⟩
    | ⟨content, before, current, after, rfl, hothers, hid, hversion, hfits, hchanged, hrows⟩
  · cases hrows
    exact Committing.same h _ _ _
  · obtain rfl : rows' = _ := hrows
    have hsub : (before ++ after).Sublist (before ++ current :: after) :=
      (sublist_cons_self current after).append_left before
    have hinsert : Kept sha256 (before ++ after ++ [updatedRow sha256 current target content now]) :=
      (h.sublist hsub).insert hfits hothers rfl rfl rfl
    refine ⟨hinsert.perm ((perm_append_singleton _ _).trans perm_middle.symm),
      fun row hrow row' hrow' hsame => ?_, fun answer hanswer hfalse => ?_, fun entered => ?_⟩
    · by_cases hcurrent : row = current
      · subst hcurrent
        rcases mem_append.mp hrow' with hrow' | hrow'
        · exact absurd hsame (hothers row' (mem_append_left _ hrow'))
        · rcases mem_cons.mp hrow' with rfl | hrow'
          · exact .inr (Nat.lt_succ_self _)
          · exact absurd hsame (hothers row' (mem_append_right _ hrow'))
      · have hother : row ∈ before ++ after := by
          have := perm_middle.mem_iff.mp hrow
          exact (mem_cons.mp this).resolve_left hcurrent
        rcases mem_cons.mp (perm_middle.mem_iff.mp hrow') with rfl | hrow'
        · exact absurd hsame.symm (hothers row hother)
        · exact .inl (eq_of_id h.ids hrow (hsub.subset hrow') hsame)
    · cases hanswer
      exact nomatch hchanged.symm.trans hfalse
    · by_cases hmoved : current.target = target
      · refine .inl ?_
        rw [stored_append, stored_append, stored_cons, stored_cons]
        by_cases hentered : target = entered <;> simp [hmoved, hentered, updatedRow]
      · rw [stored_append, stored_append, stored_cons, stored_cons]
        by_cases hentered : target = entered
        · refine .inr ⟨⟨hentered, before, current, after, content, rfl, hid, hversion, hmoved, hfits⟩, ?_⟩
          rw [hentered] at hmoved
          simp [hmoved, hentered, updatedRow, Nat.add_assoc]
        · refine .inl ?_
          by_cases hleft : current.target = entered <;> simp [hleft, hentered, updatedRow]

/-- **One transaction.** -/
theorem committing (h : Kept sha256 rows) {call : Call} {done : List (MemoryRow δ) × Option AgentMemoryMutationResult}
    (hdone : perform sha256 rows call id now = .ok done) : Committing sha256 rows call id done := by
  cases call with
  | add target raw =>
    obtain ⟨added, hadd, rfl⟩ := map_ok hdone
    exact committing_add h hadd
  | update rowId expectedVersion target raw =>
    obtain ⟨updated, hupdate, rfl⟩ := map_ok hdone
    exact committing_update h hupdate id
  | remove rowId expectedVersion =>
    obtain ⟨removed, hremove, rfl⟩ := map_ok hdone
    obtain ⟨hsub, hchanged⟩ := remove_cases hremove
    exact Committing.fewer h hsub _ _ fun answer hanswer => Option.some.inj hanswer ▸ hchanged
  | clear =>
    cases hdone
    exact Committing.fewer h (nil_sublist rows) _ _ fun answer hanswer => nomatch hanswer

/-- A call that enters a target commits, and the target has one entry more. -/
theorem perform_enters (h : Kept sha256 rows) {call : Call} (henters : Enters sha256 rows id call target) (now : Time) :
    ∃ done, perform sha256 rows call id now = .ok done ∧
    (stored target done.1).length = (stored target rows).length + 1 := by
  cases call with
  | add into raw =>
    obtain ⟨rfl, ⟨content, hfits⟩, hid⟩ := henters
    have hrows : (add sha256 rows into raw id now).map (·.1) = .ok _ := add_fits sha256 hfits hid
    obtain ⟨added, hadd, hadded⟩ := map_ok hrows
    refine ⟨(added.1, some added.2), by rw [perform, hadd, Except.map], ?_⟩
    rw [hadded, stored_append, stored_cons]
    simp
  | update rowId expectedVersion into raw =>
    obtain ⟨rfl, before, current, after, content, rfl, rfl, rfl, hmoved, hfits⟩ := henters
    have hothers : ∀ row ∈ before ++ after, row.id ≠ current.id := by
      have hids : ((current :: (before ++ after)).map (·.id)).Nodup := (perm_middle.map _).nodup_iff.mp h.ids
      rw [map_cons, nodup_cons] at hids
      exact fun row hrow hsame => hids.1 (hsame ▸ mem_map_of_mem hrow)
    have hrows : (update sha256 (before ++ current :: after) current.id current.version into raw now).map
        (·.1) = .ok _ := update_fits sha256 hothers hfits hmoved
    obtain ⟨updated, hupdate, hupdated⟩ := map_ok hrows
    refine ⟨(updated.1, some updated.2), by rw [perform, hupdate, Except.map], ?_⟩
    rw [hupdated, stored_append, stored_append, stored_cons, stored_cons, if_neg hmoved]
    simp [updatedRow, Nat.add_assoc]
  | remove | clear => exact henters.elim

end TsEpistle.Agents.Memory
