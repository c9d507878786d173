import TsEpistle.Search.Pagination
import TsEpistle.Library.Checked

/-! A search followed from page to page gives every row once, in the order of its first result. The runs keep for every
snapshot the call that made it. -/

namespace TsEpistle.Search
open Library Checked Json List Option

/-! ## Cursors -/

variable {token : JsString}

theorem isToken_length (h : isToken token = true) : token.length = 36 := by
  unfold isToken at h
  simpa using (Bool.and_eq_true_iff.mp h).1

/-- A cursor that a page gave out names its own token and offset. -/
theorem parseCursor_cursorText {token token' : JsString} {offset offset' : Nat} (htoken : isToken token = true)
    (h : parseCursor (cursorText token offset) = some (token', offset')) : token' = token ∧ offset' = offset := by
  have hlength := isToken_length htoken
  have htake : (cursorText token offset).take 36 = token := by
    rw [cursorText, take_append_of_le_length (by omega), ← hlength, take_length]
  have hdrop : (cursorText token offset).drop 37 = decimal offset := by
    rw [cursorText, drop_append, hlength, drop_eq_nil_of_le (by omega)]
    rfl
  unfold parseCursor at h
  simp only [htake, hdrop] at h
  split at h
  · obtain ⟨rfl, rfl⟩ := Prod.mk.inj (Option.some.inj h)
    exact ⟨rfl, decimalValue_decimal offset⟩
  · cases h

/-! ## Distinct keys -/

theorem mem_distinct {κ : Type} [DecidableEq κ] {key : κ} {keys : List κ} : key ∈ distinct keys ↔ key ∈ keys := by
  induction keys with
  | nil => exact Iff.rfl
  | cons other keys ih =>
    rw [distinct, mem_cons, mem_cons, mem_filter, ih]
    by_cases hkey : key = other
    · simp [hkey]
    · simp [hkey]

theorem nodup_distinct {κ : Type} [DecidableEq κ] (keys : List κ) : (distinct keys).Nodup := by
  induction keys with
  | nil => exact nodup_nil
  | cons key keys ih =>
    rw [distinct, nodup_cons]
    exact ⟨by simp, ih.filter _⟩

theorem distinct_length_le {κ : Type} [DecidableEq κ] (keys : List κ) : (distinct keys).length ≤ keys.length := by
  induction keys with
  | nil => exact Nat.le_refl 0
  | cons key keys ih =>
    have hfilter := length_filter_le (· ≠ key) (distinct keys)
    rw [distinct, length_cons, length_cons]
    omega

/-! ## Snapshots -/

variable {snapshots : Snapshots} {snapshot : Snapshot}

theorem getSnapshot_mem (h : getSnapshot token snapshots = some snapshot) : (token, snapshot) ∈ snapshots := by
  unfold getSnapshot at h
  obtain ⟨⟨token', snapshot'⟩, hentry, rfl⟩ := map_eq_some_iff.mp h
  have htoken : token' = token := by simpa using find?_some hentry
  rw [← htoken]
  exact mem_of_find?_eq_some hentry

theorem mem_setSnapshot {entry : JsString × Snapshot} (h : entry ∈ setSnapshot token snapshot snapshots) :
    entry = (token, snapshot) ∨ entry ∈ snapshots := by
  unfold setSnapshot at h
  split at h
  · obtain ⟨old, hold, rfl⟩ := List.mem_map.mp h
    split
    · exact .inl rfl
    · exact .inr hold
  · rcases mem_append.mp h with hentry | hentry
    · exact .inr hentry
    · exact .inl (mem_singleton.mp hentry)

theorem mem_evict {entry : JsString × Snapshot} (h : entry ∈ evict snapshots) : entry ∈ snapshots := by
  induction snapshots with
  | nil => exact h
  | cons first snapshots ih =>
    rw [evict] at h
    split at h
    · exact mem_cons_of_mem _ (ih h)
    · exact h

theorem mem_purge {now : Int} {entry : JsString × Snapshot} :
    entry ∈ purge now snapshots ↔ entry ∈ snapshots ∧ now < entry.2.expiresAt := by
  simp [purge]

/-! ## The beginning of a call -/

variable {call : Call}

/-- What a call that goes on to its search has found. -/
theorem begin_ok {waiting : Waiting} (h : begin call token snapshots = .ok waiting) :
    (call.continues = none ∧ waiting = ⟨call, token, 0, none⟩) ∨
      ∃ cursor token' offset snapshot, call.cursor = some cursor ∧ parseCursor cursor = some (token', offset)
        ∧ (token', snapshot) ∈ snapshots ∧ snapshot.owner = call.owner ∧ snapshot.queryKey = call.queryKey
        ∧ offset ≤ snapshot.identities.length ∧ waiting = ⟨call, token', offset, some snapshot⟩ := by
  unfold begin at h
  cases hcontinues : call.continues with
  | none =>
    rw [hcontinues] at h
    exact .inl ⟨rfl, (Except.ok.inj h).symm⟩
  | some cursor =>
    rw [hcontinues] at h
    have hcursor : call.cursor = some cursor := (filter_eq_some_iff.mp hcontinues).1
    cases hparse : parseCursor cursor with
    | none => simp [hparse] at h
    | some parsed =>
      obtain ⟨token', offset⟩ := parsed
      cases hsnapshot : getSnapshot token' snapshots with
      | none => simp [hparse, hsnapshot] at h
      | some snapshot =>
        simp only [hparse, hsnapshot] at h
        obtain ⟨hscope, h⟩ := guard_ok h
        obtain ⟨hoffset, h⟩ := guard_ok h
        rw [not_or, not_not, not_not] at hscope
        exact .inr ⟨cursor, token', offset, snapshot, hcursor, hparse, getSnapshot_mem hsnapshot, hscope.1,
          hscope.2,
          by omega, (Except.ok.inj h).symm⟩

/-- A cursor without a snapshot is refused. -/
theorem begin_expired {token token' cursor : JsString} {offset : Nat} (hcursor : call.continues = some cursor)
    (hparse : parseCursor cursor = some (token', offset)) (hgone : ∀ snapshot, (token', snapshot) ∉ snapshots) :
    begin call token snapshots = .error expired := by
  have hnone : getSnapshot token' snapshots = none := by
    cases hsnapshot : getSnapshot token' snapshots with
    | none => rfl
    | some snapshot => exact absurd (getSnapshot_mem hsnapshot) (hgone snapshot)
  simp only [begin, hcursor, hparse, hnone]

section
variable {ρ ν : Type} (numbers : Numbers ν) (pageId : ν → Option Nat) (view : ρ → SearchRow ν)

/-! ## One page -/

variable {response : SearchWindow ρ}

theorem currentRow_some {key : JsString} {row : ρ} (h : currentRow numbers view response key = some row) :
    row ∈ response.results ∧ identity numbers view row = key := by
  unfold currentRow at h
  exact ⟨mem_reverse.mp (mem_of_find?_eq_some h), by simpa using find?_some h⟩

theorem currentRow_isSome {key : JsString} :
    (currentRow numbers view response key).isSome = true ↔ key ∈ response.results.map (identity numbers view) := by
  unfold currentRow
  rw [find?_isSome, List.mem_map]
  simp

/-- A page takes the rows of the identities that it passes. -/
theorem select_eq (current : JsString → Option ρ) (keys : List JsString) (room : Nat) :
    (select current keys room).1 = (keys.take (select current keys room).2).filterMap current := by
  fun_induction select current keys room with
  | case1 => rfl
  | case2 => rfl
  | case3 key keys room row hrow ih =>
    rw [take_succ_cons, filterMap_cons_some hrow, ← ih]
  | case4 key keys room hrow ih =>
    rw [take_succ_cons, filterMap_cons_none hrow, ← ih]

theorem select_pos (current : JsString → Option ρ) {keys : List JsString} (hkeys : keys ≠ []) (room : Nat) :
    0 < (select current keys (room + 1)).2 := by
  cases keys with
  | nil => exact absurd rfl hkeys
  | cons key keys =>
    rw [select]
    cases current key with
    | some | none => exact Nat.succ_pos _

/-- The identities of the rows that a page gives. -/
def Answered.keys (answered : Answered ρ) : List JsString :=
  answered.page.window.results.map (identity numbers view)

/-- The number of identities that are passed before the page ends. -/
def Answered.passed (answered : Answered ρ) : Nat :=
  (select (currentRow numbers view answered.response) (answered.snapshot.identities.drop answered.offset) PAGE_SIZE).2

/-- The identity was among the rows that the search of this call gave. -/
def Answered.Present (answered : Answered ρ) (key : JsString) : Prop :=
  key ∈ answered.response.results.map (identity numbers view)

/-- The page was cut as the code cuts it. -/
def Answered.Cut (answered : Answered ρ) : Prop :=
  answered.page = Search.page numbers view answered.token answered.offset answered.snapshot answered.response

variable {numbers pageId view}

variable {answered : Answered ρ}

theorem Answered.Cut.rows (h : answered.Cut numbers view) :
    ∀ row ∈ answered.page.window.results, row ∈ answered.response.results := by
  intro row hrow
  rw [h] at hrow
  simp only [Search.page, select_eq] at hrow
  obtain ⟨key, -, hkey⟩ := mem_filterMap.mp hrow
  exact (currentRow_some numbers view hkey).1

/-- The identities of a page are those of its stretch of the snapshot that are there now. -/
theorem Answered.Cut.keys_eq (h : answered.Cut numbers view) :
    answered.keys numbers view =
      ((answered.snapshot.identities.drop answered.offset).take (answered.passed numbers view)).filter
        fun key => (currentRow numbers view answered.response key).isSome := by
  have hmap : ∀ keys : List JsString,
      (keys.filterMap (currentRow numbers view answered.response)).map (identity numbers view) =
        keys.filter fun key => (currentRow numbers view answered.response key).isSome := by
    intro keys
    induction keys with
    | nil => rfl
    | cons key keys ih =>
      cases hrow : currentRow numbers view answered.response key with
      | none => rw [filterMap_cons_none hrow, ih, filter_cons_of_neg (by simp [hrow])]
      | some row =>
        rw [filterMap_cons_some hrow, map_cons, ih, (currentRow_some numbers view hrow).2,
          filter_cons_of_pos (by simp [hrow])]
  unfold Answered.keys
  rw [h]
  simp only [Search.page, select_eq]
  rw [hmap]
  rfl

theorem Answered.Cut.mem_keys (h : answered.Cut numbers view) {key : JsString}
    (hkey : key ∈ (answered.snapshot.identities.drop answered.offset).take (answered.passed numbers view))
    (hpresent : answered.Present numbers view key) : key ∈ answered.keys numbers view := by
  rw [h.keys_eq, mem_filter]
  exact ⟨hkey, (currentRow_isSome numbers view).mpr hpresent⟩

/-- The next cursor names the place behind the page, where an identity is left that is there now. -/
theorem Answered.Cut.next (h : answered.Cut numbers view) {cursor : JsString}
    (hcursor : answered.page.nextCursor = some cursor) :
    cursor = cursorText answered.token (answered.offset + answered.passed numbers view)
      ∧ answered.offset + answered.passed numbers view < answered.snapshot.identities.length := by
  rw [h] at hcursor
  simp only [Search.page] at hcursor
  split at hcursor
  · rename_i hmore
    refine ⟨(Option.some.inj hcursor).symm, ?_⟩
    obtain ⟨key, hkey, -⟩ := List.any_eq_true.mp hmore
    have hlength := length_pos_of_mem hkey
    rw [length_drop] at hlength
    have hpassed : answered.passed numbers view = (select (currentRow numbers view answered.response)
      (answered.snapshot.identities.drop answered.offset) PAGE_SIZE).2 := rfl
    omega
  · cases hcursor

/-- Without a next cursor, no identity is left that is there now. -/
theorem Answered.Cut.finished (h : answered.Cut numbers view) (hcursor : answered.page.nextCursor = none)
    {key : JsString} (hkey : key ∈ answered.snapshot.identities.drop (answered.offset + answered.passed numbers view)) :
    ¬ answered.Present numbers view key := by
  intro hpresent
  rw [h] at hcursor
  simp only [Search.page] at hcursor
  have hmore : ((answered.snapshot.identities.drop (answered.offset + answered.passed numbers view)).any
      fun key => (currentRow numbers view answered.response key).isSome) = true :=
    List.any_eq_true.mpr ⟨key, hkey, (currentRow_isSome numbers view).mpr hpresent⟩
  rw [Answered.passed] at hmore
  rw [if_pos hmore] at hcursor
  cases hcursor

theorem Answered.passed_pos (h : answered.offset < answered.snapshot.identities.length) :
    0 < answered.passed numbers view := by
  refine select_pos _ ?_ 19
  intro hnil
  have hlength := congrArg List.length hnil
  rw [length_drop, length_nil] at hlength
  omega

/-! ## Following the cursors -/

/-- The second call came with the next cursor of the first. -/
def Follows (earlier later : Answered ρ) : Prop :=
  ∃ cursor, earlier.page.nextCursor = some cursor ∧ later.call.cursor = some cursor

variable (numbers view) in
/-- The pages are cut from one snapshot, each behind the one before. -/
def Successive (earlier later : Answered ρ) : Prop :=
  later.snapshot = earlier.snapshot ∧ later.offset = earlier.offset + earlier.passed numbers view
    ∧ later.offset < later.snapshot.identities.length

variable (numbers view) in
/-- The identities that the pages give, one page after the other. -/
def keysOf (pages : List (Answered ρ)) : List JsString := pages.flatMap (Answered.keys numbers view)

variable {rest : List (Answered ρ)}

/-- Pages that follow each other give identities of the rest of the snapshot, in its order. -/
theorem keysOf_sublist {first : Answered ρ} (hcut : ∀ answered ∈ first :: rest, answered.Cut numbers view)
    (h : List.IsChain (Successive numbers view) (first :: rest)) :
    (keysOf numbers view (first :: rest)).Sublist (first.snapshot.identities.drop first.offset) := by
  have htake : (first.keys numbers view).Sublist
      ((first.snapshot.identities.drop first.offset).take (first.passed numbers view)) := by
    rw [(hcut first mem_cons_self).keys_eq]
    exact filter_sublist
  induction rest generalizing first with
  | nil =>
    rw [keysOf, flatMap_cons, flatMap_nil, append_nil]
    exact htake.trans (take_sublist _ _)
  | cons next rest ih =>
    obtain ⟨⟨hsnapshot, hoffset, -⟩, hrest⟩ := isChain_cons_cons.mp h
    have hnext : (next.keys numbers view).Sublist
        ((next.snapshot.identities.drop next.offset).take (next.passed numbers view)) := by
      rw [(hcut next (by simp)).keys_eq]
      exact filter_sublist
    have htail := ih (fun answered hanswered => hcut answered (mem_cons_of_mem _ hanswered)) hrest hnext
    rw [hsnapshot, hoffset, ← drop_drop] at htail
    have happend := htake.append htail
    rwa [List.take_append_drop] at happend

/-- The pages are no more than the identities that are left, and one. -/
theorem successive_length {first : Answered ρ} (h : List.IsChain (Successive numbers view) (first :: rest))
    (hfirst : first.offset < first.snapshot.identities.length) :
    rest.length + first.offset < first.snapshot.identities.length := by
  induction rest generalizing first with
  | nil =>
    rw [length_nil]
    omega
  | cons next rest ih =>
    obtain ⟨⟨hsnapshot, hoffset, hlt⟩, hrest⟩ := isChain_cons_cons.mp h
    have hpassed : 0 < first.passed numbers view := Answered.passed_pos hfirst
    have htail := ih hrest hlt
    rw [hsnapshot] at htail
    rw [length_cons]
    omega

/-- When no cursor is left, each identity that was there in every call has been given. -/
theorem mem_keysOf {first : Answered ρ} (hcut : ∀ answered ∈ first :: rest, answered.Cut numbers view)
    (h : List.IsChain (Successive numbers view) (first :: rest))
    (hlast : ((first :: rest).getLast (cons_ne_nil _ _)).page.nextCursor = none) {key : JsString}
    (hkey : key ∈ first.snapshot.identities.drop first.offset)
    (hpresent : ∀ answered ∈ first :: rest, answered.Present numbers view key) :
    key ∈ keysOf numbers view (first :: rest) := by
  induction rest generalizing first with
  | nil =>
    rw [keysOf, flatMap_cons, flatMap_nil, append_nil]
    have hcut' := hcut first mem_cons_self
    rw [← List.take_append_drop (first.passed numbers view) (first.snapshot.identities.drop first.offset)] at hkey
    rcases mem_append.mp hkey with hkey | hkey
    · exact hcut'.mem_keys hkey (hpresent first mem_cons_self)
    · rw [drop_drop] at hkey
      exact absurd (hpresent first mem_cons_self) (hcut'.finished hlast hkey)
  | cons next rest ih =>
    obtain ⟨⟨hsnapshot, hoffset, -⟩, hrest⟩ := isChain_cons_cons.mp h
    have hcut' := hcut first mem_cons_self
    rw [keysOf, flatMap_cons, mem_append]
    rw [← List.take_append_drop (first.passed numbers view) (first.snapshot.identities.drop first.offset)] at hkey
    rcases mem_append.mp hkey with hkey | hkey
    · exact .inl (hcut'.mem_keys hkey (hpresent first mem_cons_self))
    · rw [drop_drop, ← hsnapshot, ← hoffset] at hkey
      rw [getLast_cons (cons_ne_nil _ _)] at hlast
      exact .inr (ih (fun answered hanswered => hcut answered (mem_cons_of_mem _ hanswered)) hrest hlast hkey
        fun answered hanswered => hpresent answered (mem_cons_of_mem _ hanswered))

/-! ## What every run keeps -/

/-- A continuation goes on from a snapshot of its owner and its query. -/
def Continues (answered : List (Answered ρ)) (call : Call) (token : JsString) (offset : Nat) (snapshot : Snapshot) :
    Prop :=
  ∃ first ∈ answered, first.first = true ∧ first.token = token ∧ first.snapshot = snapshot
    ∧ snapshot.owner = call.owner ∧ snapshot.queryKey = call.queryKey ∧ call.now < snapshot.expiresAt
    ∧ ∃ cursor, call.cursor = some cursor ∧ parseCursor cursor = some (token, offset)

theorem Continues.append {answered : List (Answered ρ)} {offset : Nat}
    (h : Continues answered call token offset snapshot) (more : List (Answered ρ)) :
    Continues (answered ++ more) call token offset snapshot := by
  obtain ⟨first, hfirst, h⟩ := h
  exact ⟨first, mem_append_left _ hfirst, h⟩

/-- The tokens of the searches that have begun. -/
def firstTokens (answered : List (Answered ρ)) (waiting : List Waiting) : List JsString :=
  (answered.filter Answered.first).map Answered.token
    ++ (waiting.filter fun waiting => waiting.snapshot.isNone).map Waiting.token

variable (numbers pageId view) in
structure Kept (state : State ρ) : Prop where
  stored : ∀ entry ∈ state.snapshots,
    ∃ first ∈ state.answered, first.first = true ∧ first.token = entry.1 ∧ first.snapshot = entry.2
  begun : ∀ waiting ∈ state.waiting, waiting.snapshot = none →
    waiting.offset = 0 ∧ waiting.call.continues = none ∧ isToken waiting.token = true
  continued : ∀ waiting ∈ state.waiting, ∀ snapshot, waiting.snapshot = some snapshot →
    Continues state.answered waiting.call waiting.token waiting.offset snapshot
  first : ∀ answered ∈ state.answered, answered.first = true →
    answered.offset = 0 ∧ answered.call.continues = none ∧ isToken answered.token = true
      ∧ answered.snapshot = newSnapshot numbers pageId view answered.call answered.response
  later : ∀ answered ∈ state.answered, answered.first = false →
    Continues state.answered answered.call answered.token answered.offset answered.snapshot
  cut : ∀ answered ∈ state.answered, answered.Cut numbers view
  used : ∀ token ∈ firstTokens state.answered state.waiting, token ∈ state.tokens
  nodup : (firstTokens state.answered state.waiting).Nodup

theorem kept_initial : Kept numbers pageId view (State.initial : State ρ) where
  stored := forall_mem_nil _
  begun := forall_mem_nil _
  continued := forall_mem_nil _
  first := forall_mem_nil _
  later := forall_mem_nil _
  cut := forall_mem_nil _
  used := forall_mem_nil _
  nodup := nodup_nil

variable {state : State ρ}

theorem start_error {error : SearchCursorError}
    (h : begin call token (purge call.now state.snapshots) = .error error) :
    state.start call token = { state with
      snapshots := purge call.now state.snapshots, failed := state.failed ++ [(call, error)],
      tokens := token :: state.tokens } := by
  simp only [State.start, h]

theorem start_ok {waiting : Waiting}
    (h : begin call token (purge call.now state.snapshots) = .ok waiting) :
    state.start call token = { state with
      snapshots := purge call.now state.snapshots, waiting := state.waiting ++ [waiting],
      tokens := token :: state.tokens } := by
  simp only [State.start, h]

theorem Kept.start (h : Kept numbers pageId view state) (call : Call) (htoken : isToken token = true)
    (hnew : token ∉ state.tokens) : Kept numbers pageId view (state.start call token) := by
  have hstored : ∀ entry ∈ purge call.now state.snapshots,
      ∃ first ∈ state.answered, first.first = true ∧ first.token = entry.1 ∧ first.snapshot = entry.2 :=
    fun entry hentry => h.stored entry (mem_purge.mp hentry).1
  cases hbegin : begin call token (purge call.now state.snapshots) with
  | error error =>
    rw [start_error hbegin]
    exact { h with
      stored := hstored
      used := fun token' htoken' => mem_cons_of_mem _ (h.used token' htoken') }
  | ok waiting =>
    rw [start_ok hbegin]
    obtain ⟨hcontinues, rfl⟩ | ⟨cursor, token', offset, snapshot, hcursor, hparse, hentry, howner, hquery, -, rfl⟩ :=
      begin_ok hbegin
    · have htokens : firstTokens state.answered (state.waiting ++ [⟨call, token, 0, none⟩]) =
          firstTokens state.answered state.waiting ++ [token] := by
        simp [firstTokens]
      refine { h with stored := hstored, begun := ?_, continued := ?_, used := ?_, nodup := ?_ }
      · exact forall_mem_append.mpr ⟨h.begun, forall_mem_singleton.mpr fun hnone => ⟨rfl, hcontinues, htoken⟩⟩
      · refine forall_mem_append.mpr ⟨h.continued, forall_mem_singleton.mpr ?_⟩
        intro snapshot hsnapshot
        cases hsnapshot
      · intro token' htoken'
        rw [htokens] at htoken'
        rcases mem_append.mp htoken' with htoken' | htoken'
        · exact mem_cons_of_mem _ (h.used token' htoken')
        · rw [mem_singleton.mp htoken']
          exact mem_cons_self
      · rw [htokens]
        refine nodup_append.mpr ⟨h.nodup, nodup_singleton token, ?_⟩
        intro token' htoken' other hother heq
        rw [mem_singleton.mp hother] at heq
        rw [heq] at htoken'
        exact hnew (h.used token htoken')
    · have htokens : firstTokens state.answered (state.waiting ++ [⟨call, token', offset, some snapshot⟩]) =
          firstTokens state.answered state.waiting := by
        simp [firstTokens]
      refine { h with stored := hstored, begun := ?_, continued := ?_, used := ?_, nodup := ?_ }
      · refine forall_mem_append.mpr ⟨h.begun, forall_mem_singleton.mpr ?_⟩
        intro hnone
        cases hnone
      · refine forall_mem_append.mpr ⟨h.continued, forall_mem_singleton.mpr ?_⟩
        intro other hother
        obtain rfl := Option.some.inj hother
        obtain ⟨first, hfirst, htrue, htoken', hsnapshot⟩ := hstored _ hentry
        exact ⟨first, hfirst, htrue, htoken', hsnapshot, howner, hquery, (mem_purge.mp hentry).2, cursor, hcursor,
          hparse⟩
      · intro other hother
        rw [htokens] at hother
        exact mem_cons_of_mem _ (h.used other hother)
      · rw [htokens]
        exact h.nodup

/-- A call that leaves without a page takes its token with it. -/
theorem firstTokens_eraseIdx_sublist (answered : List (Answered ρ)) (waiting : List Waiting) (index : Nat) :
    (firstTokens answered (waiting.eraseIdx index)).Sublist (firstTokens answered waiting) :=
  (Sublist.refl _).append (((eraseIdx_sublist waiting index).filter _).map _)

theorem Kept.reject (h : Kept numbers pageId view state) (index : Nat) :
    Kept numbers pageId view { state with waiting := state.waiting.eraseIdx index } := by
  have hsublist := firstTokens_eraseIdx_sublist state.answered state.waiting index
  exact { h with
    begun := fun waiting hwaiting => h.begun waiting (mem_of_mem_eraseIdx hwaiting)
    continued := fun waiting hwaiting => h.continued waiting (mem_of_mem_eraseIdx hwaiting)
    used := fun token htoken => h.used token (hsublist.subset htoken)
    nodup := h.nodup.sublist hsublist }

/-- The tokens stay the same when a search is answered. -/
theorem firstTokens_answer_perm (answered : List (Answered ρ)) {waiting : List Waiting} {index : Nat} {call : Waiting}
    (hindex : waiting[index]? = some call) {more : Answered ρ} (hfirst : more.first = call.snapshot.isNone)
    (htoken : more.token = call.token) :
    (firstTokens (answered ++ [more]) (waiting.eraseIdx index)).Perm (firstTokens answered waiting) := by
  obtain ⟨hlt, hcall⟩ := List.getElem?_eq_some_iff.mp hindex
  have hperm : (waiting.filter fun waiting => waiting.snapshot.isNone).Perm
      ((call :: waiting.eraseIdx index).filter fun waiting => waiting.snapshot.isNone) := by
    rw [← hcall]
    exact ((getElem_cons_eraseIdx_perm hlt).symm).filter _
  have htokens := (hperm.map Waiting.token).append_left ((answered.filter Answered.first).map Answered.token)
  refine Perm.trans ?_ htokens.symm
  unfold firstTokens
  rw [filter_append, map_append, append_assoc]
  refine Perm.append_left _ ?_
  cases hnone : call.snapshot.isNone with
  | true =>
    rw [filter_cons_of_pos (by rw [hfirst, hnone]), filter_nil, filter_cons_of_pos (by exact hnone),
      map_cons, map_cons, map_nil, htoken]
    exact Perm.refl _
  | false =>
    rw [filter_cons_of_neg (by simp [hfirst, hnone]), filter_nil, filter_cons_of_neg (by simp [hnone])]
    exact Perm.refl _

theorem answer_first {index : Nat} {offset : Nat}
    (h : snapshot = newSnapshot numbers pageId view call response) :
    state.answer numbers pageId view index ⟨call, token, offset, none⟩ response = { state with
      snapshots := setSnapshot token snapshot (evict state.snapshots)
      waiting := state.waiting.eraseIdx index
      answered := state.answered ++
        [⟨call, true, token, offset, snapshot, response, page numbers view token offset snapshot response⟩] } := by
  rw [h]
  rfl

theorem answer_later {index : Nat} {offset : Nat} :
    state.answer numbers pageId view index ⟨call, token, offset, some snapshot⟩ response = { state with
      waiting := state.waiting.eraseIdx index
      answered := state.answered ++
        [⟨call, false, token, offset, snapshot, response, page numbers view token offset snapshot response⟩] } := rfl

/-- An answer keeps what the runs keep when its own page does. -/
theorem Kept.append (h : Kept numbers pageId view state) {index : Nat} {waiting : Waiting}
    (hindex : state.waiting[index]? = some waiting) {more : Answered ρ}
    (hsnapshots : ∀ entry ∈ snapshots, entry ∈ state.snapshots
      ∨ more.first = true ∧ more.token = entry.1 ∧ more.snapshot = entry.2)
    (htoken : more.token = waiting.token) (hisNone : more.first = waiting.snapshot.isNone)
    (hbegun : more.first = true → more.offset = 0 ∧ more.call.continues = none ∧ isToken more.token = true
      ∧ more.snapshot = newSnapshot numbers pageId view more.call more.response)
    (hlater : more.first = false → Continues state.answered more.call more.token more.offset more.snapshot)
    (hcut : more.Cut numbers view) : Kept numbers pageId view { state with
      snapshots := snapshots, waiting := state.waiting.eraseIdx index, answered := state.answered ++ [more] } := by
  have hperm := firstTokens_answer_perm state.answered hindex hisNone htoken
  constructor
  case stored =>
    intro entry hentry
    rcases hsnapshots entry hentry with hentry | hentry
    · obtain ⟨first, hmem, hfirst⟩ := h.stored entry hentry
      exact ⟨first, mem_append_left _ hmem, hfirst⟩
    · exact ⟨more, mem_append_right _ mem_cons_self, hentry⟩
  case begun => exact fun other hother => h.begun other (mem_of_mem_eraseIdx hother)
  case continued =>
    intro other hother snapshot hsnapshot
    exact (h.continued other (mem_of_mem_eraseIdx hother) snapshot hsnapshot).append _
  case first =>
    exact forall_mem_append.mpr ⟨h.first, forall_mem_singleton.mpr fun hfirst => hbegun hfirst⟩
  case later =>
    intro answered hanswered hfirst
    rcases mem_append.mp hanswered with hanswered | hanswered
    · exact (h.later answered hanswered hfirst).append _
    · obtain rfl := mem_singleton.mp hanswered
      exact (hlater hfirst).append _
  case cut =>
    exact forall_mem_append.mpr ⟨h.cut, forall_mem_singleton.mpr hcut⟩
  case used => exact fun other hother => h.used other (hperm.subset hother)
  case nodup => exact hperm.nodup_iff.mpr h.nodup

theorem Kept.answer (h : Kept numbers pageId view state) {index : Nat} {waiting : Waiting}
    (hindex : state.waiting[index]? = some waiting) (response : SearchWindow ρ) :
    Kept numbers pageId view (state.answer numbers pageId view index waiting response) := by
  have hwaiting : waiting ∈ state.waiting := mem_of_getElem? hindex
  obtain ⟨call, token, offset, snapshot⟩ := waiting
  cases snapshot with
  | none =>
    obtain ⟨hoffset, hcontinues, htoken⟩ := h.begun _ hwaiting rfl
    generalize hsnapshot : newSnapshot numbers pageId view call response = snapshot
    rw [answer_first hsnapshot.symm]
    refine h.append hindex ?_ rfl rfl (fun _ => ⟨hoffset, hcontinues, htoken, hsnapshot.symm⟩) nofun rfl
    intro entry hentry
    rcases mem_setSnapshot hentry with rfl | hentry
    · exact .inr ⟨rfl, rfl, rfl⟩
    · exact .inl (mem_evict hentry)
  | some snapshot =>
    rw [answer_later]
    exact h.append hindex (fun entry hentry => .inl hentry) rfl rfl nofun (fun _ =>
      h.continued _ hwaiting snapshot rfl) rfl

theorem kept_of_reachable (h : (paginateSearch numbers pageId view).Reachable State.initial state) :
    Kept numbers pageId view state := by
  refine h.invariant kept_initial ?_
  intro op state hop hkept
  cases op with
  | start call token => exact hkept.start call hop.1 hop.2
  | reject index => exact hkept.reject index
  | answer index response =>
    simp only [paginateSearch]
    cases hindex : state.waiting[index]? with
    | none => exact hkept
    | some waiting => exact hkept.answer hindex response

/-! ## The search as a whole -/

/-- The search that a call goes on with is known by its token. -/
theorem Kept.first_unique (h : Kept numbers pageId view state) {first other : Answered ρ}
    (hfirst : first ∈ state.answered) (hother : other ∈ state.answered) (htrue : first.first = true)
    (htrue' : other.first = true) (htoken : first.token = other.token) : first = other :=
  inj_on_of_nodup_map (nodup_append.mp h.nodup).1 (mem_filter.mpr ⟨hfirst, htrue⟩)
    (mem_filter.mpr ⟨hother, htrue'⟩) htoken

/-- The first page of the search that an answer belongs to. -/
theorem Kept.origin (h : Kept numbers pageId view state) (hanswered : answered ∈ state.answered) :
    ∃ first ∈ state.answered, first.first = true ∧ first.token = answered.token
      ∧ first.snapshot = answered.snapshot := by
  cases hfirst : answered.first with
  | true => exact ⟨answered, hanswered, hfirst, rfl, rfl⟩
  | false =>
    obtain ⟨first, hmem, htrue, htoken, hsnapshot, -⟩ := h.later answered hanswered hfirst
    exact ⟨first, hmem, htrue, htoken, hsnapshot⟩

/-- The next cursor of a page leads to the page behind it. -/
theorem Kept.successive (h : Kept numbers pageId view state) {earlier later : Answered ρ}
    (hearlier : earlier ∈ state.answered) (hlater : later ∈ state.answered) (hfollows : Follows earlier later) :
    Successive numbers view earlier later ∧
    Continues state.answered later.call earlier.token later.offset earlier.snapshot := by
  obtain ⟨cursor, hnext, hcursor⟩ := hfollows
  obtain ⟨hcursor', hlt⟩ := (h.cut earlier hearlier).next hnext
  obtain ⟨first, hfirst, htrue, htoken, hsnapshot⟩ := h.origin hearlier
  have htokenForm : isToken earlier.token = true := htoken ▸ (h.first first hfirst htrue).2.2.1
  have hfalse : later.first = false := by
    cases hlaterFirst : later.first with
    | false => rfl
    | true =>
      have hcontinues := (h.first later hlater hlaterFirst).2.1
      rw [Call.continues, hcursor, hcursor', cursorText, filter_eq_none_iff] at hcontinues
      simp at hcontinues
  obtain ⟨first', hfirst', htrue', htoken', hsnapshot', howner, hquery, hnow, cursor', hcallCursor, hparse⟩ :=
    h.later later hlater hfalse
  obtain rfl : cursor = cursor' := Option.some.inj (hcursor.symm.trans hcallCursor)
  rw [hcursor'] at hparse
  obtain ⟨hlaterToken, hlaterOffset⟩ := parseCursor_cursorText htokenForm hparse
  obtain rfl := h.first_unique hfirst' hfirst htrue' htrue (by rw [htoken', hlaterToken, htoken])
  have hsame : later.snapshot = earlier.snapshot := hsnapshot'.symm.trans hsnapshot
  refine ⟨⟨hsame, hlaterOffset, ?_⟩, first', hfirst, htrue, htoken, hsnapshot, ?_, ?_, ?_, cursor, hcursor, ?_⟩
  · rw [hlaterOffset, hsame]
    exact hlt
  · rw [← hsame, howner]
  · rw [← hsame, hquery]
  · rw [← hsame]
    exact hnow
  · rw [hcursor', hparse, hlaterToken]

/-- The call was let through by the owner and the query of the search that gave out its cursor, in time. -/
def Honoured (answered : List (Answered ρ)) (call : Call) (cursor : JsString) : Prop :=
  ∃ first ∈ answered, ∃ offset, first.call.continues = none ∧ parseCursor cursor = some (first.token, offset)
    ∧ first.call.owner = call.owner ∧ first.call.queryKey = call.queryKey ∧ call.now < first.call.now + RETENTION

theorem Kept.honoured (h : Kept numbers pageId view state) {token cursor : JsString} {offset : Nat}
    (hcontinues : Continues state.answered call token offset snapshot)
    (hcursor : call.cursor = some cursor) : Honoured state.answered call cursor := by
  obtain ⟨first, hfirst, htrue, htoken, hsnapshot, howner, hquery, hnow, cursor', hcursor', hparse⟩ := hcontinues
  obtain rfl : cursor = cursor' := Option.some.inj (hcursor.symm.trans hcursor')
  obtain ⟨-, hnone, -, hnew⟩ := h.first first hfirst htrue
  rw [← hsnapshot, hnew] at howner hquery hnow
  exact ⟨first, hfirst, offset, hnone, htoken ▸ hparse, howner, hquery, hnow⟩

theorem Kept.isChain (h : Kept numbers pageId view state) {pages : List (Answered ρ)}
    (hpages : ∀ answered ∈ pages, answered ∈ state.answered) (hchain : List.IsChain Follows pages) :
    List.IsChain (Successive numbers view) pages := by
  induction pages with
  | nil => exact .nil
  | cons first rest ih =>
    have hrest := ih (fun answered hanswered => hpages answered (mem_cons_of_mem _ hanswered)) hchain.tail
    cases rest with
    | nil => exact .singleton first
    | cons next rest =>
      have hfollows := (isChain_cons_cons.mp hchain).1
      exact .cons_cons (h.successive (hpages first (by simp)) (hpages next (by simp)) hfollows).1 hrest

/-- All pages that follow a page are for the owner and the query of its snapshot, and before it expires. -/
theorem Kept.scope (h : Kept numbers pageId view state) {first : Answered ρ}
    (hpages : ∀ answered ∈ first :: rest, answered ∈ state.answered) (hchain : List.IsChain Follows (first :: rest)) :
    ∀ answered ∈ rest, first.snapshot.owner = answered.call.owner ∧ first.snapshot.queryKey = answered.call.queryKey ∧
    answered.call.now < first.snapshot.expiresAt := by
  induction rest generalizing first with
  | nil => exact fun _ hanswered => (not_mem_nil hanswered).elim
  | cons next rest ih =>
    intro answered hanswered
    obtain ⟨hfollows, hrest⟩ := isChain_cons_cons.mp hchain
    obtain ⟨⟨hsnapshot, -⟩, other, -, -, -, -, howner, hquery, hnow, -⟩ :=
      h.successive (hpages first (by simp)) (hpages next (by simp)) hfollows
    rcases mem_cons.mp hanswered with rfl | hanswered
    · exact ⟨howner, hquery, hnow⟩
    · rw [← hsnapshot]
      exact ih (fun answered hanswered => hpages answered (mem_cons_of_mem _ hanswered)) hrest answered hanswered

/-- A call without a cursor begins a search. -/
theorem Kept.begins (h : Kept numbers pageId view state) (hanswered : answered ∈ state.answered)
    (hnone : answered.call.continues = none) : answered.first = true := by
  cases hfirst : answered.first with
  | true => rfl
  | false =>
    obtain ⟨first, -, -, -, -, -, -, -, cursor, hcursor, hparse⟩ := h.later answered hanswered hfirst
    rw [Call.continues, hcursor, filter_eq_none_iff] at hnone
    obtain rfl : cursor = [] := by simpa using hnone
    cases hparse

end

end TsEpistle.Search
