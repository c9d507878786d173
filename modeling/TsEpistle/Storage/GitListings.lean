import TsEpistle.Storage.GitStreams

/-! What is admitted lists the records of the output one by one, each path with its own bytes unless a byte order mark
stands before it. -/

namespace TsEpistle.Storage.Git
open Library Library.Checked Library.Records LinePatch List

/-! ## Streams -/

/-- The bytes of records, each with its end. -/
def written (records : List Bytes) : Bytes := records.flatMap (· ++ [0])

variable {chunks : List Bytes}

section
variable {σ : Type} {maxRecordBytes : Nat} {onRecord : Bytes → σ → Except Failure σ}

/-- A stream that is taken up consists of whole records within the limit. -/
theorem stream_ok {initial state : σ} (h : stream maxRecordBytes onRecord initial chunks = .ok state) : ∃ records,
    chunks.flatten = written records ∧ (∀ record ∈ records, 0 ∉ record ∧ record.length ≤ maxRecordBytes) ∧
    records.foldlM (fun state record => onRecord record state) initial = .ok state := by
  obtain ⟨hrecords, hrest, -, htaken⟩ := stream_ok_iff.mp h
  refine ⟨_, ?_, fun record hrecord => ⟨?_, hrecords record hrecord⟩, htaken⟩
  · have hjoin : written (split 0 [] chunks.flatten).1 ++ (split 0 [] chunks.flatten).2 = [] ++ chunks.flatten :=
      join_split [] chunks.flatten
    rw [hrest, append_nil, nil_append] at hjoin
    exact hjoin.symm
  · exact records_clean _ _ not_mem_nil record hrecord

theorem stream_chunks {initial state : σ} (chunks : List Bytes) :
    stream maxRecordBytes onRecord initial chunks = .ok state
      ↔ stream maxRecordBytes onRecord initial [chunks.flatten] = .ok state := by
  rw [stream_ok_iff, stream_ok_iff, flatten_singleton]

/-- A stream that ends inside a record. -/
def CutOff (bytes : Bytes) : Prop := ∃ records rest, bytes = written records ++ rest ∧ rest ≠ [] ∧ 0 ∉ rest

/-- A stream with a record over the limit, complete or not. -/
def Over (limit : Nat) (bytes : Bytes) : Prop :=
  ∃ records record more, bytes = written records ++ record ++ more ∧ 0 ∉ record ∧ limit < record.length

theorem split_written (records : List Bytes) (more : Bytes) :
    (split 0 [] (written records ++ more)).2 = (split 0 [] more).2
      ∧ ∀ record ∈ (split 0 [] more).1, record ∈ (split 0 [] (written records ++ more)).1 := by
  rw [split_append, written, split_records]
  exact ⟨rfl, fun record hrecord => mem_append_right _ hrecord⟩

theorem stream_cutOff {initial state : σ} (hcut : CutOff chunks.flatten) :
    stream maxRecordBytes onRecord initial chunks ≠ .ok state := by
  obtain ⟨records, rest, hbytes, hne, hclean⟩ := hcut
  intro h
  have hrest := (stream_ok_iff.mp h).remaining
  have hwhole := split_clean hclean [] []
  rw [append_nil, nil_append] at hwhole
  rw [hbytes, (split_written records rest).1, hwhole] at hrest
  exact hne hrest

theorem stream_over {initial state : σ} (hover : Over maxRecordBytes chunks.flatten) :
    stream maxRecordBytes onRecord initial chunks ≠ .ok state := by
  obtain ⟨records, record, more, hbytes, hclean, hlimit⟩ := hover
  intro h
  obtain ⟨hrecords, hrest, -, -⟩ := stream_ok_iff.mp h
  rw [append_assoc] at hbytes
  obtain ⟨hremaining, hmember⟩ := split_written records (record ++ more)
  rw [split_clean hclean, nil_append] at hremaining hmember
  rw [hbytes] at hrecords hrest
  have hstart : (∃ complete ∈ (split 0 record more).1, record.length ≤ complete.length)
      ∨ record.length ≤ (split 0 record more).2.length := start_le record more
  rcases hstart with ⟨complete, hcomplete, hle⟩ | hle
  · have hbound := hrecords complete (hmember complete hcomplete)
    omega
  · rw [← hremaining, hrest, length_nil] at hle
    omega

end

/-! ## Paths -/

/-- A path below the root, of parts with names, outside the directories that the storage keeps for itself. -/
structure SafePath (path : JsString) : Prop where
  relative : path.head? ≠ some 47
  noBackslash : 92 ∉ path
  noNul : 0 ∉ path
  parts : ∀ part ∈ segments path, part ≠ [] ∧ part ≠ [46] ∧ part ≠ [46, 46]
  outside : isStorageInternalPath path = false

theorem assertGitPath_ok {path : JsString} (h : assertGitPath path = .ok ()) : SafePath path := by
  unfold assertGitPath at h
  obtain ⟨hsafety, h⟩ := guard_ok h
  obtain ⟨hinternal, -⟩ := guard_ok h
  simp only [not_or] at hsafety
  obtain ⟨-, -, hrelative, hbackslash, hnul, hparts⟩ := hsafety
  refine ⟨hrelative, hbackslash, hnul, ?_, ?_⟩
  · intro part hpart
    rw [any_eq_true, not_exists] at hparts
    have hnone := hparts part
    simp only [hpart, true_and, Bool.or_eq_true, decide_eq_true_eq, not_or] at hnone
    exact ⟨hnone.1.1, hnone.1.2, hnone.2⟩
  · rw [Bool.or_eq_true, not_or] at hinternal
    exact Bool.eq_false_iff.mpr hinternal.1

theorem parseUtf8_ok {bytes : Bytes} {label text : JsString} (h : parseUtf8 bytes label = .ok text) :
    decodeText bytes = some text := by
  unfold parseUtf8 at h
  cases hdecode : decodeText bytes with
  | none => simp [hdecode] at h
  | some decoded =>
    simp only [hdecode] at h
    rw [Except.ok.inj h]

/-! ## Trees -/

/-- What an entry has of its record. -/
structure IsEntry (maxAssetBytes : Nat) (record : Bytes) (entry : GitTreeEntry) : Prop where
  tab : 9 ∈ record
  header : ∃ header, decodeText (record.takeWhile (· ≠ 9)) = some header
    ∧ parseHeader header = .ok (entry.mode, entry.type, entry.oid, entry.size)
  path : decodeText (pathField record) = some entry.path
  safe : SafePath entry.path
  limit : entry.mode = .directory ∨ entry.size ≤ sizeLimit maxAssetBytes entry.path

theorem parseTreeRecord_ok {maxAssetBytes : Nat} {record : Bytes} {entry : GitTreeEntry}
    (h : parseTreeRecord maxAssetBytes record = .ok entry) : IsEntry maxAssetBytes record entry := by
  unfold parseTreeRecord at h
  obtain ⟨-, h⟩ := guard_ok h
  obtain ⟨htab, h⟩ := guard_ok h
  obtain ⟨header, hheader, h⟩ := bind_ok h
  obtain ⟨⟨mode, type, oid, size⟩, hparsed, h⟩ := bind_ok h
  obtain ⟨path, hpath, h⟩ := bind_ok h
  obtain ⟨⟨⟩, hsafe, h⟩ := bind_ok h
  obtain ⟨hlimit, h⟩ := guard_ok h
  obtain rfl := Except.ok.inj h
  refine ⟨not_not.mp htab, ⟨header, parseUtf8_ok hheader, hparsed⟩, parseUtf8_ok hpath, assertGitPath_ok hsafe, ?_⟩
  rw [not_and_or, not_not, not_lt] at hlimit
  exact hlimit

/-- The state after these records. -/
structure Listed (maxEntries maxBytes maxAssetBytes : Nat) (records : List Bytes) (state : TreeState) : Prop where
  entries : List.Forall₂ (IsEntry maxAssetBytes) records state.entries
  files : state.filesByPath = state.entries.map fun entry => (entry.path, entry)
  distinct : (state.entries.map GitTreeEntry.path).Nodup
  count : state.reserved = state.entries.length
  sizes : state.bytes = (state.entries.map GitTreeEntry.size).sum
  entryLimit : state.reserved ≤ maxEntries
  byteLimit : state.bytes ≤ maxBytes

theorem Listed.step {maxEntries maxBytes maxAssetBytes : Nat} {records : List Bytes} {record : Bytes}
    {state state' : TreeState} (hlisted : Listed maxEntries maxBytes maxAssetBytes records state)
    (h : onTreeRecord maxEntries maxBytes maxAssetBytes record state = .ok state') :
    Listed maxEntries maxBytes maxAssetBytes (records ++ [record]) state' := by
  obtain ⟨entry, hentry, h⟩ := bind_ok h
  obtain ⟨hfresh, h⟩ := guard_ok h
  obtain ⟨reservedState, hreserve, h⟩ := bind_ok h
  obtain rfl := Except.ok.inj h
  obtain ⟨hentries, hreserve⟩ := guard_ok hreserve
  obtain ⟨hbytes, hreserve⟩ := guard_ok hreserve
  obtain rfl := Except.ok.inj hreserve
  have hnew : entry.path ∉ state.entries.map GitTreeEntry.path := by
    intro hmem
    obtain ⟨other, hother, hsame⟩ := mem_map.mp hmem
    refine hfresh (any_eq_true.mpr ⟨(other.path, other), ?_, decide_eq_true hsame⟩)
    rw [hlisted.files]
    exact mem_map_of_mem hother
  constructor
  case entries => exact rel_append hlisted.entries (.cons (parseTreeRecord_ok hentry) .nil)
  case files =>
    show state.filesByPath ++ [(entry.path, entry)] = (state.entries ++ [entry]).map fun entry => (entry.path, entry)
    rw [hlisted.files, map_append, map_singleton]
  case distinct =>
    show ((state.entries ++ [entry]).map GitTreeEntry.path).Nodup
    rw [map_append, map_singleton]
    exact Nodup.append hlisted.distinct (nodup_singleton _)
      (disjoint_singleton.mpr hnew)
  case count =>
    show state.reserved + 1 = (state.entries ++ [entry]).length
    rw [hlisted.count, length_append, length_singleton]
  case sizes =>
    show state.bytes + entry.size = ((state.entries ++ [entry]).map GitTreeEntry.size).sum
    rw [hlisted.sizes, map_append, sum_append, map_singleton, sum_singleton]
  case entryLimit => exact Nat.succ_le_of_lt (not_le.mp hentries)
  case byteLimit =>
    show state.bytes + entry.size ≤ maxBytes
    omega

/-- Every round of a loop adds its item to those that the state accounts for. -/
theorem foldlM_done {α β : Type} {f : β → α → Except Failure β} {I : List α → β → Prop}
    (hstep : ∀ done item state state', I done state → f state item = .ok state' → I (done ++ [item]) state')
    {items done : List α} {state state' : β} (h : items.foldlM f state = .ok state') (hdone : I done state) :
    I (done ++ items) state' := by
  induction items generalizing done state with
  | nil =>
    obtain rfl := Except.ok.inj h
    rwa [append_nil]
  | cons item items ih =>
    rw [foldlM_cons] at h
    obtain ⟨middle, hmiddle, h⟩ := bind_ok h
    have hrest := ih h (hstep done item state middle hdone hmiddle)
    rwa [append_assoc, singleton_append] at hrest

theorem admitGitTree_ok {revision : JsString} {options : GitTreeAdmissionOptions}
    {admission : GitTreeAdmission} (h : admitGitTree revision options chunks = .ok admission) :
    ∃ maxEntries maxBytes maxAssetBytes records, treeLimits options = .ok (maxEntries, maxBytes, maxAssetBytes)
      ∧ chunks.flatten = written records
      ∧ (∀ record ∈ records, 0 ∉ record ∧ record.length ≤ GIT_NATIVE_RECORD_LIMIT_BYTES)
      ∧ Listed maxEntries maxBytes maxAssetBytes records
          ⟨admission.entries, admission.filesByPath, admission.entriesCount, admission.bytes⟩ := by
  obtain ⟨⟨⟩, -, h⟩ := bind_ok h
  obtain ⟨⟨maxEntries, maxBytes, maxAssetBytes⟩, hlimits, h⟩ := bind_ok h
  obtain ⟨state, hstate, h⟩ := bind_ok h
  obtain rfl := Except.ok.inj h
  obtain ⟨records, hbytes, hrecords, hfold⟩ := stream_ok hstate
  have hinitial : Listed maxEntries maxBytes maxAssetBytes [] ⟨[], [], 0, 0⟩ :=
    ⟨.nil, rfl, nodup_nil, rfl, rfl, Nat.zero_le _, Nat.zero_le _⟩
  exact ⟨maxEntries, maxBytes, maxAssetBytes, records, hlimits, hbytes, hrecords,
    foldlM_done (fun done record state state' hlisted hstep => hlisted.step hstep) hfold hinitial⟩

/-! ## Changes -/

/-- The bytes that a list of records counts for. -/
def counted (records : List Bytes) : Nat := (records.map fun record => record.length + 1).sum

/-- The fields of a change and what it has of them: a status, and one path or two. -/
inductive IsChange : List Bytes → GitNameStatusChange → Prop
  | one {status path : Bytes} {token : JsString} {change : GitNameStatusChange}
      (htoken : decodeText status = some token) (hstatus : parseStatusToken token = .ok (change.status, change.score))
      (hplain : change.status.renames = false) (hpath : decodeText path = some change.path)
      (hsame : change.oldPath = change.path) (hsafe : SafePath change.path) : IsChange [status, path] change
  | two {status oldPath path : Bytes} {token : JsString} {change : GitNameStatusChange}
      (htoken : decodeText status = some token) (hstatus : parseStatusToken token = .ok (change.status, change.score))
      (hrenames : change.status.renames = true) (hold : decodeText oldPath = some change.oldPath)
      (hpath : decodeText path = some change.path) (hsafeOld : SafePath change.oldPath)
      (hsafe : SafePath change.path) : IsChange [status, oldPath, path] change

/-- The state after these records: the fields of whole changes, and those of a change that has begun. -/
structure Changed (maxChanges maxRecordBytes : Nat) (records : List Bytes) (state : StatusState) : Prop where
  groups : ∃ groups pending, records = groups.flatten ++ pending
    ∧ List.Forall₂ (fun group change => IsChange group change ∧ counted group ≤ maxRecordBytes) groups state.changes
    ∧ List.Forall₂ (fun record field => decodeText record = some field) pending state.fields
    ∧ state.recordBytes = counted pending
  limit : state.changes.length ≤ maxChanges

theorem addChange_ok {maxChanges : Nat} {change : GitNameStatusChange} {state state' : StatusState}
    (h : addChange maxChanges change state = .ok state') :
    state.changes.length < maxChanges ∧ state' = ⟨[], 0, state.changes ++ [change]⟩ := by
  obtain ⟨hlimit, h⟩ := guard_ok h
  exact ⟨not_le.mp hlimit, (Except.ok.inj h).symm⟩

/-- The fields either wait for another one or are a change. -/
theorem completeFields_ok {maxChanges : Nat} {state state' : StatusState}
    (h : completeFields maxChanges state = .ok state') {pending : List Bytes}
    (hpending : List.Forall₂ (fun record field => decodeText record = some field) pending state.fields) :
    state' = state ∨ ∃ change, IsChange pending change ∧ state.changes.length < maxChanges
      ∧ state' = ⟨[], 0, state.changes ++ [change]⟩ := by
  obtain ⟨fields, recordBytes, changes⟩ := state
  cases hpending with
  | nil => exact .inl (Except.ok.inj h).symm
  | @cons first token rest paths htoken hpaths =>
    obtain ⟨⟨status, score⟩, hstatus, h⟩ := bind_ok h
    cases hpaths with
    | nil => exact .inl (Except.ok.inj h).symm
    | @cons second path rest paths hpath hpaths =>
      cases hrenames : status.renames with
      | true =>
        simp only [hrenames] at h
        cases hpaths with
        | nil => exact .inl (Except.ok.inj h).symm
        | @cons third destination rest paths hdestination hpaths =>
          cases hpaths with
          | nil =>
            obtain ⟨⟨⟩, hsafeOld, h⟩ := bind_ok h
            obtain ⟨⟨⟩, hsafe, h⟩ := bind_ok h
            obtain ⟨hlimit, rfl⟩ := addChange_ok h
            exact .inr ⟨_, .two htoken hstatus hrenames hpath hdestination (assertGitPath_ok hsafeOld)
              (assertGitPath_ok hsafe), hlimit, rfl⟩
          | cons => cases h
      | false =>
        simp only [hrenames] at h
        cases hpaths with
        | nil =>
          obtain ⟨⟨⟩, hsafe, h⟩ := bind_ok h
          obtain ⟨hlimit, rfl⟩ := addChange_ok h
          exact .inr ⟨_, .one htoken hstatus hrenames hpath rfl (assertGitPath_ok hsafe), hlimit, rfl⟩
        | cons => simp at h

theorem Changed.step {maxChanges maxRecordBytes : Nat} {records : List Bytes} {record : Bytes}
    {state state' : StatusState} (hchanged : Changed maxChanges maxRecordBytes records state)
    (h : onStatusRecord maxChanges maxRecordBytes record state = .ok state') :
    Changed maxChanges maxRecordBytes (records ++ [record]) state' := by
  obtain ⟨hbytes, h⟩ := guard_ok h
  obtain ⟨token, htoken, h⟩ := bind_ok h
  obtain ⟨⟨groups, pending, rfl, hgroups, hpending, hcounted⟩, hlimit⟩ := hchanged
  have hfields : List.Forall₂ (fun record field => decodeText record = some field) (pending ++ [record])
      (state.fields ++ [token]) := rel_append hpending (.cons (parseUtf8_ok htoken) .nil)
  have hcount : counted (pending ++ [record]) = state.recordBytes + (record.length + 1) := by
    rw [hcounted, counted, counted, map_append, sum_append, map_singleton, sum_singleton]
  rcases completeFields_ok h hfields with rfl | ⟨change, hchange, hlimit', rfl⟩
  · exact ⟨⟨groups, pending ++ [record], by rw [append_assoc], hgroups, hfields, hcount.symm⟩, hlimit⟩
  · refine ⟨⟨groups ++ [pending ++ [record]], [], ?_, ?_, .nil, rfl⟩, ?_⟩
    · rw [flatten_append, flatten_singleton, append_nil, append_assoc]
    · exact rel_append hgroups (.cons ⟨hchange, by rw [hcount]; omega⟩ .nil)
    · show (state.changes ++ [change]).length ≤ maxChanges
      rw [length_append, length_singleton]
      exact hlimit'

theorem streamGitNameStatus_ok {fromRevision toRevision : JsString} {options : GitNameStatusOptions}
    {changes : List GitNameStatusChange}
    (h : streamGitNameStatus fromRevision toRevision options chunks = .ok changes) : ∃ maxChanges maxRecordBytes groups,
    statusLimits options = .ok (maxChanges, maxRecordBytes) ∧ chunks.flatten = written groups.flatten ∧
    (∀ record ∈ groups.flatten, 0 ∉ record) ∧
    List.Forall₂ (fun group change => IsChange group change ∧ counted group ≤ maxRecordBytes) groups changes ∧
    changes.length ≤ maxChanges := by
  obtain ⟨⟨⟩, -, h⟩ := bind_ok h
  obtain ⟨⟨⟩, -, h⟩ := bind_ok h
  obtain ⟨⟨maxChanges, maxRecordBytes⟩, hlimits, h⟩ := bind_ok h
  obtain ⟨state, hstate, h⟩ := bind_ok h
  obtain ⟨hcomplete, h⟩ := guard_ok h
  obtain rfl := Except.ok.inj h
  obtain ⟨records, hbytes, hrecords, hfold⟩ := stream_ok hstate
  have hinitial : Changed maxChanges maxRecordBytes [] ⟨[], 0, []⟩ := ⟨⟨[], [], rfl, .nil, .nil, rfl⟩, Nat.zero_le _⟩
  obtain ⟨⟨groups, pending, hgroups, hchanges, hpending, -⟩, hlimit⟩ :=
    foldlM_done (fun done record state state' hchanged hstep => hchanged.step hstep) hfold hinitial
  rw [not_not.mp hcomplete] at hpending
  cases hpending
  rw [nil_append, append_nil] at hgroups
  subst hgroups
  exact ⟨maxChanges, maxRecordBytes, groups, hlimits, hbytes, fun record hrecord => (hrecords record hrecord).1,
    hchanges,
    hlimit⟩

/-! ## Whole outputs -/

/-- What a listing has of each item is told by the items. -/
theorem forall₂_iff {α β : Type} {R P : α → β → Prop} {Q : α → Prop} {items : List α} {results : List β}
    (h : List.Forall₂ R items results) (hiff : ∀ item result, R item result → (P item result ↔ Q item)) :
    List.Forall₂ P items results ↔ ∀ item ∈ items, Q item := by
  induction h with
  | nil => exact iff_of_true .nil (forall_mem_nil _)
  | cons hitem _ ih => rw [forall₂_cons, forall_mem_cons, hiff _ _ hitem, ih]

/-- The paths of a change, byte by byte. -/
def pathBytes (change : GitNameStatusChange) : List Bytes :=
  if change.status.renames then [utf8 change.oldPath, utf8 change.path] else [utf8 change.path]

theorem IsChange.pathBytes_iff {group : List Bytes} {change : GitNameStatusChange} (h : IsChange group change) :
    pathBytes change = group.tail ↔ ∀ field ∈ group.tail, ¬ mark <+: field := by
  unfold pathBytes
  cases h with
  | one htoken hstatus hplain hpath hsame hsafe =>
    rw [if_neg (by rw [hplain]; exact Bool.false_ne_true), tail_cons, cons_eq_cons, utf8_eq_iff hpath]
    simp
  | two htoken hstatus hrenames hold hpath hsafeOld hsafe =>
    rw [if_pos hrenames, tail_cons, cons_eq_cons, cons_eq_cons, utf8_eq_iff hold, utf8_eq_iff hpath]
    simp

/-- Both commands read their output whatever its chunks are, refuse one that ends inside a record or holds one over the
limit, and list the records otherwise. A path has the bytes of its record just where these do not begin with a byte
order mark. -/
theorem git_streams_exact (chunks : List Bytes) :
    (∀ revision options,
      (∀ admission, admitGitTree revision options chunks = .ok admission
        ↔ admitGitTree revision options [chunks.flatten] = .ok admission)
      ∧ (CutOff chunks.flatten ∨ Over GIT_NATIVE_RECORD_LIMIT_BYTES chunks.flatten →
          ∀ admission, admitGitTree revision options chunks ≠ .ok admission)
      ∧ ∀ admission, admitGitTree revision options chunks = .ok admission →
          ∃ maxEntries maxBytes maxAssetBytes records,
            treeLimits options = .ok (maxEntries, maxBytes, maxAssetBytes) ∧ chunks.flatten = written records
            ∧ (∀ record ∈ records, 0 ∉ record ∧ record.length ≤ GIT_NATIVE_RECORD_LIMIT_BYTES)
            ∧ Listed maxEntries maxBytes maxAssetBytes records
                ⟨admission.entries, admission.filesByPath, admission.entriesCount, admission.bytes⟩
            ∧ (List.Forall₂ (fun record entry => utf8 entry.path = pathField record) records admission.entries
                ↔ ∀ record ∈ records, ¬ mark <+: pathField record))
    ∧ ∀ fromRevision toRevision options,
      (∀ changes, streamGitNameStatus fromRevision toRevision options chunks = .ok changes
        ↔ streamGitNameStatus fromRevision toRevision options [chunks.flatten] = .ok changes)
      ∧ (∀ maxChanges maxRecordBytes, statusLimits options = .ok (maxChanges, maxRecordBytes) →
          CutOff chunks.flatten ∨ Over maxRecordBytes chunks.flatten →
            ∀ changes, streamGitNameStatus fromRevision toRevision options chunks ≠ .ok changes)
      ∧ ∀ changes, streamGitNameStatus fromRevision toRevision options chunks = .ok changes →
          ∃ maxChanges maxRecordBytes groups, statusLimits options = .ok (maxChanges, maxRecordBytes)
            ∧ chunks.flatten = written groups.flatten ∧ (∀ record ∈ groups.flatten, 0 ∉ record)
            ∧ List.Forall₂ (fun group change => IsChange group change ∧ counted group ≤ maxRecordBytes) groups changes
            ∧ changes.length ≤ maxChanges
            ∧ (List.Forall₂ (fun group change => pathBytes change = group.tail) groups changes
                ↔ ∀ group ∈ groups, ∀ field ∈ group.tail, ¬ mark <+: field) := by
  refine ⟨fun revision options => ⟨?_, ?_, ?_⟩, fun fromRevision toRevision options => ⟨?_, ?_, ?_⟩⟩
  · intro admission
    exact bind_iff_right fun _ => bind_iff_right fun limits => bind_iff_left fun state => stream_chunks chunks
  · intro hbroken admission h
    obtain ⟨-, -, h⟩ := bind_ok h
    obtain ⟨limits, -, h⟩ := bind_ok h
    obtain ⟨state, hstate, -⟩ := bind_ok h
    rcases hbroken with hcut | hover
    · exact stream_cutOff hcut hstate
    · exact stream_over hover hstate
  · intro admission h
    obtain ⟨maxEntries, maxBytes, maxAssetBytes, records, hlimits, hbytes, hrecords, hlisted⟩ := admitGitTree_ok h
    exact ⟨maxEntries, maxBytes, maxAssetBytes, records, hlimits, hbytes, hrecords, hlisted,
      forall₂_iff hlisted.entries fun record entry hentry => utf8_eq_iff hentry.path⟩
  · intro changes
    exact bind_iff_right fun _ => bind_iff_right fun _ => bind_iff_right fun limits => bind_iff_left fun state =>
      stream_chunks chunks
  · intro maxChanges maxRecordBytes hlimits hbroken changes h
    obtain ⟨-, -, h⟩ := bind_ok h
    obtain ⟨-, -, h⟩ := bind_ok h
    obtain ⟨limits, hlimits', h⟩ := bind_ok h
    obtain ⟨state, hstate, -⟩ := bind_ok h
    obtain rfl := Except.ok.inj (hlimits.symm.trans hlimits')
    rcases hbroken with hcut | hover
    · exact stream_cutOff hcut hstate
    · exact stream_over hover hstate
  · intro changes h
    obtain ⟨maxChanges, maxRecordBytes, groups, hlimits, hbytes, hclean, hchanges, hlimit⟩ := streamGitNameStatus_ok h
    exact ⟨maxChanges, maxRecordBytes, groups, hlimits, hbytes, hclean, hchanges, hlimit,
      forall₂_iff hchanges fun group change hchange => hchange.1.pathBytes_iff⟩

/-- A tree with a path behind a byte order mark is admitted under the path without it. -/
theorem git_paths_lose_marks :
    let record := utf8 (js "100644 blob ") ++ List.replicate 40 97 ++ utf8 (js " 1") ++ 9 :: mark ++ utf8 (js "a")
    ∃ admission, admitGitTree (js "HEAD") ⟨none, none, none⟩ [record ++ [0]] = .ok admission
      ∧ admission.entries.map GitTreeEntry.path = [js "a"] ∧ utf8 (js "a") ≠ pathField record := by
  refine ⟨⟨js "HEAD", [⟨.regular, .blob, List.replicate 40 97, js "a", 1⟩],
    [(js "a", ⟨.regular, .blob, List.replicate 40 97, js "a", 1⟩)], 1, 1⟩, ?_, rfl, ?_⟩
  · decide +kernel
  · decide +kernel

end TsEpistle.Storage.Git
