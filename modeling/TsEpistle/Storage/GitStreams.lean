import TsEpistle.Library.Records
import TsEpistle.Storage.GitAdmission

/-! The records of a stream do not depend on its chunks, and what is admitted lists them one by one. -/

namespace TsEpistle.Storage.Git
open Library Library.Checked Library.Records LinePatch List

section
variable {σ : Type} {maxRecordBytes : Nat} {onRecord : Bytes → σ → Except Failure σ}

/-! ## Chunks -/

variable (maxRecordBytes onRecord) in
/-- The bytes behind the start of a record complete records, which are taken up, and leave the start of another. -/
structure Fed (record bytes : Bytes) (state : σ) (rest : Bytes) (state' : σ) : Prop where
  records : ∀ complete ∈ (split 0 record bytes).1, complete.length ≤ maxRecordBytes
  remaining : (split 0 record bytes).2 = rest
  bounded : rest.length ≤ maxRecordBytes
  taken : (split 0 record bytes).1.foldlM (fun state record => onRecord record state) state = .ok state'

theorem Fed.append {record bytes rest more rest' : Bytes} {state state' state'' : σ}
    (h : Fed maxRecordBytes onRecord record bytes state rest state')
    (h' : Fed maxRecordBytes onRecord rest more state' rest' state'') :
    Fed maxRecordBytes onRecord record (bytes ++ more) state rest' state'' := by
  refine ⟨?_, ?_, h'.bounded, ?_⟩
  · rw [split_append, h.remaining]
    exact forall_mem_append.mpr ⟨h.records, h'.records⟩
  · rw [split_append, h.remaining]
    exact h'.remaining
  · rw [split_append, h.remaining, foldlM_append, h.taken]
    exact h'.taken

theorem Fed.divide {record bytes more rest' : Bytes} {state state'' : σ}
    (h : Fed maxRecordBytes onRecord record (bytes ++ more) state rest' state'') :
    ∃ rest state', Fed maxRecordBytes onRecord record bytes state rest state'
      ∧ Fed maxRecordBytes onRecord rest more state' rest' state'' := by
  obtain ⟨hrecords, hrest, hbounded, htaken⟩ := h
  rw [split_append] at hrecords hrest htaken
  obtain ⟨hfirst, hsecond⟩ := forall_mem_append.mp hrecords
  rw [foldlM_append] at htaken
  obtain ⟨state', hstate', htaken⟩ := bind_ok htaken
  refine ⟨_, state', ⟨hfirst, rfl, ?_, hstate'⟩, ⟨hsecond, hrest, hbounded, htaken⟩⟩
  rcases start_le (split 0 record bytes).2 more with ⟨complete, hmem, hle⟩ | hle
  · exact Nat.le_trans hle (hsecond complete hmem)
  · rw [hrest] at hle
    exact Nat.le_trans hle hbounded

variable {parser : NulRecordParser σ}

theorem drain_ok {record bytes : Bytes} {recordBytes : Nat} {state : σ}
    (h : drain maxRecordBytes onRecord record bytes recordBytes state = .ok parser)
    (hbounded : parser.buffer.length ≤ maxRecordBytes) (hbytes : recordBytes = record.length + bytes.length) :
    Fed maxRecordBytes onRecord record bytes state parser.buffer parser.state ∧
    parser.recordBytes = parser.buffer.length := by
  induction bytes generalizing record recordBytes state with
  | nil =>
    obtain rfl := Except.ok.inj h
    exact ⟨⟨forall_mem_nil _, rfl, hbounded, rfl⟩, hbytes⟩
  | cons byte bytes ih =>
    rw [drain] at h
    by_cases hstop : byte = 0
    · rw [if_pos hstop] at h
      obtain ⟨hlength, h⟩ := guard_ok h
      obtain ⟨state', hstate', h⟩ := bind_ok h
      obtain ⟨hfed, hcount⟩ := ih h (by rw [length_nil, Nat.zero_add])
      refine ⟨⟨?_, ?_, hbounded, ?_⟩, hcount⟩
      · rw [hstop, split_stop]
        exact forall_mem_cons.mpr ⟨by omega, hfed.records⟩
      · rw [hstop, split_stop]
        exact hfed.remaining
      · rw [hstop, split_stop, foldlM_cons, hstate']
        exact hfed.taken
    · rw [if_neg hstop] at h
      obtain ⟨hfed, hcount⟩ := ih h (by rw [hbytes, length_append, length_cons, length_singleton]; omega)
      refine ⟨⟨?_, ?_, hbounded, ?_⟩, hcount⟩
      · rw [split_other hstop]
        exact hfed.records
      · rw [split_other hstop]
        exact hfed.remaining
      · rw [split_other hstop]
        exact hfed.taken

theorem ok_drain {record bytes rest : Bytes} {state state' : σ}
    (h : Fed maxRecordBytes onRecord record bytes state rest state') (recordBytes : Nat) :
    ∃ parser, drain maxRecordBytes onRecord record bytes recordBytes state = .ok parser ∧ parser.buffer = rest
      ∧ parser.state = state' := by
  induction bytes generalizing record recordBytes state with
  | nil =>
    obtain rfl := h.remaining
    obtain rfl := Except.ok.inj h.taken
    exact ⟨_, rfl, rfl, rfl⟩
  | cons byte bytes ih =>
    obtain ⟨hrecords, hrest, hbounded, htaken⟩ := h
    rw [drain]
    by_cases hstop : byte = 0
    · rw [hstop, split_stop] at hrecords hrest htaken
      rw [foldlM_cons] at htaken
      obtain ⟨state₁, hstate₁, htaken⟩ := bind_ok htaken
      obtain ⟨hlength, hrecords⟩ := forall_mem_cons.mp hrecords
      rw [if_pos hstop, if_neg (by omega), hstate₁]
      exact ih ⟨hrecords, hrest, hbounded, htaken⟩ bytes.length
    · rw [split_other hstop] at hrecords hrest htaken
      rw [if_neg hstop]
      exact ih ⟨hrecords, hrest, hbounded, htaken⟩ recordBytes

variable (maxRecordBytes) in
/-- Between two chunks the buffer is the start of a record. -/
structure Between (parser : NulRecordParser σ) : Prop where
  clean : 0 ∉ parser.buffer
  counted : parser.recordBytes = parser.buffer.length
  bounded : parser.buffer.length ≤ maxRecordBytes

theorem Between.fed_iff (h : Between maxRecordBytes parser) {chunk rest : Bytes} {state state' : σ} :
    Fed maxRecordBytes onRecord [] (parser.buffer ++ chunk) state rest state'
      ↔ Fed maxRecordBytes onRecord parser.buffer chunk state rest state' := by
  have hsplit : split 0 [] (parser.buffer ++ chunk) = split 0 parser.buffer chunk := by
    rw [split_clean h.clean, nil_append]
  constructor
  · rintro ⟨hrecords, hrest, hbounded, htaken⟩
    rw [hsplit] at hrecords hrest htaken
    exact ⟨hrecords, hrest, hbounded, htaken⟩
  · rintro ⟨hrecords, hrest, hbounded, htaken⟩
    rw [← hsplit] at hrecords hrest htaken
    exact ⟨hrecords, hrest, hbounded, htaken⟩

theorem push_ok {parser parser' : NulRecordParser σ} {chunk : Bytes} (hbetween : Between maxRecordBytes parser)
    (h : push maxRecordBytes onRecord parser chunk = .ok parser') :
    Fed maxRecordBytes onRecord parser.buffer chunk parser.state parser'.buffer parser'.state
      ∧ Between maxRecordBytes parser' := by
  unfold push at h
  by_cases hempty : chunk = []
  · rw [if_pos hempty] at h
    obtain rfl := Except.ok.inj h
    rw [hempty]
    exact ⟨⟨forall_mem_nil _, rfl, hbetween.bounded, rfl⟩, hbetween⟩
  · rw [if_neg hempty] at h
    obtain ⟨-, h⟩ := guard_ok h
    obtain ⟨drained, hdrained, h⟩ := bind_ok h
    obtain ⟨hbounded, h⟩ := guard_ok h
    obtain rfl := Except.ok.inj h
    rw [not_lt] at hbounded
    obtain ⟨hfed, hcounted⟩ := drain_ok hdrained hbounded
      (by rw [hbetween.counted, length_append, length_nil, Nat.zero_add])
    refine ⟨hbetween.fed_iff.mp hfed, ?_, hcounted, hbounded⟩
    rw [← hfed.remaining]
    exact rest_clean _ _ not_mem_nil

theorem ok_push {chunk rest : Bytes} {state' : σ} (hbetween : Between maxRecordBytes parser)
    (h : Fed maxRecordBytes onRecord parser.buffer chunk parser.state rest state') : ∃ parser',
    push maxRecordBytes onRecord parser chunk = .ok parser' ∧ parser'.buffer = rest ∧ parser'.state = state' := by
  unfold push
  by_cases hempty : chunk = []
  · rw [hempty] at h
    obtain rfl := h.remaining
    obtain rfl := Except.ok.inj h.taken
    exact ⟨parser, if_pos hempty, rfl, rfl⟩
  · have hfits : ¬ (maxRecordBytes < parser.recordBytes + chunk.length ∧ 0 ∉ chunk) := by
      rintro ⟨hlength, hclean⟩
      have hwhole := split_clean hclean parser.buffer []
      have hbounded := h.bounded
      rw [append_nil] at hwhole
      rw [← h.remaining, hwhole] at hbounded
      have hrest : (split 0 (parser.buffer ++ chunk) []).2 = parser.buffer ++ chunk := rfl
      rw [hrest, length_append, ← hbetween.counted] at hbounded
      omega
    obtain ⟨drained, hdrained, rfl, rfl⟩ := ok_drain (hbetween.fed_iff.mpr h) (parser.recordBytes + chunk.length)
    refine ⟨drained, ?_, rfl, rfl⟩
    rw [if_neg hempty, if_neg hfits, hdrained]
    exact if_neg (not_lt.mpr h.bounded)

theorem foldlM_push_ok {chunks : List Bytes} {parser parser' : NulRecordParser σ}
    (hbetween : Between maxRecordBytes parser) (h : chunks.foldlM (push maxRecordBytes onRecord) parser = .ok parser') :
    Fed maxRecordBytes onRecord parser.buffer chunks.flatten parser.state parser'.buffer parser'.state := by
  induction chunks generalizing parser with
  | nil =>
    obtain rfl := Except.ok.inj h
    exact ⟨forall_mem_nil _, rfl, hbetween.bounded, rfl⟩
  | cons chunk chunks ih =>
    rw [foldlM_cons] at h
    obtain ⟨pushed, hpushed, h⟩ := bind_ok h
    obtain ⟨hfed, hbetween'⟩ := push_ok hbetween hpushed
    exact hfed.append (ih hbetween' h)

theorem ok_foldlM_push {chunks : List Bytes} {rest : Bytes} {state' : σ} (hbetween : Between maxRecordBytes parser)
    (h : Fed maxRecordBytes onRecord parser.buffer chunks.flatten parser.state rest state') : ∃ parser',
    chunks.foldlM (push maxRecordBytes onRecord) parser = .ok parser' ∧ parser'.buffer = rest ∧
    parser'.state = state' := by
  induction chunks generalizing parser with
  | nil =>
    obtain rfl := h.remaining
    obtain rfl := Except.ok.inj h.taken
    exact ⟨parser, rfl, rfl, rfl⟩
  | cons chunk chunks ih =>
    obtain ⟨middle, state₁, hfirst, hsecond⟩ := h.divide
    obtain ⟨pushed, hpushed, rfl, rfl⟩ := ok_push hbetween hfirst
    obtain ⟨parser', hparser', hrest⟩ := ih (push_ok hbetween hpushed).2 hsecond
    refine ⟨parser', ?_, hrest⟩
    rw [foldlM_cons, hpushed]
    exact hparser'

/-- A stream is taken up as its bytes tell, whatever its chunks are. -/
theorem stream_ok_iff {initial state : σ} {chunks : List Bytes} :
    stream maxRecordBytes onRecord initial chunks = .ok state
      ↔ Fed maxRecordBytes onRecord [] chunks.flatten initial [] state := by
  have hbetween : Between maxRecordBytes (⟨[], 0, initial⟩ : NulRecordParser σ) := ⟨not_mem_nil, rfl, Nat.zero_le _⟩
  constructor
  · intro h
    obtain ⟨parser, hparser, h⟩ := bind_ok h
    obtain ⟨hempty, h⟩ := guard_ok h
    obtain rfl := Except.ok.inj h
    have hfed := foldlM_push_ok hbetween hparser
    rwa [not_not.mp hempty] at hfed
  · intro h
    obtain ⟨parser, hparser, hrest, hstate⟩ := ok_foldlM_push hbetween h
    rw [stream, hparser]
    show finish parser = _
    rw [finish, if_neg (not_not.mpr hrest), hstate]

end

end TsEpistle.Storage.Git
