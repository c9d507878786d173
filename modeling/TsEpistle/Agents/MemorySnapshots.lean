import TsEpistle.Agents.MemoryRows
import TsEpistle.Json.Canonical

/-! The snapshot that new sessions start with (`server/agents/memory.ts`): the rows are bounded by
characters, the snapshot by entries and bytes as well. -/

namespace TsEpistle.Agents.Memory
open Library Json LinePatch List
open LiveNotes (byteLength)

/-! ## Bytes -/

/-- The bytes of a unit that stands alone; a pair takes no more. -/
def unitBytes (unit : UInt16) : Nat := if unit < 0x80 then 1 else if unit < 0x800 then 2 else 3

def weight (text : JsString) : Nat := (text.map unitBytes).sum

@[simp] theorem weight_nil : weight [] = 0 := rfl

@[simp] theorem weight_cons (unit : UInt16) (text : JsString) : weight (unit :: text) = unitBytes unit + weight text := by
  simp [weight]

@[simp] theorem weight_append (text text' : JsString) : weight (text ++ text') = weight text + weight text' := by
  simp [weight]

theorem unitBytes_le (unit : UInt16) : unitBytes unit ≤ 3 := by
  unfold unitBytes
  split
  · omega
  · split <;> omega

theorem unitBytes_high {unit : UInt16} (h : 0x800 ≤ unit.toNat) : unitBytes unit = 3 := by
  have hhigh : ¬ unit < 0x80 := fun hlt => by
    have : unit.toNat < 128 := hlt
    omega
  have hhigh' : ¬ unit < 0x800 := fun hlt => by
    have : unit.toNat < 2048 := hlt
    omega
  rw [unitBytes, if_neg hhigh, if_neg hhigh']

theorem byteLength_le (text : JsString) : byteLength text ≤ weight text := by
  induction text using LiveNotes.byteLength.induct with
  | case1 => exact le_refl _
  | case2 unit h => simp [byteLength, unitBytes, h]
  | case3 unit h h' => simp [byteLength, unitBytes, h, h']
  | case4 unit h h' => simp [byteLength, unitBytes, h, h']
  | case5 unit next rest hpair ih =>
    have hunit : unitBytes unit = 3 := unitBytes_high (by
      have : (0xD800 : UInt16).toNat ≤ unit.toNat := hpair.1
      exact le_trans (by decide) this)
    have hnext : unitBytes next = 3 := unitBytes_high (by
      have : (0xDC00 : UInt16).toNat ≤ next.toNat := hpair.2.2.1
      exact le_trans (by decide) this)
    rw [byteLength, if_pos hpair, weight_cons, weight_cons, hunit, hnext]
    omega
  | case6 unit next rest hpair ih =>
    rw [byteLength, if_neg hpair, weight_cons]
    exact Nat.add_le_add_left ih _

/-! ## Written contents -/

theorem isHighSurrogate_eq (unit : UInt16) : isHighSurrogate unit = isHigh unit := by
  unfold isHighSurrogate isHigh
  congr 1
  rw [Bool.eq_iff_iff, decide_eq_true_iff, decide_eq_true_iff]
  exact (Nat.lt_succ_iff (m := unit.toNat) (n := 0xdbff)).symm

theorem isLowSurrogate_eq (unit : UInt16) : isLowSurrogate unit = isLow unit := by
  unfold isLowSurrogate isLow
  congr 1
  rw [Bool.eq_iff_iff, decide_eq_true_iff, decide_eq_true_iff]
  exact (Nat.lt_succ_iff (m := unit.toNat) (n := 0xdfff)).symm

/-- Units that are written as they stand or with one backslash. -/
def Plain (unit : UInt16) : Prop :=
  (unit < 32 → unit = 9 ∨ unit = 10 ∨ unit = 13) ∧ isHigh unit = false ∧ isLow unit = false

theorem weight_escapeUnit {unit : UInt16} (h : Plain unit) : weight (escapeUnit unit) ≤ 3 := by
  obtain ⟨hcontrol, hhigh, hlow⟩ := h
  unfold escapeUnit
  rw [isHighSurrogate_eq, isLowSurrogate_eq, hhigh, hlow]
  split_ifs with h₁ h₂ h₃ h₄ h₅ h₆ h₇ h₈
  iterate 7 · decide
  · simp only [Bool.or_false, decide_eq_true_iff] at h₈
    rcases hcontrol h₈ with h | h | h
    · exact absurd h h₇
    · exact absurd h h₅
    · exact absurd h h₆
  · simpa [weight] using unitBytes_le unit

theorem quoteBody_cons {unit : UInt16} (h : isHigh unit = false) (rest : JsString) :
    quoteBody (unit :: rest) = escapeUnit unit ++ quoteBody rest := by
  cases rest with
  | nil => simp [quoteBody]
  | cons next rest => rw [quoteBody, isHighSurrogate_eq, h, if_neg (by simp)]

theorem plain_of_clean {unit : UInt16} {rest : JsString} (h : containsForbiddenUnicode (unit :: rest) = false) :
    containsForbiddenUnicode rest = false ∧ (unit < 32 → unit = 9 ∨ unit = 10 ∨ unit = 13) := by
  unfold containsForbiddenUnicode at h ⊢
  rw [any_cons, Bool.or_eq_false_iff] at h
  refine ⟨h.2, fun hcontrol => ?_⟩
  have hunit := h.1
  simp only [Bool.or_eq_false_iff, decide_eq_false_iff_not, Bool.and_eq_false_imp, decide_eq_true_iff] at hunit
  obtain ⟨⟨⟨⟨⟨⟨⟨⟨h8, h11⟩, h12⟩, h14⟩, -⟩, -⟩, -⟩, -⟩, -⟩ := hunit
  have hbelow : unit.toNat < 32 := hcontrol
  have h8' : ¬ unit.toNat ≤ 8 := h8
  have h14' : 14 ≤ unit.toNat → ¬ unit.toNat ≤ 31 := h14
  have h11' : unit.toNat ≠ 11 := fun heq => h11 (UInt16.toNat_inj.mp heq)
  have h12' : unit.toNat ≠ 12 := fun heq => h12 (UInt16.toNat_inj.mp heq)
  have hthree : unit.toNat = 9 ∨ unit.toNat = 10 ∨ unit.toNat = 13 := by omega
  rcases hthree with h | h | h
  · exact .inl (UInt16.toNat_inj.mp h)
  · exact .inr (.inl (UInt16.toNat_inj.mp h))
  · exact .inr (.inr (UInt16.toNat_inj.mp h))

theorem plain_replacement : Plain 0xFFFD := ⟨fun h => absurd h (by decide), by decide, by decide⟩

/-- A unit of a clean text that is no half of a pair. -/
theorem plain_alone {unit : UInt16} (h : unit < 32 → unit = 9 ∨ unit = 10 ∨ unit = 13) :
    Plain (if isHigh unit || isLow unit then 0xFFFD else unit) := by
  split
  · exact plain_replacement
  · rename_i hlone
    rw [Bool.not_eq_true, Bool.or_eq_false_iff] at hlone
    exact ⟨h, hlone.1, hlone.2⟩

theorem weight_quoteBody {source : JsString} (h : containsForbiddenUnicode source = false) :
    weight (quoteBody (utf8 source)) ≤ 3 * source.length := by
  induction source using utf8.induct with
  | case1 => exact le_refl _
  | case2 unit hlone =>
    rw [utf8, if_pos hlone]
    exact weight_escapeUnit plain_replacement
  | case3 unit hplain =>
    rw [utf8, if_neg hplain]
    have hescape := weight_escapeUnit (plain_alone (plain_of_clean h).2)
    rw [if_neg hplain] at hescape
    simpa [quoteBody] using hescape
  | case4 unit next rest hpair ih =>
    have hrest := ih (plain_of_clean (plain_of_clean h).1).1
    have hunit := unitBytes_le unit
    have hnext := unitBytes_le next
    rw [utf8, if_pos hpair, quoteBody, isHighSurrogate_eq, isLowSurrogate_eq, if_pos hpair, weight_cons,
      weight_cons, length_cons, length_cons]
    omega
  | case5 unit next rest hpair ih =>
    have hrest := ih (plain_of_clean h).1
    have hplain := plain_alone (plain_of_clean h).2
    have hescape := weight_escapeUnit hplain
    rw [utf8, if_neg hpair, quoteBody_cons hplain.2.1, weight_append, length_cons]
    omega

theorem weight_quote {content : JsString} (h : Accepted content) : weight (quote content) ≤ 3 * content.length + 2 := by
  obtain ⟨source, rfl, -, hclean⟩ := h
  have hbody := weight_quoteBody hclean
  have hmark : unitBytes 34 = 1 := rfl
  rw [quote, weight_cons, weight_append, weight_cons, weight_nil, hmark, length_utf8]
  omega

theorem weight_joinComma (texts : List JsString) :
    weight (joinComma texts) ≤ (texts.map weight).sum + (texts.length - 1) := by
  induction texts with
  | nil => exact le_refl _
  | cons text texts ih =>
    cases texts with
    | nil => simp [joinComma]
    | cons next texts =>
      have hcomma : unitBytes 44 = 1 := rfl
      rw [joinComma_cons (by simp), weight_append, weight_cons, hcomma, map_cons, sum_cons]
      simp only [length_cons, Nat.add_sub_cancel] at ih ⊢
      omega

/-- The separators that the characters count make room for the marks of the entries. -/
theorem weight_entries {entries : List JsString} (h : ∀ entry ∈ entries, Accepted entry) :
    weight (write noNumbers (.array (entries.map .string))) ≤ 3 * characterCount entries + 5 := by
  have hquotes : ((entries.map quote).map weight).sum
      ≤ 3 * (entries.map List.length).sum + 2 * entries.length := by
    induction entries with
    | nil => exact le_refl _
    | cons entry entries ih =>
      have hentry := weight_quote (h entry mem_cons_self)
      have hrest := ih fun other hother => h other (mem_cons_of_mem _ hother)
      simp only [map_cons, sum_cons, length_cons]
      omega
  have hitems : writeItems noNumbers (entries.map .string) = entries.map quote := by
    rw [writeItems_eq, map_map]
    exact map_congr_left fun entry _ => by rw [Function.comp_apply, write]
  have hjoin := weight_joinComma (entries.map quote)
  have hopen : unitBytes 91 = 1 := rfl
  have hclose : unitBytes 93 = 1 := rfl
  rw [write, hitems, weight_cons, weight_append, weight_cons, weight_nil, hopen, hclose]
  rw [length_map] at hjoin
  unfold characterCount
  omega

/-! ## Written snapshots -/

theorem noNumbers_faithful : noNumbers.Faithful where
  nonempty number := nomatch number
  numeric number := nomatch number
  read number := nomatch number

theorem agent_ne_user : js "agent" ≠ js "user" := by decide

theorem eq_of_perm_two {α : Type} {l : List α} {a b : α} (h : l.Perm [a, b]) : l = [a, b] ∨ l = [b, a] := by
  obtain ⟨x, y, rfl⟩ := length_eq_two.mp h.length_eq
  rcases mem_cons.mp (h.subset mem_cons_self) with rfl | hx
  · exact .inl (congrArg _ (perm_singleton.mp (Perm.cons_inv h)))
  · obtain rfl := mem_singleton.mp hx
    exact .inr (congrArg _ (perm_singleton.mp (Perm.cons_inv (h.trans (.swap _ _ [])))))

theorem sorted_texts (localeCompare : JsString → JsString → Int) (texts : List JsString) :
    sorted localeCompare (.array (texts.map .string) : JsonValue Empty) = .array (texts.map .string) := by
  rw [sorted, sortedItems_eq, map_map]
  exact congrArg _ (map_congr_left fun text _ => by rw [Function.comp_apply, sorted])

/-- Whatever the collation says of the two keys. -/
theorem sorted_toJson (localeCompare : JsString → JsString → Int) (snapshot : AgentMemorySnapshot) :
    ∃ entries, sorted localeCompare (toJson snapshot) = .object entries
      ∧ (entries = [(js "agent", .array (snapshot.agent.map .string)),
          (js "user", .array (snapshot.user.map .string))]
        ∨ entries = [(js "user", .array (snapshot.user.map .string)),
          (js "agent", .array (snapshot.agent.map .string))]) := by
  refine ⟨_, by rw [toJson, sorted], eq_of_perm_two ?_⟩
  refine (sortKeys_perm _).trans (Perm.of_eq ?_)
  rw [sortedEntries, sortedEntries, sortedEntries, sorted_texts, sorted_texts]

theorem valid_texts (texts : List JsString) : Valid (.array (texts.map .string) : JsonValue Empty) := by
  refine .array fun item hitem => ?_
  obtain ⟨text, -, rfl⟩ := mem_map.mp hitem
  exact .string text

theorem textsOf_strings (texts : List JsString) : textsOf (.array (texts.map .string)) = some texts := by
  unfold textsOf
  induction texts with
  | nil => rfl
  | cons text texts ih => simp_all [mapM_cons, textOf]

theorem parse_encoded (localeCompare : JsString → JsString → Int) {snapshot : AgentMemorySnapshot}
    (h : snapshotValid snapshot = true) :
    (parse noNumbers (canonicalJson noNumbers localeCompare (toJson snapshot))).bind parseSnapshot = some snapshot := by
  obtain ⟨entries, hsorted, hentries⟩ := sorted_toJson localeCompare snapshot
  have hvalid : Valid (.object entries) := by
    refine .object ?_ fun entry hentry => ?_
    · rcases hentries with rfl | rfl
      · simpa using agent_ne_user
      · simpa using agent_ne_user.symm
    · rcases hentries with rfl | rfl <;>
      · simp only [mem_cons, not_mem_nil, or_false] at hentry
        rcases hentry with rfl | rfl <;> exact valid_texts _
  rw [canonicalJson_eq, hsorted, parse_write noNumbers_faithful hvalid, Option.bind_some]
  rcases hentries with rfl | rfl <;>
    simp [parseSnapshot, property, agent_ne_user, agent_ne_user.symm, textsOf_strings, h]

theorem weight_object {first second : JsString} {left right : JsonValue Empty} :
    weight (write noNumbers (.object [(first, left), (second, right)]))
      = weight (quote first) + weight (quote second) + weight (write noNumbers left)
        + weight (write noNumbers right) + 5 := by
  have h123 : unitBytes 123 = 1 := rfl
  have h125 : unitBytes 125 = 1 := rfl
  have h58 : unitBytes 58 = 1 := rfl
  have h44 : unitBytes 44 = 1 := rfl
  rw [write, writeEntries_eq, map_cons, joinComma_cons (by simp), map_singleton]
  simp only [joinComma, intercalate_singleton, weight_cons, weight_append, weight_nil, h123, h125, h58, h44]
  omega

/-- A snapshot of accepted entries within the limits is far from the bound in bytes. -/
theorem byteLength_encoded (localeCompare : JsString → JsString → Int) (snapshot : AgentMemorySnapshot)
    (h : ∀ target, ∀ entry ∈ snapshot.of target, Accepted entry)
    (hcapacity : ∀ target : AgentMemoryTarget, characterCount (snapshot.of target) ≤ target.limit) :
    byteLength (canonicalJson noNumbers localeCompare (toJson snapshot)) ≤ 16 * 1024 := by
  obtain ⟨entries, hsorted, hentries⟩ := sorted_toJson localeCompare snapshot
  have hagent := weight_entries (h .agent)
  have huser := weight_entries (h .user)
  have hlimit : characterCount snapshot.agent ≤ 2200 := hcapacity .agent
  have hlimit' : characterCount snapshot.user ≤ 1375 := hcapacity .user
  have hkey : weight (quote (js "agent")) = 7 := by decide
  have hkey' : weight (quote (js "user")) = 6 := by decide
  have hweight := byteLength_le (canonicalJson noNumbers localeCompare (toJson snapshot))
  rw [canonicalJson_eq, hsorted] at hweight ⊢
  simp only [AgentMemorySnapshot.of] at hagent huser
  rcases hentries with rfl | rfl
  · rw [weight_object] at hweight
    omega
  · rw [weight_object] at hweight
    omega

/-- The snapshot of the rows is written, and read again as it was. -/
def Snapshots {δ : Type} (localeCompare : JsString → JsString → Int) (rows : List (MemoryRow δ)) : Prop :=
  ∃ text, encodeAgentMemorySnapshot localeCompare (snapshot rows) = .ok text
    ∧ decodeAgentMemorySnapshot text = .ok (snapshot rows)

section
variable {δ : Type} {sha256 : JsString → δ}

theorem length_le_characterCount {entries : List JsString} {entry : JsString} (h : entry ∈ entries) :
    entry.length ≤ characterCount entries :=
  (le_sum_of_mem (mem_map_of_mem h)).trans (Nat.le_add_right _ _)

theorem snapshot_of (rows : List (MemoryRow δ)) (target : AgentMemoryTarget) :
    (snapshot rows).of target = contentsOf target rows := by
  cases target <;> rfl

variable {rows : List (MemoryRow δ)}

theorem Kept.contents (h : Kept sha256 rows) (target : AgentMemoryTarget) :
    characterCount (contentsOf target rows) ≤ target.limit ∧ ∀ entry ∈ contentsOf target rows, Accepted entry := by
  refine ⟨(characterCount_perm (contentsOf_perm target rows)).trans_le (h.capacity target), fun entry hentry => ?_⟩
  obtain ⟨row, hrow, rfl⟩ := mem_map.mp ((contentsOf_perm target rows).subset hentry)
  exact h.accepted row (mem_filter.mp hrow).1

theorem Kept.nodup_contents (h : Kept sha256 rows) (target : AgentMemoryTarget) : (contentsOf target rows).Nodup := by
  rw [(contentsOf_perm target rows).nodup_iff]
  refine (pairwise_map).mpr ((h.distinct.filter _).imp_of_mem fun {left right} hleft hright hne => ?_)
  have htarget : left.target = target := by simpa using (mem_filter.mp hleft).2
  have htarget' : right.target = target := by simpa using (mem_filter.mp hright).2
  exact hne (htarget.trans htarget'.symm)

theorem entriesValid_iff (h : Kept sha256 rows) (target : AgentMemoryTarget) :
    entriesValid target (contentsOf target rows) = true ↔ (stored target rows).length ≤ 64 := by
  unfold entriesValid
  rw [Bool.and_eq_true, decide_eq_true_iff, (contentsOf_perm target rows).length_eq]
  refine and_iff_left (all_eq_true.mpr fun entry hentry => ?_)
  obtain ⟨hcapacity, haccepted⟩ := h.contents target
  obtain ⟨source, hsource, hne, -⟩ := haccepted entry hentry
  have hlength : 1 ≤ entry.length := by
    rw [hsource, length_utf8]
    exact length_pos_iff.mpr hne
  simp [hlength, (length_le_characterCount hentry).trans hcapacity]

/-- Rows that are kept are written and read again unless a target has more than 64 entries. -/
theorem snapshots_iff (h : Kept sha256 rows) (localeCompare : JsString → JsString → Int) :
    Snapshots localeCompare rows ↔ ∀ target, (stored target rows).length ≤ 64 := by
  have hvalid : snapshotValid (snapshot rows) = true ↔ ∀ target, (stored target rows).length ≤ 64 := by
    unfold snapshotValid
    rw [Bool.and_eq_true]
    constructor
    · rintro ⟨hagent, huser⟩ target
      cases target with
      | agent => exact (entriesValid_iff h .agent).mp hagent
      | user => exact (entriesValid_iff h .user).mp huser
    · exact fun hall => ⟨(entriesValid_iff h .agent).mpr (hall .agent), (entriesValid_iff h .user).mpr (hall .user)⟩
  rw [← hvalid]
  constructor
  · rintro ⟨text, hencode, -⟩
    by_contra hinvalid
    rw [encodeAgentMemorySnapshot, if_neg hinvalid] at hencode
    cases hencode
  · intro hall
    refine ⟨_, by rw [encodeAgentMemorySnapshot, if_pos hall], ?_⟩
    have hbytes := byteLength_encoded localeCompare (snapshot rows)
      (fun target entry hentry => (h.contents target).2 entry (snapshot_of rows target ▸ hentry))
      fun target => (snapshot_of rows target).symm ▸ (h.contents target).1
    have hagent := assertCapacity_eq (h.contents .agent).1
    have huser := assertCapacity_eq (h.contents .user).1
    rw [decodeAgentMemorySnapshot, if_neg (not_lt.mpr hbytes), parse_encoded localeCompare hall]
    simp only [snapshot, hagent, huser, bind, Except.bind]

end

/-! ## Runs -/

section
variable {δ : Type} [DecidableEq δ] (sha256 : JsString → δ)

/-- The transaction that an operation runs. -/
def Op.transaction (op : Op) (store : Store δ) : Option (Call × Uuid × Time) :=
  match op with
  | .run call id now => some (call, id, now)
  | .manage _ => none
  | .resume index id now => store.pending[index]?.map fun call => (call, id, now)

/-- A 65th entry is saved for a target. -/
def Overfills (op : Op) (store : Store δ) : Prop :=
  ∃ call id now target, op.transaction store = some (call, id, now)
    ∧ 64 ≤ (stored target store.rows).length ∧ Enters sha256 store.rows id call target

theorem transact_rows (store : Store δ) (call : Call) (id : Uuid) (now : Time) :
    (store.transact sha256 call id now).rows = store.rows ∧ (∀ done, perform sha256 store.rows call id now ≠ .ok done) ∨
    ∃ done, perform sha256 store.rows call id now = .ok done ∧ (store.transact sha256 call id now).rows = done.1 := by
  unfold Store.transact
  cases hperform : perform sha256 store.rows call id now with
  | error refusal => exact .inl ⟨rfl, fun done hdone => nomatch hdone⟩
  | ok done => exact .inr ⟨done, rfl, rfl⟩

theorem exec_transaction (op : Op) (store : Store δ) :
    (op.transaction store = none ∧ (exec sha256 op store).rows = store.rows)
      ∨ ∃ call id now, op.transaction store = some (call, id, now)
        ∧ (exec sha256 op store).rows = (store.transact sha256 call id now).rows := by
  cases op with
  | run call id now => exact .inr ⟨call, id, now, rfl, rfl⟩
  | manage input =>
    refine .inl ⟨rfl, ?_⟩
    cases hcall : manage store.rows input with
    | error | ok => simp [exec, hcall]
  | resume index id now =>
    cases hcall : store.pending[index]? with
    | none => exact .inl ⟨by simp [Op.transaction, hcall], by simp [exec, hcall]⟩
    | some call => exact .inr ⟨call, id, now, by simp [Op.transaction, hcall], by simp [exec, hcall]⟩

/-- What an operation does to the rows. -/
theorem exec_rows (op : Op) (store : Store δ) : (exec sha256 op store).rows = store.rows ∨ ∃ call id now done,
    op.transaction store = some (call, id, now) ∧ perform sha256 store.rows call id now = .ok done ∧
    (exec sha256 op store).rows = done.1 := by
  rcases exec_transaction sha256 op store with ⟨-, hrows⟩ | ⟨call, id, now, htransaction, hrows⟩
  · exact .inl hrows
  · rcases transact_rows sha256 store call id now with ⟨hsame, -⟩ | ⟨done, hdone, hrows'⟩
    · exact .inl (hrows.trans hsame)
    · exact .inr ⟨call, id, now, done, htransaction, hdone, hrows.trans hrows'⟩

theorem exec_kept {op : Op} {store : Store δ} (h : Kept sha256 store.rows) :
    Kept sha256 (exec sha256 op store).rows := by
  rcases exec_rows sha256 op store with hrows | ⟨call, id, now, done, -, hdone, hrows⟩
  · exact hrows ▸ h
  · exact hrows ▸ (committing h hdone).kept

theorem kept_of_reachable {store : Store δ} (h : (memory sha256).Reachable Store.initial store) :
    Kept sha256 store.rows :=
  h.invariant (I := fun store => Kept sha256 store.rows) Kept.nil fun _ _ _ => exec_kept sha256

/-- Exactly the operations that overfill leave a target with more than 64 entries. -/
theorem exec_room {op : Op} {store : Store δ} (h : Kept sha256 store.rows)
    (hroom : ∀ target, (stored target store.rows).length ≤ 64) :
    (∀ target, (stored target (exec sha256 op store).rows).length ≤ 64) ↔ ¬ Overfills sha256 op store := by
  constructor
  · rintro hroom' ⟨call, id, now, target, htransaction, hfull, henters⟩
    obtain ⟨done, hdone, hcount⟩ := perform_enters h henters now
    rcases exec_transaction sha256 op store with ⟨hnone, -⟩ | ⟨call', id', now', hsome, hrows⟩
    · exact nomatch hnone.symm.trans htransaction
    · cases hsome.symm.trans htransaction
      rcases transact_rows sha256 store call id now with ⟨-, hnot⟩ | ⟨done', hdone', hrows'⟩
      · exact hnot done hdone
      · cases Except.ok.inj (hdone.symm.trans hdone')
        have := hroom' target
        rw [hrows, hrows', hcount] at this
        omega
  · intro hnot target
    rcases exec_rows sha256 op store with hrows | ⟨call, id, now, done, htransaction, hdone, hrows⟩
    · exact hrows ▸ hroom target
    · rw [hrows]
      rcases (committing h hdone).entered target with hfewer | ⟨henters, hmore⟩
      · exact hfewer.trans (hroom target)
      · by_contra hover
        exact hnot ⟨call, id, now, target, htransaction, by omega, henters⟩

/-- Runs in which no operation overfills a target. -/
theorem room_iff {ops : List Op} {store : Store δ} (h : Kept sha256 store.rows)
    (hroom : ∀ target, (stored target store.rows).length ≤ 64) :
    (∀ before, before <+: ops → ∀ target, (stored target ((memory sha256).after before store).rows).length ≤ 64) ↔
    ((memory sha256).restrict fun op store => ¬ Overfills sha256 op store).Valid ops store := by
  induction ops generalizing store with
  | nil =>
    refine iff_of_true (fun before hbefore => ?_) trivial
    rw [prefix_nil.mp hbefore]
    exact hroom
  | cons op ops ih =>
    constructor
    · intro hall
      have hnext := hall [op] ⟨ops, rfl⟩
      refine ⟨⟨trivial, (exec_room sha256 h hroom).mp hnext⟩, ?_⟩
      refine (ih (exec_kept sha256 h) hnext).mp fun before hbefore => ?_
      exact hall (op :: before) (cons_prefix_cons.mpr ⟨rfl, hbefore⟩)
    · rintro ⟨⟨-, hnot⟩, hvalid⟩ before hbefore
      have hnext := (exec_room sha256 h hroom).mpr hnot
      cases before with
      | nil => exact hroom
      | cons first before =>
        obtain ⟨rfl, hrest⟩ := cons_prefix_cons.mp hbefore
        exact (ih (exec_kept sha256 h) hnext).mpr hvalid before hrest

theorem kept_after (ops : List Op) : Kept sha256 ((memory sha256).after ops Store.initial).rows := by
  refine kept_of_reachable sha256 ⟨ops, ?_, rfl⟩
  induction ops using List.reverseRecOn with
  | nil => trivial
  | append_singleton ops op ih => exact ((memory sha256).valid_append _ _ _).mpr ⟨ih, trivial, trivial⟩

/-- **Memory.** Every run keeps the limits in characters, different contents and increasing versions, and a
call without a change changes nothing; snapshots are written and read again in all states of a run exactly
if no call of it saves a 65th entry for a target. -/
theorem memory_snapshots (localeCompare : JsString → JsString → Int) :
    (∀ store, (memory sha256).Reachable Store.initial store →
      (∀ target, characterCount (contentsOf target store.rows) ≤ target.limit)
      ∧ (∀ target, (contentsOf target store.rows).Nodup)
      ∧ (∀ op, ∀ row ∈ store.rows, ∀ row' ∈ (exec sha256 op store).rows, row'.id = row.id →
          row' = row ∨ row.version < row'.version)
      ∧ ∀ call id now rows result, perform sha256 store.rows call id now = .ok (rows, some result) →
          result.changed = false → rows = store.rows)
    ∧ ∀ ops, (∀ before, before <+: ops →
          Snapshots localeCompare ((memory sha256).after before Store.initial).rows)
        ↔ ((memory sha256).restrict fun op store => ¬ Overfills sha256 op store).Valid ops Store.initial := by
  refine ⟨fun store hreachable => ?_, fun ops => ?_⟩
  · have hkept := kept_of_reachable sha256 hreachable
    refine ⟨fun target => (hkept.contents target).1, hkept.nodup_contents, fun op row hrow row' hrow' hsame => ?_,
      fun call id now rows result hdone => (committing hkept hdone).unchanged result rfl⟩
    rcases exec_rows sha256 op store with hrows | ⟨call, id, now, done, -, hdone, hrows⟩
    · exact .inl (eq_of_id hkept.ids hrow (hrows ▸ hrow') hsame)
    · exact (committing hkept hdone).versions row hrow row' (hrows ▸ hrow') hsame
  · rw [← room_iff sha256 Kept.nil fun target => Nat.zero_le _]
    exact forall₂_congr fun before _ => snapshots_iff (kept_after sha256 before) localeCompare

end

/-- Entries of one character each. -/
def shortEntries (n : Nat) : List Op :=
  (List.range n).map fun index => .run (.add .user [UInt16.ofNat (0x4E00 + index)]) [UInt16.ofNat index] 0

/-- 257 characters of 1375, and no snapshot. -/
theorem memory_overfilled :
    ¬ Snapshots (fun _ _ => 0) ((memory fun text => text).after (shortEntries 65) Store.initial).rows := by
  have hinvalid : snapshotValid (snapshot ((memory fun text => text).after (shortEntries 65)
      Store.initial).rows) = false := by decide +kernel
  rintro ⟨text, hencode, -⟩
  rw [encodeAgentMemorySnapshot, hinvalid] at hencode
  cases hencode

end TsEpistle.Agents.Memory
