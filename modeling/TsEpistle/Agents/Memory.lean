import TsEpistle.Agents.DispatchAccounting
import TsEpistle.Json.Values
import TsEpistle.LiveNotes.Title
import TsEpistle.Pages.Approvals

/-! The memory of an owner's agent (`server/agents/memory.ts`): what is accepted, what each call does to
the rows, and the snapshot that a new session starts with. Receipts of manual changes are left out. -/

namespace TsEpistle.Agents.Memory
open Library Json
open Pages (isSpace trim)
open LiveNotes (byteLength)

/-! ## Texts -/

def isHigh (unit : UInt16) : Bool := 0xD800 ≤ unit && unit < 0xDC00
def isLow (unit : UInt16) : Bool := 0xDC00 ≤ unit && unit < 0xE000

/-- The text that its UTF-8 bytes hold, in a hash or in the database: a lone surrogate becomes
U+FFFD. -/
def utf8 : JsString → JsString
  | [] => []
  | [unit] => if isHigh unit || isLow unit then [0xFFFD] else [unit]
  | unit :: next :: rest =>
    if isHigh unit && isLow next then unit :: next :: utf8 rest
    else (if isHigh unit || isLow unit then 0xFFFD else unit) :: utf8 (next :: rest)

/-- `containsForbiddenUnicode`; no forbidden character takes two units. -/
def containsForbiddenUnicode (value : JsString) : Bool :=
  value.any fun code => code ≤ 8 || code = 11 || code = 12 || (14 ≤ code && code ≤ 31) || code = 127
    || (0x200B ≤ code && code ≤ 0x200F) || (0x202A ≤ code && code ≤ 0x202E)
    || (0x2060 ≤ code && code ≤ 0x206F) || code = 0xFEFF

/-- Letters of one case, as the flags `iu` compare them. -/
def foldUnit (unit : UInt16) : UInt16 :=
  if 65 ≤ unit && unit ≤ 90 then unit + 32
  else if unit = 0x17F then 115
  else if unit = 0x212A then 107
  else unit

/-- `\w` under the flags `iu`. -/
def isWordUnit (unit : UInt16) : Bool :=
  (48 ≤ unit && unit ≤ 57) || (97 ≤ foldUnit unit && foldUnit unit ≤ 122) || unit = 95

def dropFolded : JsString → JsString → Option JsString
  | [], text => some text
  | letter :: word, unit :: text => if foldUnit unit = letter then dropFolded word text else none
  | _ :: _, [] => none

/-- What follows one of these words where it ends at `\b`. -/
def afterWord (words : List JsString) (text : JsString) : List JsString :=
  words.filterMap fun word => (dropFolded word text).filter fun rest =>
    !(rest.head?.any isWordUnit)

/-- The places of a text that `\b` precedes and a word follows. -/
def wordStarts : Bool → JsString → List JsString
  | _, [] => []
  | inWord, unit :: rest =>
    (if isWordUnit unit && !inWord then [unit :: rest] else []) ++ wordStarts (isWordUnit unit) rest

def places : JsString → List JsString
  | [] => []
  | unit :: rest => (unit :: rest) :: places rest

def ROLE_FENCE (value : JsString) : Bool :=
  (places value).any fun place =>
    match place with
    | 60 :: rest =>
      let rest := if rest.head? = some 47 then rest.tail else rest
      !(afterWord [js "system", js "developer", js "assistant", js "tool", js "memory-context"]
        (rest.dropWhile isSpace)).isEmpty
    | _ => false

/-- The places within `n` characters, each with whether a word unit stands before it. -/
def within : Nat → Bool → JsString → List (Bool × JsString)
  | 0, inWord, text => [(inWord, text)]
  | _ + 1, inWord, [] => [(inWord, [])]
  | n + 1, inWord, unit :: rest =>
    (inWord, unit :: rest) ::
      match rest with
      | next :: rest' =>
        if isHigh unit && isLow next then within n false rest'
        else within n (isWordUnit unit) (next :: rest')
      | [] => within n (isWordUnit unit) []

def OVERRIDE_LANGUAGE (value : JsString) : Bool :=
  (wordStarts false value).any fun start =>
    (afterWord [js "ignore", js "disregard", js "override"] start).any fun rest =>
      (within 80 true rest).any fun place => !place.1 &&
        !(afterWord [js "instruction", js "instructions", js "system prompt", js "policy", js "policies"]
          place.2).isEmpty

def EMBEDDED_SECRET (value : JsString) : Bool :=
  (wordStarts false value).any fun start =>
    (afterWord [js "apikey", js "api key", js "api_key", js "api-key", js "password", js "secret",
      js "bearer token"] start).any fun rest =>
      match rest.dropWhile isSpace with
      | 58 :: secret => !(secret.dropWhile isSpace).isEmpty
      | 61 :: secret => !(secret.dropWhile isSpace).isEmpty
      | _ => false

/-! ## Entries -/

inductive AgentMemoryTarget
  | agent
  | user
  deriving DecidableEq, Repr

/-- `AGENT_MEMORY_LIMITS`. -/
def AgentMemoryTarget.limit : AgentMemoryTarget → Nat
  | agent => 2200
  | user => 1375

structure MemoryRow (δ : Type) where
  id : Uuid
  target : AgentMemoryTarget
  content : JsString
  contentSha256 : δ
  version : Nat
  (createdAt updatedAt : Time)
  deriving DecidableEq

structure AgentMemorySnapshot where
  (agent user : List JsString)
  deriving DecidableEq

def AgentMemorySnapshot.of (snapshot : AgentMemorySnapshot) : AgentMemoryTarget → List JsString
  | .agent => snapshot.agent
  | .user => snapshot.user

structure AgentMemoryMutationResult where
  changed : Bool
  message : String
  target : AgentMemoryTarget
  entries : List JsString
  (characters limit : Nat)
  deriving DecidableEq

/-- The length of the entries joined with a separator of three units. -/
def characterCount (entries : List JsString) : Nat :=
  (entries.map List.length).sum + 3 * (entries.length - 1)

def normalizeContent (target : AgentMemoryTarget) (value : JsString) :
    Except AgentRepositoryError JsString :=
  let content := trim value
  if content.isEmpty then refuse "INVALID_AGENT_MEMORY" "Memory content cannot be empty" 400
  else if target.limit < content.length then
    refuse "INVALID_AGENT_MEMORY" "Memory entry exceeds its store capacity" 400
  else if containsForbiddenUnicode content || ROLE_FENCE content || OVERRIDE_LANGUAGE content
      || EMBEDDED_SECRET content then
    refuse "UNSAFE_AGENT_MEMORY"
      "Memory content contains instruction-like, invisible, or secret-bearing text and was not saved" 400
  else .ok content

/-- `toLocaleString` of a number below a million. -/
def localeString (n : Nat) : String :=
  if n < 1000 then toString n
  else toString (n / 1000) ++ "," ++ toString (n / 100 % 10) ++ toString (n / 10 % 10) ++ toString (n % 10)

def assertCapacity (target : AgentMemoryTarget) (entries : List JsString) :
    Except AgentRepositoryError Nat :=
  let characters := characterCount entries
  if target.limit < characters then
    refuse "AGENT_MEMORY_FULL" ("Memory is at " ++ localeString characters ++ "/"
      ++ localeString target.limit
      ++ " characters. Consolidate or remove an entry before saving.") 409
  else .ok characters

/-! ## Rows -/

section
variable {δ : Type}

/-- The order of `createdAt` and `id`. -/
def ordered (rows : List (MemoryRow δ)) : List (MemoryRow δ) :=
  rows.insertionSort fun left right =>
    left.createdAt < right.createdAt ∨ (left.createdAt = right.createdAt ∧ left.id ≤ right.id)

def entriesOf (target : AgentMemoryTarget) (rows : List (MemoryRow δ)) : List (MemoryRow δ) :=
  (ordered rows).filter fun row => row.target = target

def contentsOf (target : AgentMemoryTarget) (rows : List (MemoryRow δ)) : List JsString :=
  (entriesOf target rows).map (·.content)

def mutationResult (rows : List (MemoryRow δ)) (target : AgentMemoryTarget) (changed : Bool)
    (message : String) : AgentMemoryMutationResult where
  changed := changed
  message := message
  target := target
  entries := contentsOf target rows
  characters := characterCount (contentsOf target rows)
  limit := target.limit

def snapshot (rows : List (MemoryRow δ)) : AgentMemorySnapshot where
  agent := contentsOf .agent rows
  user := contentsOf .user rows

variable [DecidableEq δ] (sha256 : JsString → δ)

/-- The rows after a transaction that commits, and its answer. -/
abbrev Committed (δ : Type) := List (MemoryRow δ) × AgentMemoryMutationResult

/-- `randomUUID` and the clock give `id` and `now`; a row with this id would refuse the insert. The
table stores UTF-8, the answer shows the content that came. -/
def add (rows : List (MemoryRow δ)) (target : AgentMemoryTarget) (rawContent : JsString) (id : Uuid)
    (now : Time) : Except AgentRepositoryError (Committed δ) := do
  let content ← normalizeContent target rawContent
  let hash := sha256 (utf8 content)
  if rows.any fun row => row.target = target && row.contentSha256 = hash then
    return (rows, mutationResult rows target false "Memory already exists; no duplicate was added.")
  let _ ← assertCapacity target
    ((rows.filter fun row => row.target = target).map (·.content) ++ [content])
  if rows.any fun row => row.id = id then refuse "DATABASE" "duplicate key" 500
  else
    let row : JsString → MemoryRow δ := fun content => ⟨id, target, content, hash, 1, now, now⟩
    return (rows ++ [row (utf8 content)],
      mutationResult (rows ++ [row content]) target true "Memory saved for new conversations.")

def memoryNotFound : AgentRepositoryError :=
  ⟨"AGENT_RESOURCE_NOT_FOUND", "Memory entry was not found", 404⟩
def memoryVersionChanged : AgentRepositoryError :=
  ⟨"AGENT_MEMORY_VERSION_CHANGED", "Memory entry changed concurrently", 409⟩

def update (rows : List (MemoryRow δ)) (id : Uuid) (expectedVersion : Nat) (target : AgentMemoryTarget)
    (rawContent : JsString) (now : Time) : Except AgentRepositoryError (Committed δ) := do
  let content ← normalizeContent target rawContent
  match rows.find? fun row => row.id = id with
  | none => .error memoryNotFound
  | some current =>
    if current.version ≠ expectedVersion then .error memoryVersionChanged
    else
      let hash := sha256 (utf8 content)
      if rows.any fun row => row.id ≠ id && row.target = target && row.contentSha256 = hash then
        refuse "AGENT_MEMORY_DUPLICATE" "An identical memory entry already exists" 409
      else
        let next : JsString → MemoryRow δ := fun content =>
          ⟨id, target, content, hash, expectedVersion + 1, current.createdAt, now⟩
        let nextRows := fun content => rows.map fun row => if row.id = id then next content else row
        let _ ← assertCapacity target
          (((nextRows content).filter fun row => row.target = target).map (·.content))
        if current.target = target && current.content = content then
          return (rows, mutationResult rows target false "Memory was already up to date.")
        else
          return (nextRows (utf8 content),
            mutationResult (nextRows content) target true "Memory updated for new conversations.")

def remove (rows : List (MemoryRow δ)) (id : Uuid) (expectedVersion : Nat) :
    Except AgentRepositoryError (Committed δ) :=
  match rows.find? fun row => row.id = id with
  | none => .error memoryNotFound
  | some current =>
    if current.version ≠ expectedVersion then .error memoryVersionChanged
    else
      let rows := rows.filter fun row => row.id ≠ id
      .ok (rows, mutationResult rows current.target true "Memory removed from new conversations.")

/-! ## Calls -/

inductive Call
  | add (target : AgentMemoryTarget) (content : JsString)
  | update (id : Uuid) (expectedVersion : Nat) (target : AgentMemoryTarget) (content : JsString)
  | remove (id : Uuid) (expectedVersion : Nat)
  | clear
  deriving DecidableEq

inductive Action
  | add
  | replace
  | remove
  deriving DecidableEq

structure ManageInput where
  target : AgentMemoryTarget
  action : Action
  (content oldText : JsString)
  deriving DecidableEq

/-- The call that `manage` makes after it has read the list. -/
def manage (rows : List (MemoryRow δ)) (input : ManageInput) : Except AgentRepositoryError Call :=
  if input.action = .add then .ok (.add input.target input.content)
  else
    let oldText := trim input.oldText
    if oldText.isEmpty then
      refuse "INVALID_AGENT_MEMORY" "oldText is required for replace and remove" 400
    else
      match (entriesOf input.target rows).filter fun row => decide (oldText <:+: row.content) with
      | [] => refuse "AGENT_MEMORY_MATCH_NOT_FOUND" "No memory entry matched oldText" 409
      | [entry] =>
        if input.action = .remove then .ok (.remove entry.id entry.version)
        else .ok (.update entry.id entry.version input.target input.content)
      | _ => refuse "AGENT_MEMORY_MATCH_AMBIGUOUS"
          "Multiple memory entries matched oldText; use a more specific substring" 409

/-- One transaction. -/
def perform (rows : List (MemoryRow δ)) (call : Call) (id : Uuid) (now : Time) :
    Except AgentRepositoryError (List (MemoryRow δ) × Option AgentMemoryMutationResult) :=
  match call with
  | .add target content => (add sha256 rows target content id now).map fun done => (done.1, some done.2)
  | .update id expectedVersion target content =>
    (update sha256 rows id expectedVersion target content now).map fun done => (done.1, some done.2)
  | .remove id expectedVersion => (remove rows id expectedVersion).map fun done => (done.1, some done.2)
  | .clear => .ok ([], none)

/-- The rows of the owner, and the calls that `manage` has still to make. -/
structure Store (δ : Type) where
  rows : List (MemoryRow δ)
  pending : List Call

inductive Op
  | run (call : Call) (id : Uuid) (now : Time)
  | manage (input : ManageInput)
  | resume (index : Nat) (id : Uuid) (now : Time)

def Store.transact (store : Store δ) (call : Call) (id : Uuid) (now : Time) : Store δ :=
  match perform sha256 store.rows call id now with
  | .ok done => { store with rows := done.1 }
  | .error _ => store

def exec (op : Op) (store : Store δ) : Store δ :=
  match op with
  | .run call id now => store.transact sha256 call id now
  | .manage input =>
    match manage store.rows input with
    | .ok call => { store with pending := store.pending ++ [call] }
    | .error _ => store
  | .resume index id now =>
    match store.pending[index]? with
    | some call => { store.transact sha256 call id now with pending := store.pending.eraseIdx index }
    | none => store

def memory : Machine (Store δ) Op where
  enabled _ _ := True
  exec := exec sha256

def Store.initial : Store δ := ⟨[], []⟩
end

/-! ## Snapshots -/

def entriesValid (target : AgentMemoryTarget) (entries : List JsString) : Bool :=
  entries.length ≤ 64 && entries.all fun entry => 1 ≤ entry.length && entry.length ≤ target.limit

/-- `SnapshotSchema`. -/
def snapshotValid (snapshot : AgentMemorySnapshot) : Bool :=
  entriesValid .agent snapshot.agent && entriesValid .user snapshot.user

/-- A snapshot has no numbers. -/
def noNumbers : Numbers Empty where
  text number := nomatch number
  read _ := none

def toJson (snapshot : AgentMemorySnapshot) : JsonValue Empty :=
  .object [(js "agent", .array (snapshot.agent.map .string)), (js "user", .array (snapshot.user.map .string))]

def textOf : JsonValue Empty → Option JsString
  | .string value => some value
  | _ => none

def textsOf : JsonValue Empty → Option (List JsString)
  | .array items => items.mapM textOf
  | _ => none

def property (entries : List (JsString × JsonValue Empty)) (key : JsString) : Option (JsonValue Empty) :=
  (entries.find? fun entry => entry.1 = key).map (·.2)

def parseSnapshot : JsonValue Empty → Option AgentMemorySnapshot
  | .object entries =>
    if entries.all fun entry => entry.1 = js "agent" || entry.1 = js "user" then do
      let agent ← (property entries (js "agent")).bind textsOf
      let user ← (property entries (js "user")).bind textsOf
      let snapshot : AgentMemorySnapshot := ⟨agent, user⟩
      if snapshotValid snapshot then some snapshot else none
    else none
  | _ => none

/-- `SnapshotSchema.parse` throws a schema error. -/
def schemaError : AgentRepositoryError := ⟨"ZodError", "Invalid memory snapshot", 500⟩

def encodeAgentMemorySnapshot (localeCompare : JsString → JsString → Int) (snapshot : AgentMemorySnapshot) :
    Except AgentRepositoryError JsString :=
  if snapshotValid snapshot then .ok (canonicalJson noNumbers localeCompare (toJson snapshot))
  else .error schemaError

def decodeAgentMemorySnapshot (value : JsString) : Except AgentRepositoryError AgentMemorySnapshot :=
  if 16 * 1024 < byteLength value then
    refuse "AGENT_MEMORY_SNAPSHOT_CORRUPT" "Stored memory snapshot is too large" 500
  else
    match (parse noNumbers value).bind parseSnapshot with
    | none => refuse "AGENT_MEMORY_SNAPSHOT_CORRUPT" "Stored memory snapshot is invalid" 500
    | some snapshot => do
        let _ ← assertCapacity .agent snapshot.agent
        let _ ← assertCapacity .user snapshot.user
        .ok snapshot

end TsEpistle.Agents.Memory
