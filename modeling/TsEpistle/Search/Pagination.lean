import TsEpistle.Json.Values
import TsEpistle.Library.Decimal
import TsEpistle.Library.Machine

/-! Search results page by page (`server/helpers/search-pagination.ts`). A call reads the snapshots, awaits its search,
and reads and writes them again; other calls run in between. -/

namespace TsEpistle.Search
open Library Json

/-- What `identity` reads of a row; `none` is `undefined`. -/
structure SearchRow (ν : Type) where
  id : Option (JsonValue ν)
  (locale path : JsString)
  visibility : Option (JsonValue ν)

structure SearchWindow (ρ : Type) where
  results : List ρ
  suggestions : List JsString
  totalHits : Nat
  windowTruncated : Option Bool
  windowLimit : Option Nat

structure Snapshot where
  (owner queryKey : JsString)
  identities : List JsString
  pageIds : List Nat
  expiresAt : Int
  deriving DecidableEq

def PAGE_SIZE : Nat := 20

def MAX_SNAPSHOTS : Nat := 128

def RETENTION : Int := 5 * 60000

structure SearchCursorError where
  message : String
  deriving DecidableEq

def expired : SearchCursorError := ⟨"This search has expired. Search again for current results."⟩

def invalidCursor : SearchCursorError := ⟨"This search cursor is invalid. Search again."⟩

/-! ## Maps and sets -/

abbrev Snapshots := List (JsString × Snapshot)

def getSnapshot (token : JsString) (snapshots : Snapshots) : Option Snapshot :=
  (snapshots.find? fun entry => entry.1 = token).map Prod.snd

/-- `Map.set`: an entry that is there keeps its place. -/
def setSnapshot (token : JsString) (snapshot : Snapshot) (snapshots : Snapshots) : Snapshots :=
  if snapshots.any (·.1 = token) then snapshots.map fun entry => if entry.1 = token then (token, snapshot) else entry
  else snapshots ++ [(token, snapshot)]

/-- The oldest entries make place. -/
def evict : Snapshots → Snapshots
  | [] => []
  | entry :: rest => if MAX_SNAPSHOTS ≤ (entry :: rest).length then evict rest else entry :: rest

def purge (now : Int) (snapshots : Snapshots) : Snapshots := snapshots.filter fun entry => now < entry.2.expiresAt

/-- `[...new Set(keys)]`. -/
def distinct {κ : Type} [DecidableEq κ] : List κ → List κ
  | [] => []
  | key :: keys => key :: (distinct keys).filter (· ≠ key)

/-! ## Cursors -/

/-- `[0-9a-f-]` -/
def isTokenUnit (unit : UInt16) : Bool := isDigit unit || (97 ≤ unit && unit ≤ 102) || unit = 45

def isToken (token : JsString) : Bool := token.length = 36 && token.all isTokenUnit

/-- `/^([0-9a-f-]{36}):(\d{1,5})$/` -/
def parseCursor (cursor : JsString) : Option (JsString × Nat) :=
  let token := cursor.take 36
  let digits := cursor.drop 37
  if isToken token && cursor[36]? = some 58 && 1 ≤ digits.length && digits.length ≤ 5 && digits.all isDigit then
    some (token, decimalValue digits)
  else none

def cursorText (token : JsString) (offset : Nat) : JsString := token ++ 58 :: decimal offset

/-! ## Calls -/

structure Call where
  (owner queryKey : JsString)
  cursor : Option JsString
  now : Int
  deriving DecidableEq

/-- The cursor of a continuation; an empty one is none. -/
def Call.continues (call : Call) : Option JsString := call.cursor.filter fun cursor => !cursor.isEmpty

/-- A call while it waits for its search. -/
structure Waiting where
  call : Call
  token : JsString
  offset : Nat
  snapshot : Option Snapshot
  deriving DecidableEq

/-- The part of a call before its search, with the snapshots after the expired ones are gone. -/
def begin (call : Call) (token : JsString) (snapshots : Snapshots) : Except SearchCursorError Waiting :=
  match call.continues with
  | none => .ok ⟨call, token, 0, none⟩
  | some cursor =>
    match parseCursor cursor with
    | none => .error expired
    | some (token, offset) =>
      match getSnapshot token snapshots with
      | none => .error expired
      | some snapshot =>
        if snapshot.owner ≠ call.owner ∨ snapshot.queryKey ≠ call.queryKey then .error expired
        else if snapshot.identities.length < offset then .error invalidCursor
        else .ok ⟨call, token, offset, some snapshot⟩

section
variable {ρ ν : Type} (numbers : Numbers ν) (pageId : ν → Option Nat) (view : ρ → SearchRow ν)

/-- `JSON.stringify([row.id, row.locale, row.path, row.visibility])`. -/
def identity (row : ρ) : JsString :=
  let row := view row
  write numbers (.array [row.id.getD .null, .string row.locale, .string row.path, row.visibility.getD .null])

/-- The positive safe integer that the id of a row is. -/
def canonicalId (row : ρ) : Option Nat :=
  match (view row).id with
  | some (.number id) => pageId id
  | _ => none

def newSnapshot (call : Call) (response : SearchWindow ρ) : Snapshot where
  owner := call.owner
  queryKey := call.queryKey
  identities := distinct (response.results.map (identity numbers view))
  pageIds := distinct (response.results.filterMap (canonicalId pageId view))
  expiresAt := call.now + RETENTION

/-- `current.get(key)`: of rows with one identity the last one counts. -/
def currentRow (response : SearchWindow ρ) (key : JsString) : Option ρ :=
  response.results.reverse.find? fun row => identity numbers view row = key

/-- The rows for the next identities, and how many identities were passed for them. -/
def select (current : JsString → Option ρ) : List JsString → Nat → List ρ × Nat
  | [], _ => ([], 0)
  | _ :: _, 0 => ([], 0)
  | key :: keys, room + 1 =>
    match current key with
    | some row => (row :: (select current keys room).1, (select current keys room).2 + 1)
    | none => ((select current keys (room + 1)).1, (select current keys (room + 1)).2 + 1)

structure Page (ρ : Type) where
  window : SearchWindow ρ
  nextCursor : Option JsString
  snapshotCount : Nat

/-- The part of a call after its search. -/
def page (token : JsString) (offset : Nat) (snapshot : Snapshot) (response : SearchWindow ρ) : Page ρ :=
  let current := currentRow numbers view response
  let visible := (snapshot.identities.filter fun key => (current key).isSome).length
  let selected := select current (snapshot.identities.drop offset) PAGE_SIZE
  let offset := offset + selected.2
  let hasMore := (snapshot.identities.drop offset).any fun key => (current key).isSome
  { window := { response with results := selected.1, totalHits := visible }
    nextCursor := if hasMore then some (cursorText token offset) else none
    snapshotCount := visible }

/-! ## Runs -/

/-- A call that was answered with a page. -/
structure Answered (ρ : Type) where
  call : Call
  first : Bool
  token : JsString
  offset : Nat
  snapshot : Snapshot
  response : SearchWindow ρ
  page : Page ρ

structure State (ρ : Type) where
  snapshots : Snapshots
  waiting : List Waiting
  answered : List (Answered ρ)
  failed : List (Call × SearchCursorError)
  tokens : List JsString

def State.initial : State ρ := ⟨[], [], [], [], []⟩

inductive Operation (ρ : Type)
  /-- A call comes in, and `randomUUID` answers with a token. -/
  | start (call : Call) (token : JsString)
  /-- The search of a call answers. -/
  | answer (index : Nat) (response : SearchWindow ρ)
  /-- The search of a call fails. -/
  | reject (index : Nat)

def State.start (state : State ρ) (call : Call) (token : JsString) : State ρ :=
  let snapshots := purge call.now state.snapshots
  match begin call token snapshots with
  | .error error =>
    { state with snapshots, failed := state.failed ++ [(call, error)], tokens := token :: state.tokens }
  | .ok waiting => { state with snapshots, waiting := state.waiting ++ [waiting], tokens := token :: state.tokens }

def State.answer (state : State ρ) (index : Nat) (waiting : Waiting) (response : SearchWindow ρ) : State ρ :=
  let snapshot := waiting.snapshot.getD (newSnapshot numbers pageId view waiting.call response)
  { state with
    snapshots := if waiting.snapshot.isSome then state.snapshots
      else setSnapshot waiting.token snapshot (evict state.snapshots)
    waiting := state.waiting.eraseIdx index
    answered :=
      state.answered ++ [⟨waiting.call, waiting.snapshot.isNone, waiting.token, waiting.offset, snapshot, response,
      page numbers view waiting.token waiting.offset snapshot response⟩] }

/-- `randomUUID` gives texts of its form, and none twice. -/
def paginateSearch : Machine (State ρ) (Operation ρ) where
  enabled op state := match op with
    | .start _ token => isToken token = true ∧ token ∉ state.tokens
    | .answer index _ => index < state.waiting.length
    | .reject index => index < state.waiting.length
  exec op state := match op with
    | .start call token => state.start call token
    | .answer index response =>
      match state.waiting[index]? with
      | none => state
      | some waiting => state.answer numbers pageId view index waiting response
    | .reject index => { state with waiting := state.waiting.eraseIdx index }

instance : ∀ op (state : State ρ), Decidable ((paginateSearch numbers pageId view).enabled op state)
  | .start _ _, _ => inferInstanceAs (Decidable (_ ∧ _))
  | .answer _ _, _ => inferInstanceAs (Decidable (_ < _))
  | .reject _, _ => inferInstanceAs (Decidable (_ < _))

end

end TsEpistle.Search
