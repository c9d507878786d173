import TsEpistle.Library.Machine
import TsEpistle.Library.Table

/-! The authentication rate limiter. A call of `admit` reads the block of its
key, counts the attempt and writes a block in three statements; the calls of one
key run in any order, each statement with the clock reading that its process took
before sending it. -/

namespace TsEpistle.Throttling
open Library

/-- Milliseconds. -/
abbrev Time := Nat

structure RateLimitRow where
  points : Nat
  expire : Option Time
  deriving DecidableEq, Repr

/-- `expire <= now` of SQL, which a row without expiry never meets. -/
def RateLimitRow.expired (row : RateLimitRow) (now : Time) : Bool :=
  row.expire.any fun expire => expire ≤ now

structure RateLimiterRes where
  remainingPoints : Nat
  msBeforeNext : Int
  consumedPoints : Nat
  isFirstInDuration : Bool
  deriving DecidableEq, Repr

/-- `Math.max` of a difference with 0 is the subtraction of natural numbers. -/
def getRateLimiterRes (points changedPoints : Nat) (row : RateLimitRow) (now : Time) :
    RateLimiterRes where
  remainingPoints := points - row.points
  msBeforeNext := match row.expire with
    | none => -1
    | some expire => (expire - now : Nat)
  consumedPoints := row.points
  isFirstInDuration := row.points = changedPoints

def upsert (row : Option RateLimitRow) (points msDuration : Nat) (forceExpire : Bool)
    (now : Time) : RateLimitRow :=
  let newExpire := if 0 < msDuration then some (now + msDuration) else none
  match row with
  | none => ⟨points, newExpire⟩
  | some row =>
    if forceExpire then ⟨points, newExpire⟩
    else
      { points := if row.expired now then points else row.points + points
        expire := if row.expired now then newExpire else row.expire }

def get (row : Option RateLimitRow) (now : Time) : Option RateLimitRow :=
  row.filter fun row => row.expire.all fun expire => now < expire

def FREE_ATTEMPTS : Nat := 6
def ATTEMPT_LIFETIME_SECONDS : Nat := 12 * 60 * 60
def MAX_POINTS : Nat := 2000000000
def WAIT_SECONDS : List Nat := [5 * 60, 5 * 60, 10 * 60, 15 * 60, 25 * 60, 40 * 60, 60 * 60]

/-- The wait that `admit` imposes on the attempt with this number. -/
def waitSeconds (consumedPoints : Nat) : Option Nat :=
  if consumedPoints ≤ FREE_ATTEMPTS then none
  else
    let progression := consumedPoints - FREE_ATTEMPTS - 1
    if progression % 2 = 1 then none
    else
      let waitIndex := min (progression / 2) (WAIT_SECONDS.length - 1)
      some (WAIT_SECONDS.getD waitIndex (60 * 60))

/-! ## Calls -/

/-- Where a call of `admit` stands: before one of its three statements, or with
its row before it goes on. -/
inductive Phase where
  | reading
  | read (row : Option RateLimitRow)
  | counting
  | counted (row : RateLimitRow)
  | blocking (waitSeconds : Nat)
  | blocked (row : RateLimitRow)
  | answered (retryAfter : Option Int) (time : Time)
  deriving DecidableEq, Repr

structure Call where
  id : Nat
  phase : Phase
  /-- The time of its last step. -/
  since : Time
  /-- The ends of the block periods recorded before it began. -/
  recorded : List Time
  deriving DecidableEq, Repr

/-- One request key. `periods` are the ends of the block periods that refused calls
have begun, `inherited` is the block row that the key had at the start, and
`counted` is the number of attempts counted. -/
structure State where
  clock : Time
  (attempts blocks : Option RateLimitRow)
  calls : List Call
  periods : List Time
  inherited : Option (Nat × Time)
  counted : Nat
  deriving DecidableEq, Repr

namespace State

def initial (clock : Time) (attempts : Option RateLimitRow) (inherited : Option (Nat × Time)) :
    State where
  clock := clock
  attempts := attempts
  blocks := inherited.map fun block => ⟨block.1, some block.2⟩
  calls := []
  periods := []
  inherited := inherited
  counted := 0

variable (s : State)

def call (id : Nat) : Option Call := Table.get Call.id s.calls id

/-- The call goes on to `phase`. -/
def goto (call : Call) (phase : Phase) : State :=
  { s with calls := Table.replace Call.id { call with phase, since := s.clock } s.calls }

def recorded : List Time := s.periods ++ (s.inherited.map Prod.snd).toList

/-- The admitted calls. -/
def admitted : Nat := s.calls.countP fun call => call.phase matches .answered none _

/-- The block periods that have elapsed. -/
def elapsed : Nat := s.periods.countP fun endsAt => endsAt ≤ s.clock

end State

/-- Whether an upsert with this reading inserts the row or begins it anew. -/
def begins (row : Option RateLimitRow) (now : Time) : Bool :=
  row.all fun row => row.expired now

inductive Op where
  | begin (id : Nat)
  /-- The statement that the call has sent, with the clock reading it was built with. -/
  | statement (id : Nat) (now : Time)
  /-- The call receives the row of its statement. -/
  | proceed (id : Nat)
  | tick (ms : Nat)
  deriving DecidableEq, Repr

def statement (s : State) (call : Call) (now : Time) : State :=
  match call.phase with
  | .reading => s.goto call (.read (get s.blocks now))
  | .counting =>
    let row := upsert s.attempts 1 (ATTEMPT_LIFETIME_SECONDS * 1000) false now
    { s with attempts := some row, counted := s.counted + 1 }.goto call (.counted row)
  | .blocking waitSeconds =>
    let row := upsert s.blocks 1 (waitSeconds * 1000) false now
    { s with
      blocks := some row
      periods := if begins s.blocks now then row.expire.toList ++ s.periods else s.periods
      }.goto call (.blocked row)
  | .read _ | .counted _ | .blocked _ | .answered .. => s

/-- What `admit` does between its statements. -/
def proceed (s : State) (call : Call) : State :=
  match call.phase with
  | .read row =>
    match row.map fun row => (getRateLimiterRes MAX_POINTS 0 row s.clock).msBeforeNext with
    | none => s.goto call .counting
    | some msBeforeNext =>
      if 0 < msBeforeNext then s.goto call (.answered (some msBeforeNext) s.clock)
      else s.goto call .counting
  | .counted row =>
    match waitSeconds (getRateLimiterRes MAX_POINTS 1 row s.clock).consumedPoints with
    | none => s.goto call (.answered none s.clock)
    | some waitSeconds => s.goto call (.blocking waitSeconds)
  | .blocked row =>
    s.goto call (.answered (some (getRateLimiterRes MAX_POINTS 1 row s.clock).msBeforeNext) s.clock)
  | .reading | .counting | .blocking _ | .answered .. => s

def enabled (op : Op) (s : State) : Prop :=
  match op with
  | .begin id => s.call id = none
  | .statement id now => ∃ call ∈ s.call id, call.since ≤ now ∧ now ≤ s.clock
  | .proceed id => (s.call id).isSome
  | .tick _ => True

instance (op : Op) (s : State) : Decidable (enabled op s) :=
  match op with
  | .begin id => inferInstanceAs (Decidable (s.call id = none))
  | .statement id now =>
    inferInstanceAs (Decidable (∃ call ∈ s.call id, call.since ≤ now ∧ now ≤ s.clock))
  | .proceed id => inferInstanceAs (Decidable ((s.call id).isSome))
  | .tick _ => .isTrue trivial

def exec (op : Op) (s : State) : State :=
  match op with
  | .begin id =>
    { s with calls := s.calls ++ [⟨id, .reading, s.clock, s.recorded⟩] }
  | .statement id now => (s.call id).elim s fun call => statement s call now
  | .proceed id => (s.call id).elim s fun call => proceed s call
  | .tick ms => { s with clock := s.clock + ms }

def limiter : Machine State Op := ⟨enabled, exec⟩

end TsEpistle.Throttling
