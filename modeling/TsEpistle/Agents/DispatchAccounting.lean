import TsEpistle.Library.JsString

/-! The dispatch journal of a run (`server/agents/dispatch-accounting.ts`): provider
dispatches are reserved with an exposure and later reconciled with a measured usage or
released, and the journal is read back as a usage and an unresolved exposure. Records
stand decoded: their text and its hash are written together and never changed. -/

namespace TsEpistle.Agents
open Library

abbrev Uuid := JsString
abbrev Time := Int

structure AgentRepositoryError where
  (code message : String)
  status : Nat
  deriving DecidableEq, Repr

def refuse {α : Type} (code message : String) (status : Nat) : Except AgentRepositoryError α :=
  .error ⟨code, message, status⟩

/-- `Number.MAX_SAFE_INTEGER`. -/
def maxSafeInteger : Nat := 9007199254740991

/-- Tokens and cost, as quotas, exposures and settlement intents hold them. -/
structure Amount where
  (tokens costMicros : Nat)
  deriving DecidableEq, Repr

/-- The measured usage of a run or a dispatch. -/
structure Usage where
  (inputTokens outputTokens totalTokens costMicros : Nat)
  deriving DecidableEq, Repr

namespace Amount

def zero : Amount := ⟨0, 0⟩

/-- `> 0` in one of the two. -/
def positive (a : Amount) : Bool := a.tokens > 0 || a.costMicros > 0

def safe (a : Amount) : Bool := a.tokens ≤ maxSafeInteger && a.costMicros ≤ maxSafeInteger

/-- `Math.max` in both. -/
def max (a b : Amount) : Amount := ⟨Nat.max a.tokens b.tokens, Nat.max a.costMicros b.costMicros⟩

/-- At most in both. -/
structure Le (a b : Amount) : Prop where
  tokens : a.tokens ≤ b.tokens
  costMicros : a.costMicros ≤ b.costMicros

theorem Le.refl (a : Amount) : a.Le a := ⟨le_refl _, le_refl _⟩

theorem Le.trans {a b c : Amount} (h : a.Le b) (h' : b.Le c) : a.Le c :=
  ⟨h.tokens.trans h'.tokens, h.costMicros.trans h'.costMicros⟩

theorem zero_le (a : Amount) : zero.Le a := ⟨Nat.zero_le _, Nat.zero_le _⟩

theorem le_max_left (a b : Amount) : a.Le (a.max b) := ⟨Nat.le_max_left _ _, Nat.le_max_left _ _⟩

theorem le_max_right (a b : Amount) : b.Le (a.max b) := ⟨Nat.le_max_right _ _, Nat.le_max_right _ _⟩

theorem positive_eq_false_iff {a : Amount} : a.positive = false ↔ a = zero := by
  cases a
  simp [positive, zero]

theorem safe_iff {a : Amount} : a.safe = true ↔ a.tokens ≤ maxSafeInteger ∧ a.costMicros ≤ maxSafeInteger := by
  simp [safe]

end Amount

namespace Usage

def zero : Usage := ⟨0, 0, 0, 0⟩

def safe (u : Usage) : Bool :=
  u.inputTokens ≤ maxSafeInteger && u.outputTokens ≤ maxSafeInteger
    && u.totalTokens ≤ maxSafeInteger && u.costMicros ≤ maxSafeInteger

/-- What a usage charges to a quota. -/
def amount (u : Usage) : Amount := ⟨u.totalTokens, u.costMicros⟩

/-- `assertAgentTokenUsage` passes. -/
def consistent (u : Usage) : Bool := u.safe && u.inputTokens + u.outputTokens ≤ u.totalTokens

end Usage

/-- What a journal, or the baseline of its first record, amounts to. -/
structure AgentDispatchAccountingState where
  usage : Usage
  exposure : Amount
  deriving DecidableEq, Repr

inductive AgentDispatchAccountingRecord
  | reserved (dispatchId : Uuid) (exposure : Amount)
      (baseline : Option AgentDispatchAccountingState)
  | reconciled (dispatchId : Uuid) (usage : Usage)
  | released (dispatchId : Uuid)
  deriving DecidableEq, Repr

/-- `AgentDispatchAccountingRecordSchema` accepts the record. -/
def AgentDispatchAccountingRecord.accepted : AgentDispatchAccountingRecord → Bool
  | .reserved _ exposure none => exposure.safe
  | .reserved _ exposure (some baseline) =>
    exposure.safe && baseline.usage.safe && baseline.exposure.safe
  | .reconciled _ usage => usage.safe
  | .released _ => true

def dispatchCorrupt : AgentRepositoryError :=
  ⟨"AGENT_QUOTA_CORRUPT", "Stored dispatch accounting is incomplete or invalid", 500⟩

/-- `sum`, in each of the numbers. -/
def addUsage (left right : Usage) : Except AgentRepositoryError Usage :=
  let result : Usage :=
    ⟨left.inputTokens + right.inputTokens, left.outputTokens + right.outputTokens,
      left.totalTokens + right.totalTokens, left.costMicros + right.costMicros⟩
  if result.safe then .ok result else .error dispatchCorrupt

def addExposure (left right : Amount) : Except AgentRepositoryError Amount :=
  let result : Amount := ⟨left.tokens + right.tokens, left.costMicros + right.costMicros⟩
  if result.safe then .ok result else .error dispatchCorrupt

/-- The variables of the loop over the records: `active` are the dispatches reserved and
not settled, in the order of their reservation. -/
structure DispatchJournal where
  state : Option AgentDispatchAccountingState
  active : List (Uuid × Amount)
  identified : List Uuid
  deriving DecidableEq, Repr

namespace DispatchJournal

def empty : DispatchJournal := ⟨none, [], []⟩

/-- A `reserved` record. Only the first one carries a baseline. -/
def reserve (journal : DispatchJournal) (dispatchId : Uuid) (exposure : Amount)
    (baseline : Option AgentDispatchAccountingState) :
    Except AgentRepositoryError DispatchJournal :=
  if journal.identified.contains dispatchId then .error dispatchCorrupt
  else
    let reserved (state : AgentDispatchAccountingState) : DispatchJournal :=
      ⟨some state, journal.active ++ [(dispatchId, exposure)], journal.identified ++ [dispatchId]⟩
    match journal.state, baseline with
    | none, some baseline =>
      if baseline.usage.consistent then .ok (reserved baseline) else .error dispatchCorrupt
    | some state, none => .ok (reserved state)
    | none, none => .error dispatchCorrupt
    | some _, some _ => .error dispatchCorrupt

/-- `active.delete(dispatchId)` of a journal that has begun. -/
def settle (journal : DispatchJournal) (dispatchId : Uuid) :
    Except AgentRepositoryError (AgentDispatchAccountingState × List (Uuid × Amount)) :=
  match journal.state with
  | none => .error dispatchCorrupt
  | some state =>
    if journal.active.any (fun dispatch => dispatch.1 = dispatchId) then
      .ok (state, journal.active.filter fun dispatch => dispatch.1 ≠ dispatchId)
    else .error dispatchCorrupt

/-- The body of the loop. -/
def read (journal : DispatchJournal) (record : AgentDispatchAccountingRecord) :
    Except AgentRepositoryError DispatchJournal :=
  if !record.accepted then .error dispatchCorrupt
  else
    match record with
    | .reserved dispatchId exposure baseline => journal.reserve dispatchId exposure baseline
    | .reconciled dispatchId usage => do
        let (state, active) ← journal.settle dispatchId
        if !usage.consistent then .error dispatchCorrupt
        else
          let total ← addUsage state.usage usage
          .ok { journal with state := some { state with usage := total }, active }
    | .released dispatchId => do
        let (state, active) ← journal.settle dispatchId
        .ok { journal with state := some state, active }

end DispatchJournal

/-- The journal of a run's `dispatch.accounting` records; `none` where there are none. -/
def readAgentDispatchAccounting (records : List AgentDispatchAccountingRecord) :
    Except AgentRepositoryError (Option AgentDispatchAccountingState) :=
  if records.isEmpty then .ok none
  else do
    let journal ← records.foldlM DispatchJournal.read .empty
    match journal.state with
    | none => .error dispatchCorrupt
    | some state =>
      let exposure ← journal.active.foldlM (fun sum dispatch => addExposure sum dispatch.2)
        state.exposure
      .ok (some { state with exposure })

end TsEpistle.Agents
