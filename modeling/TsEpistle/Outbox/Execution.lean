import TsEpistle.Outbox.PageProjection

/-! Claiming and executing projection effects: the statements of
`claimPageMutationEffects`, `executePageMutationEffect` with the links sink cut at
its database statements, and the graph audit. -/

namespace TsEpistle.Outbox
open Library

variable (env : Environment)

/-! ## Links of a rendered page -/

def slash : UInt16 := 0x2F

def isLetter (c : UInt16) : Bool := (0x41 ≤ c && c ≤ 0x5A) || (0x61 ≤ c && c ≤ 0x7A)

/-- `/^[a-z]{2}(?:-[a-z]{2})?$/i` -/
def isLocaleSegment : JsString → Bool
  | [a, b] => isLetter a && isLetter b
  | [a, b, dash, c, d] => isLetter a && isLetter b && dash == 0x2D && isLetter c && isLetter d
  | _ => false

def linkIdentity (pathname defaultLocale : JsString) : PageLinkIdentity :=
  let segments := (pathname.splitOn slash).filter fun segment =>
    segment ≠ [] && segment ≠ js "." && segment ≠ js ".."
  let segments := if (segments.head?.map List.length) = some 1 then segments.tail else segments
  let explicitLocale := segments.head?.filter isLocaleSegment
  let segments := if explicitLocale.isSome then segments.tail else segments
  let path := [slash].intercalate segments
  ⟨explicitLocale.getD defaultLocale, if path = [] then js "home" else path⟩

/-- `Map.set` on the entries of a map in insertion order. -/
def setEntry (key : JsString) (value : PageLinkIdentity)
    (entries : List (JsString × PageLinkIdentity)) : List (JsString × PageLinkIdentity) :=
  if entries.any (·.1 = key) then
    entries.map fun entry => if entry.1 = key then (key, value) else entry
  else entries ++ [(key, value)]

def comparePageLinkIdentities (left right : PageLinkIdentity) : Int :=
  if left.localeCode < right.localeCode then -1
  else if right.localeCode < left.localeCode then 1
  else if left.path < right.path then -1
  else if right.path < left.path then 1
  else 0

def sortLinks (links : List PageLinkIdentity) : List PageLinkIdentity :=
  links.insertionSort fun left right => comparePageLinkIdentities left right ≤ 0

def extractRenderedPageLinks (render defaultLocale : JsString) : List PageLinkIdentity :=
  let entries := (env.internalHrefs render).foldl (fun links href =>
    match href with
    | none | some [] => links
    | some href =>
      match env.pathname href with
      | none => links
      | some pathname =>
        let link := linkIdentity pathname defaultLocale
        setEntry (link.localeCode ++ [0] ++ link.path) link links) []
  sortLinks (entries.map Prod.snd)

/-- `#maintainGraphEffects` of the audit for one candidate page. -/
def maintainGraphEffects (pageId : Nat) (fresh : Fresh) (db : Database) :
    Except OutboxError Database :=
  match db.pages pageId with
  | none => .ok db
  | some page =>
    if page.visibility ≠ .public ∨ page.isPublished = false then .ok db
    else do
      let (db, renderChanged) ← ensureRenderDependency env page fresh fresh.now db
      let linksDisagree := !renderChanged && hasCertifiedRender page &&
        sortLinks (db.pageLinks page.id) ≠ extractRenderedPageLinks env page.render page.localeCode
      let (outbox, _) ← admitCurrentEffect env page .links ⟨linksDisagree, false, none⟩
        fresh fresh.now db.outbox
      return { db with outbox }

/-! ## Claims -/

structure ClaimInput where
  leaseOwner : JsString
  (limit maxActive leaseMs : Option Int)
  effects : Option (List PageProjectionEffectKind)
  deriving DecidableEq, Repr

def isSafeInteger (value : Int) : Bool := -(2 ^ 53 - 1) ≤ value && value ≤ 2 ^ 53 - 1

namespace ClaimInput

def claimLimit (input : ClaimInput) : Int := input.limit.getD 10

def leaseMilliseconds (input : ClaimInput) : Int := input.leaseMs.getD 60000

def effectKinds (input : ClaimInput) : List PageProjectionEffectKind :=
  input.effects.getD pageProjectionEffectKinds

def validate (input : ClaimInput) : Except OutboxError Unit :=
  if input.leaseOwner = [] ∨ input.leaseOwner.length > 255 then
    .error ⟨"INVALID_LEASE_OWNER", "Projection lease owner is invalid"⟩
  else if !isSafeInteger input.claimLimit || input.claimLimit < 1 || input.claimLimit > 128 ||
      !isSafeInteger input.leaseMilliseconds || input.leaseMilliseconds < 1000 ||
      input.leaseMilliseconds > 600000 ||
      input.maxActive.any (fun n => !isSafeInteger n || n < 1 || n > 128) then
    .error ⟨"INVALID_LEASE", "Projection lease bounds are invalid"⟩
  else if input.effectKinds = [] ∨ ¬ input.effectKinds.Nodup then
    .error ⟨"INVALID_EFFECT_SET", "Projection claim effects must be unique and supported"⟩
  else .ok ()

end ClaimInput

def tokenFree (now : Time) (row : PageMutationOutboxRow) : Bool :=
  row.leaseToken.isNone || row.leaseExpiresAt.any (· ≤ now)

def waiting (row : PageMutationOutboxRow) : Bool :=
  row.status = .pending || row.status = .retry

/-- The condition of the bulk update that ends expired leases. -/
def expiredLease (input : ClaimInput) (now : Time) (row : PageMutationOutboxRow) : Bool :=
  row.status = .running && row.leaseExpiresAt.any (· ≤ now) &&
    (input.maxActive.isNone || input.effectKinds.contains row.effectKind)

/-- The unlocked read that a claim starts with. -/
def claimProbe (input : ClaimInput) (now : Time) (row : PageMutationOutboxRow) : Bool :=
  waiting row && input.effectKinds.contains row.effectKind && row.availableAt ≤ now &&
      tokenFree now row ||
    expiredLease input now row

def releaseLease (now : Time) (row : PageMutationOutboxRow) : PageMutationOutboxRow :=
  { row with status := .pending, leaseOwner := none, leaseToken := none, leaseExpiresAt := none, updatedAt := now }

def activeEffects (input : ClaimInput) (now : Time) (outbox : List PageMutationOutboxRow) : Nat :=
  if input.maxActive = none then 0
  else outbox.countP fun row => row.status = .running &&
    input.effectKinds.contains row.effectKind && row.leaseExpiresAt.any (now < ·)

def grantLimit (input : ClaimInput) (active : Nat) : Int :=
  match input.maxActive with
  | none => input.claimLimit
  | some maxActive => min input.claimLimit (max 0 (maxActive - active))

/-- The page is at the revision of the row. -/
def currentPage (db : Database) (row : PageMutationOutboxRow) : Option ProjectionPageRow :=
  (db.pages row.pageId).filter fun page => page.sourceRevision = row.sourceRevision

/-- The certified render of the row's revision is there and its effect is done. -/
def renderReady (db : Database) (row : PageMutationOutboxRow) : Bool :=
  (currentPage db row).any hasCertifiedRender &&
    (effectRow db.outbox row.pageId row.sourceRevision .render).any (·.status = .succeeded)

/-- The condition of the select of a claim. -/
def claimReady (input : ClaimInput) (now : Time) (db : Database) (row : PageMutationOutboxRow) :
    Bool :=
  waiting row && input.effectKinds.contains row.effectKind && row.availableAt ≤ now &&
    tokenFree now row &&
    (row.effectKind ≠ .links || row.desiredState ≠ .present || renderReady db row || (currentPage db row).isNone) &&
    (row.effectKind ≠ .search || row.desiredState ≠ .present ||
      !((currentPage db row).any fun page =>
        pageSearchEligible env page now && !db.pageAccessPasswords page.id) ||
      renderReady db row)

def claimOrder (a b : PageMutationOutboxRow) : Prop :=
  a.availableAt < b.availableAt ∨ a.availableAt = b.availableAt ∧
    (a.createdAt < b.createdAt ∨ a.createdAt = b.createdAt ∧ a.id ≤ b.id)

instance (a b : PageMutationOutboxRow) : Decidable (claimOrder a b) :=
  inferInstanceAs (Decidable (_ ∨ _))

/-- The rows a select locks; `skipLocked` names the rows other transactions hold. -/
def selectReady (input : ClaimInput) (now : Time) (limit : Nat) (skipLocked : List Uuid)
    (db : Database) : List PageMutationOutboxRow :=
  ((db.outbox.filter fun row => claimReady env input now db row && !skipLocked.contains row.id)
    |>.insertionSort claimOrder).take limit

/-- The condition and the columns of the update that quarantines a row. -/
def quarantineWhere (candidate row : PageMutationOutboxRow) : Bool :=
  row.id = candidate.id && row.status = candidate.status

def quarantine (error : OutboxError) (now : Time) (row : PageMutationOutboxRow) :
    PageMutationOutboxRow :=
  { row with
    status := .failed
    result := some (.quarantined error.code error.message)
    postcondition := some ⟨false, none, error.message⟩
    leaseOwner := none, leaseToken := none, leaseExpiresAt := none, updatedAt := now }

/-- The condition and the columns of the update that grants a lease. -/
def grantWhere (candidate : PageMutationOutboxRow) (now : Time) (row : PageMutationOutboxRow) :
    Bool :=
  row.id = candidate.id && row.status = candidate.status && tokenFree now row

def grant (input : ClaimInput) (candidate : PageMutationOutboxRow) (leaseToken : Uuid)
    (now : Time) (row : PageMutationOutboxRow) : PageMutationOutboxRow :=
  { row with
    status := .running, attempts := candidate.attempts + 1, leaseOwner := some input.leaseOwner
    leaseToken := some leaseToken, leaseExpiresAt := some (now + input.leaseMilliseconds)
    updatedAt := now }

structure ClaimedPageProjectionEffect where
  (id leaseToken : Uuid)
  attempts : Nat
  payload : PageProjectionPayload
  deriving DecidableEq, Repr

/-! ## Execution -/

/-- The columns `finishClaim` is called with. -/
structure FinishUpdate where
  status : EffectStatus
  availableAt : Option Time
  result : EffectResult
  postcondition : Option Postcondition
  deriving DecidableEq, Repr

/-- The condition that the worker's lease is still in the row. -/
def leaseHeld (claim : ClaimedPageProjectionEffect) (row : PageMutationOutboxRow) : Bool :=
  row.id = claim.id && row.status = .running && row.leaseToken = some claim.leaseToken

def leaseLive (claim : ClaimedPageProjectionEffect) (now : Time) (row : PageMutationOutboxRow) :
    Bool :=
  leaseHeld claim row && row.leaseExpiresAt.any (now < ·)

/-- `finishClaim`, where `leaseHeld` says which row it replaces. -/
def finishClaim (update : FinishUpdate) (now : Time) (row : PageMutationOutboxRow) :
    PageMutationOutboxRow :=
  { row with
    status := update.status
    availableAt := update.availableAt.getD row.availableAt
    result := some update.result
    postcondition := update.postcondition.or row.postcondition
    leaseOwner := none, leaseToken := none, leaseExpiresAt := none, updatedAt := now }

/-- The heartbeat of `#executeClaim`, where `leaseLive` says which row it replaces. -/
def heartbeat (now : Time) (row : PageMutationOutboxRow) : PageMutationOutboxRow :=
  { row with leaseExpiresAt := some (now + 60000), updatedAt := now }

def missingSink : FinishUpdate :=
  ⟨.failed, none, .error "No conforming projection sink is registered", none⟩

/-- What is recorded of a sink that threw. -/
def sinkThrew (claim : ClaimedPageProjectionEffect) (message : String) (now : Time) :
    FinishUpdate :=
  ⟨if claim.attempts < 5 then .retry else .failed,
    some (now + min 60000 (1000 * 2 ^ min claim.attempts 6)), .error message, none⟩

/-- What is recorded of the value a sink answered; `none` fails the result schema. -/
def sinkAnswered : Option PageProjectionSinkResult → FinishUpdate
  | none => ⟨.failed, none, .error "Sink returned an invalid result", some ⟨false, none, "invalid sink result"⟩⟩
  | some answer =>
    ⟨if answer.postcondition.satisfied then .succeeded else .failed, none, answer.result, some answer.postcondition⟩

/-! ## The links sink -/

def supersededResult (page : Option ProjectionPageRow) (projection : PageProjectionEffectKind) :
    PageProjectionSinkResult :=
  ⟨.superseded (some projection), true, page.map (·.sourceRevision),
    "Exact source revision is no longer current; no projection was written"⟩

/-- `evictPreviousIdentity` calls the cache; its answer depends on the payload only. -/
def previousIdentityEvicted (payload : PageProjectionPayload) : Bool :=
  match payload.previousLocation with
  | none => false
  | some previous => payload.location ≠ some previous

/-- What the links sink does after its first read of the page. -/
inductive LinksPlan
  | answer (result : PageProjectionSinkResult)
  | deleteLinks
  | readRender (before : ProjectionPageRow) (location : PageProjectionLocation)

def linksPlan (payload : PageProjectionPayload) (before : Option ProjectionPageRow) : LinksPlan :=
  if payload.desiredState = .absent then
    if before.isSome then .answer (supersededResult before .links) else .deleteLinks
  else
    match payload.location with
    | none => .answer ⟨.replaced .links false none none, false, before.map (·.sourceRevision),
        "Present link projection intent has no current location"⟩
    | some location =>
      match before with
      | none => .answer (supersededResult none .links)
      | some page =>
        if page.sourceRevision ≠ payload.sourceRevision then
          .answer (supersededResult (some page) .links)
        else if isExactProjectionSource env page payload = false then
          .answer ⟨.replaced .links false none none, false, some page.sourceRevision,
            "Current page identity or source hash does not match immutable link intent"⟩
        else .readRender page location

/-- The read of the render effect before the locked transaction. -/
def linksReady (payload : PageProjectionPayload) (before : ProjectionPageRow)
    (outbox : List PageMutationOutboxRow) : Bool :=
  (effectRow outbox payload.pageId payload.sourceRevision .render).any (·.status = .succeeded) &&
    hasCertifiedRender before

def renderNotReady : String := "Exact certified render projection has not completed"

def deletedResult (payload : PageProjectionPayload) (remaining : Bool) :
    PageProjectionSinkResult :=
  ⟨.removed .links (!remaining) (previousIdentityEvicted payload), !remaining,
    some payload.sourceRevision,
    if remaining then "Persisted links remain"
    else "Page and its persisted links are absent and the former cache identity is evicted"⟩

def replacedResult (payload : PageProjectionPayload) (observed : ProjectionPageRow)
    (linkCount : Nat) (satisfied : Bool) : PageProjectionSinkResult :=
  ⟨.replaced .links satisfied (some linkCount) (some (previousIdentityEvicted payload)), satisfied,
    some observed.sourceRevision,
    if satisfied then "Persisted links exactly match the revision-fenced rendered projection and the former cache identity is evicted"
    else "Link persistence did not prove the exact current rendered revision"⟩

/-- The page is as it was read, certified, and its render effect is done. -/
def mayReplaceLinks (payload : PageProjectionPayload) (before current : ProjectionPageRow)
    (outbox : List PageMutationOutboxRow) : Bool :=
  isExactProjectionSource env current payload && hasCertifiedRender current &&
    current.render = before.render &&
    (effectRow outbox payload.pageId payload.sourceRevision .render).any (·.status = .succeeded)

/-- The locked transaction of the links sink. -/
def replaceLinks (payload : PageProjectionPayload) (before : ProjectionPageRow)
    (links : List PageLinkIdentity) (db : Database) : Database × PageProjectionSinkResult :=
  match db.pages payload.pageId with
  | none => (db, supersededResult none .links)
  | some current =>
    if current.sourceRevision ≠ payload.sourceRevision then
      (db, supersededResult (some current) .links)
    else if mayReplaceLinks env payload before current db.outbox then
      let db := { db with pageLinks := Function.update db.pageLinks payload.pageId links }
      let satisfied := sortLinks (db.pageLinks payload.pageId) = links
      (db, replacedResult payload current links.length satisfied)
    else (db, replacedResult payload current links.length false)

/-! ## The render sink -/

/-- `readPublishablePage` and the update of `renderPage` under a render lease; `false`
where the page or the lease has changed. -/
def renderPage (claim : ClaimedPageProjectionEffect) (output : JsString) (now : Time)
    (db : Database) : Database × Bool :=
  match db.pages claim.payload.pageId with
  | none => (db, false)
  | some current =>
    if isExactProjectionSource env current claim.payload &&
        db.outbox.any fun row => leaseLive claim now row &&
          row.key = (claim.payload.pageId, claim.payload.sourceRevision, .render) &&
          row.desiredState = .present then
      ({ db with pages := Function.update db.pages claim.payload.pageId (some { current with
          render := output, renderedSourceRevision := some claim.payload.sourceRevision }) }, true)
    else (db, false)

end TsEpistle.Outbox
