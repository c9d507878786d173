import TsEpistle.Okf.Metadata

/-! The terms of the glossary, their names and their relations (`server/operations/glossary.ts`,
`shared/glossary.ts`). A call is one transaction. -/

namespace TsEpistle.Glossary
open Library Json
open Okf (Entries property)
open Pages (isSpace trim)

/-! ## Errors -/

structure ApplicationError where
  message : String
  status : Nat
  code : String
  deriving DecidableEq

/-- The errors of the database: a unique key, a reference, a check or the range of a number. -/
inductive DatabaseError
  | unique
  | reference
  | check
  | range
  deriving DecidableEq

inductive Failure
  | application (error : ApplicationError)
  | database (error : DatabaseError)
  deriving DecidableEq

def failure (message : String) : Failure := .application ⟨message, 400, "GLOSSARY_INVALID_INPUT"⟩

def notFound : Failure := .application ⟨"Glossary term not found.", 404, "GLOSSARY_NOT_FOUND"⟩

def conflict : Failure :=
  .application ⟨"This term changed. Reload it before saving.", 409, "GLOSSARY_REVISION_CONFLICT"⟩

def disabled : Failure := .application ⟨"Glossary is disabled.", 404, "GLOSSARY_DISABLED"⟩

def nameConflict : Failure :=
  .application ⟨"A term or alias already uses this name in this locale.", 409, "GLOSSARY_NAME_CONFLICT"⟩

/-! ## Inputs -/

def NAME_LIMIT : Nat := 255
def DEFINITION_LIMIT : Nat := 10000
def ALIASES_LIMIT : Nat := 50
def REFERENCES_LIMIT : Nat := 20
def RELATED_LIMIT : Nat := 50
def MAX_INTEGER : Nat := 2147483647

structure ParsedUrl where
  (protocol username password : JsString)

/-- Unicode, URLs and numbers as the platform has them: `integer` is the safe integer that a number is. -/
structure Platform (ν : Type) where
  (normalize toLowerCase : JsString → JsString)
  parseUrl : JsString → Option ParsedUrl
  integer : ν → Option Int

structure GlossaryReference where
  (label url : JsString)
  deriving DecidableEq

/-- The columns of a term that are saved from an input. -/
structure TermFields where
  (locale term expansion definition category : JsString)
  documentationPageId : Option Nat
  documentationLabel : JsString
  references : List GlossaryReference
  (caseSensitive autoLink : Bool)
  deriving DecidableEq

structure GlossaryTermInput where
  fields : TermFields
  aliases : List JsString
  relatedIds : List Nat
  deriving DecidableEq

section
variable {ν : Type} (platform : Platform ν)

def positiveInteger (value : Option (JsonValue ν)) : Except Failure Nat :=
  match value with
  | some (.number number) =>
    match platform.integer number with
    | some integer =>
      if integer < 1 ∨ (MAX_INTEGER : Int) < integer then .error (failure "Choose a valid integer ID or revision.")
      else .ok integer.toNat
    | none => .error (failure "Choose a valid integer ID or revision.")
  | _ => .error (failure "Choose a valid integer ID or revision.")

def isLetter (unit : UInt16) : Bool := (65 ≤ unit && unit ≤ 90) || (97 ≤ unit && unit ≤ 122)

/-- `/^[A-Za-z]{2,8}(?:-[A-Za-z0-9]{1,8})*$/` -/
def isLocale (value : JsString) : Bool :=
  match value.splitOn 45 with
  | [] => false
  | language :: subtags =>
    2 ≤ language.length && language.length ≤ 8 && language.all isLetter
      && subtags.all fun subtag => 1 ≤ subtag.length && subtag.length ≤ 8 && subtag.all fun unit =>
        isLetter unit || isDigit unit

def localeValue (value : Option (JsonValue ν)) : Except Failure JsString :=
  match value with
  | some (.string value) =>
    if 35 < value.length ∨ isLocale value = false then .error (failure "Choose a valid locale.") else .ok value
  | _ => .error (failure "Choose a valid locale.")

def hasInvalidTextControl (value : JsString) : Bool :=
  value.any fun unit => unit = 0x7f || (unit < 0x20 && unit ≠ 9 && unit ≠ 10 && unit ≠ 13)

def text (value : Option (JsonValue ν)) (maximum : Nat) (required : Bool) : Except Failure JsString :=
  match value with
  | some (.string value) =>
    if maximum < value.length ∨ hasInvalidTextControl value then
      .error (failure "A glossary text field is invalid or too long.")
    else if required && (trim (platform.normalize value)).isEmpty then
      .error (failure "A term or alias must not be empty.")
    else .ok (trim (platform.normalize value))
  | _ => .error (failure "A glossary text field is invalid or too long.")

def definitionText (value : Option (JsonValue ν)) : Except Failure JsString :=
  match value with
  | some (.string value) =>
    if DEFINITION_LIMIT < value.length ∨ hasInvalidTextControl value then
      .error (failure "Glossary Markdown is invalid or too long.")
    else .ok value
  | _ => .error (failure "Glossary Markdown is invalid or too long.")

def array (value : Option (JsonValue ν)) (maximum : Nat) : Except Failure (List (JsonValue ν)) :=
  match value with
  | some (.array items) =>
    if maximum < items.length then .error (failure "A glossary collection is invalid or too long.") else .ok items
  | _ => .error (failure "A glossary collection is invalid or too long.")

/-- `value ?? fallback`. -/
def orElse (value : Option (JsonValue ν)) (fallback : JsonValue ν) : Option (JsonValue ν) :=
  match value with
  | none | some .null => some fallback
  | some value => some value

/-- `replace(/\s+/gu, ' ')` -/
def collapse : JsString → JsString
  | [] => []
  | [unit] => if isSpace unit then [32] else [unit]
  | unit :: next :: rest =>
    if isSpace unit then if isSpace next then collapse (next :: rest) else 32 :: collapse (next :: rest)
    else unit :: collapse (next :: rest)

def glossaryNameKey (name : JsString) : JsString :=
  platform.normalize (platform.toLowerCase (collapse (trim (platform.normalize name))))

def nameText (value : Option (JsonValue ν)) : Except Failure JsString :=
  (text platform value NAME_LIMIT true).map collapse

def parseReference (reference : JsonValue ν) : Except Failure GlossaryReference :=
  match reference with
  | .object record => do
      let label ← text platform (property (js "label") record) NAME_LIMIT true
      let url ← text platform (property (js "url") record) 2048 true
      match platform.parseUrl url with
      | none => .error (failure "Reference URLs must be absolute HTTP or HTTPS URLs.")
      | some parsed =>
        if (parsed.protocol ≠ js "https:" ∧ parsed.protocol ≠ js "http:") ∨ parsed.username ≠ []
          ∨ parsed.password ≠ [] ∨ url.any isSpace then
          .error (failure "Reference URLs must be safe HTTP or HTTPS URLs.")
        else .ok ⟨label, url⟩
  | _ => .error (failure "Supply a reference label and URL.")

def isBoolean : Option (JsonValue ν) → Bool
  | none | some (.boolean _) => true
  | _ => false

def isTrue : Option (JsonValue ν) → Bool
  | some (.boolean value) => value
  | _ => false

def isFalse : Option (JsonValue ν) → Bool
  | some (.boolean value) => !value
  | _ => false

def optionalInteger (value : Option (JsonValue ν)) : Except Failure (Option Nat) :=
  match value with
  | none | some .null => .ok none
  | some value => (positiveInteger platform (some value)).map some

def parseInput (raw : JsonValue ν) : Except Failure GlossaryTermInput :=
  match raw with
  | .object value => do
      let term ← nameText platform (property (js "term") value)
      let aliases ← array (orElse (property (js "aliases") value) (.array [])) ALIASES_LIMIT
      let aliases ← aliases.mapM fun name => nameText platform (some name)
      if ¬ ((term :: aliases).map (glossaryNameKey platform)).Nodup then
        .error (failure "Term and aliases must have distinct names.")
      else do
        let references ← array (orElse (property (js "references") value) (.array [])) REFERENCES_LIMIT
        let references ← references.mapM (parseReference platform)
        let related ← array (orElse (property (js "relatedIds") value) (.array [])) RELATED_LIMIT
        let relatedIds ← related.mapM fun id => positiveInteger platform (some id)
        if ¬ relatedIds.Nodup then .error (failure "Related terms must be distinct.")
        else if !isBoolean (property (js "caseSensitive") value) || !isBoolean (property (js "autoLink") value) then
          .error (failure "Glossary flags must be booleans.")
        else do
          let locale ← localeValue (property (js "locale") value)
          let expansion ← text platform (orElse (property (js "expansion") value) (.string [])) NAME_LIMIT false
          let definition ← definitionText (orElse (property (js "definition") value) (.string []))
          let category ← text platform (orElse (property (js "category") value) (.string [])) NAME_LIMIT false
          let documentationLabel ←
            text platform (orElse (property (js "documentationLabel") value) (.string [])) NAME_LIMIT false
          let documentationPageId ← optionalInteger platform (property (js "documentationPageId") value)
          return {
            fields := {
              locale, term, references, expansion, definition, category, documentationLabel, documentationPageId
              caseSensitive := isTrue (property (js "caseSensitive") value)
              autoLink := !isFalse (property (js "autoLink") value) }
            aliases, relatedIds }
  | _ => .error (failure "Supply a glossary term.")

end

/-! ## Tables -/

structure TermRow where
  id : Nat
  fields : TermFields
  revision : Nat
  (createdAt updatedAt : Int)
  deriving DecidableEq

structure NameRow where
  locale : JsString
  termId : Nat
  (name key : JsString)
  isAlias : Bool
  deriving DecidableEq

structure RelationRow where
  (leftId rightId : Nat)
  locale : JsString
  deriving DecidableEq

structure Database where
  terms : List TermRow
  names : List NameRow
  relations : List RelationRow
  deriving DecidableEq

def termById (id : Nat) (terms : List TermRow) : Option TermRow := terms.find? fun term => term.id = id

def RelationRow.joins (id : Nat) (relation : RelationRow) : Bool := relation.leftId = id || relation.rightId = id

def relationQuery (id : Nat) (relations : List RelationRow) : List RelationRow :=
  relations.filter (RelationRow.joins id)

def RelationRow.peer (id : Nat) (relation : RelationRow) : Nat :=
  if relation.leftId = id then relation.rightId else relation.leftId

def peerIds (relations : List RelationRow) (id : Nat) : List Nat :=
  (relations.map (RelationRow.peer id)).insertionSort (· ≤ ·)

/-- The keys of `glossary_names_locale_key_unique` and `glossary_names_one_canonical`. -/
def insertNames (rows names : List NameRow) : Except Failure (List NameRow) :=
  if ((names ++ rows).map fun name => (name.locale, name.key)).Nodup
      ∧ (((names ++ rows).filter fun name => !name.isAlias).map NameRow.termId).Nodup then .ok (names ++ rows)
  else .error (.database .unique)

def referenced (terms : List TermRow) (id : Nat) (locale : JsString) : Bool :=
  terms.any fun term => term.id = id && term.fields.locale = locale

def insertRelations (terms : List TermRow) (rows relations : List RelationRow) : Except Failure (List RelationRow) :=
  if ¬ rows.all fun row => row.leftId < row.rightId then .error (.database .check)
  else if ¬ ((relations ++ rows).map fun row => (row.leftId, row.rightId)).Nodup then .error (.database .unique)
  else if ¬ rows.all fun row => referenced terms row.leftId row.locale && referenced terms row.rightId row.locale then
    .error (.database .reference)
  else .ok (relations ++ rows)

/-- `increment('revision', 1).update({ updatedAt })` where the id is among these. -/
def TermRow.increment (ids : List Nat) (now : Int) (term : TermRow) : TermRow :=
  if ids.contains term.id then { term with revision := term.revision + 1, updatedAt := now } else term

def incrementRevisions (ids : List Nat) (now : Int) (terms : List TermRow) : Except Failure (List TermRow) :=
  if terms.any fun term => ids.contains term.id && MAX_INTEGER ≤ term.revision then .error (.database .range)
  else .ok (terms.map (TermRow.increment ids now))

/-- The update of a term, where its id and its revision are still those that were read. -/
def TermRow.rewrite (previous : TermRow) (fields : TermFields) (now : Int) (term : TermRow) : TermRow :=
  if term.id = previous.id ∧ term.revision = previous.revision then
    { term with fields, revision := previous.revision + 1, updatedAt := now }
  else term

/-! ## Calls -/

/-- What a call finds besides the glossary: `authorized` is the outcome of `authorize` for a write, `readable` tells the
pages that `documentation` answers with. -/
structure Access where
  enabled : Bool
  authorized : Except ApplicationError Unit
  readable : Nat → Bool

/-- `documentation`, as far as it is not `null`. -/
def Access.documentation (access : Access) : Option Nat → Bool
  | none => false
  | some pageId => access.readable pageId

def nameRow {ν : Type} (platform : Platform ν) (locale : JsString) (termId : Nat) (isAlias : Bool) (name : JsString) :
    NameRow where
  locale := locale
  termId := termId
  name := name
  key := glossaryNameKey platform name
  isAlias := isAlias

def nameRows {ν : Type} (platform : Platform ν) (locale : JsString) (termId : Nat) (term : JsString)
    (aliases : List JsString) : List NameRow :=
  nameRow platform locale termId false term :: aliases.map (nameRow platform locale termId true)

def relationRow (locale : JsString) (id peer : Nat) : RelationRow where
  leftId := min id peer
  rightId := max id peer
  locale := locale

section
variable {ν : Type} (platform : Platform ν) (access : Access) (now : Int)

/-- A redacted read cannot give back a hidden page or label: what an update leaves out stays, unless the page
changes. -/
def mergeDocumentation (raw : Entries ν) (previous : TermRow) (fields : TermFields) : Except Failure TermFields :=
  let documentationPageId := match property (js "documentationPageId") raw with
    | none => previous.fields.documentationPageId
    | some _ => fields.documentationPageId
  match property (js "documentationLabel") raw with
  | some _ => .ok { fields with documentationPageId }
  | none =>
    if previous.fields.documentationPageId ≠ none ∧ previous.fields.documentationPageId ≠ documentationPageId
        ∧ access.documentation previous.fields.documentationPageId = false then
      .error (failure "Provide an explicit documentation label when changing a protected documentation page.")
    else .ok { fields with documentationPageId, documentationLabel := previous.fields.documentationLabel }

/-- The term that an update is about; a creation has none. -/
def previousTerm (id : Option (Nat × Nat)) (locale : JsString) (db : Database) : Except Failure (Option TermRow) :=
  match id with
  | none => .ok none
  | some (id, expectedRevision) =>
    match termById id db.terms with
    | none => .error notFound
    | some previous =>
      if previous.fields.locale ≠ locale then .error notFound
      else if previous.revision ≠ expectedRevision then .error conflict
      else .ok (some previous)

def mergedFields (raw : JsonValue ν) (previous : Option TermRow) (fields : TermFields) : Except Failure TermFields :=
  match previous, raw with
  | some previous, .object entries => mergeDocumentation access entries previous fields
  | _, _ => .ok fields

def checkRelated (id : Option Nat) (locale : JsString) (relatedIds : List Nat) (db : Database) : Except Failure Unit :=
  let related := db.terms.filter fun term => relatedIds.contains term.id
  if ∃ own ∈ id, own ∈ relatedIds then .error (failure "A term cannot relate to itself.")
  else if related.length ≠ relatedIds.length ∨ related.any fun term => term.fields.locale ≠ locale then
    .error (failure "Related terms must exist in the same locale.")
  else .ok ()

def checkDocumentation (previous : Option TermRow) (fields : TermFields) : Except Failure Unit :=
  let preservesHiddenLink := previous.any fun previous =>
    previous.fields.documentationPageId = fields.documentationPageId
      && previous.fields.documentationLabel = fields.documentationLabel
  if fields.documentationPageId ≠ none ∧ preservesHiddenLink = false
      ∧ access.documentation fields.documentationPageId = false then
    .error (failure "Choose a currently readable, unlocked documentation page.")
  else .ok ()

/-- The term is written, under a number of the sequence when it is new. -/
def writeTerm (newId : Nat) (previous : Option TermRow) (fields : TermFields) (terms : List TermRow) :
    Except Failure (Nat × List TermRow) :=
  match previous with
  | some previous =>
    if MAX_INTEGER ≤ previous.revision then .error (.database .range)
    else .ok (previous.id, terms.map (previous.rewrite fields now))
  | none =>
    if MAX_INTEGER < newId then .error (.database .range)
    else .ok (newId, terms ++ [⟨newId, fields, 1, now, now⟩])

def changedPeers (oldPeers relatedIds : List Nat) : List Nat :=
  (oldPeers.filter fun peer => !relatedIds.contains peer) ++ relatedIds.filter fun peer => !oldPeers.contains peer

/-- The names, the relations and the revisions of the peers after the term has been written. -/
def writeGraph (id : Nat) (locale : JsString) (input : GlossaryTermInput) (terms : List TermRow) (db : Database) :
    Except Failure Database := do
  let oldPeers := peerIds (relationQuery id db.relations) id
  if input.relatedIds.any fun peer =>
      !oldPeers.contains peer && RELATED_LIMIT ≤ (relationQuery peer db.relations).length then
    .error (failure "A related term already has the maximum number of relations.")
  else do
    let names ← insertNames (nameRows platform locale id input.fields.term input.aliases)
      (db.names.filter fun name => name.termId ≠ id)
    let relations ← insertRelations terms (input.relatedIds.map (relationRow locale id))
      (db.relations.filter fun relation => !relation.joins id)
    let terms ← incrementRevisions (changedPeers oldPeers input.relatedIds) now terms
    return ⟨terms, names, relations⟩

/-- The body of the transaction of `save`. -/
def saveTerm (raw : JsonValue ν) (input : GlossaryTermInput) (id : Option (Nat × Nat)) (newId : Nat) (db : Database) :
    Except Failure (Nat × Database) := do
  access.authorized.mapError .application
  let previous ← previousTerm id input.fields.locale db
  let fields ← mergedFields access raw previous input.fields
  checkRelated (id.map Prod.fst) fields.locale input.relatedIds db
  checkDocumentation access previous fields
  let (savedId, terms) ← writeTerm now newId previous fields db.terms
  let db ← writeGraph platform now savedId fields.locale input terms db
  return (savedId, db)

def Failure.named : Failure → Failure
  | .database .unique => nameConflict
  | failure => failure

def expectedRevision (raw : JsonValue ν) : Except Failure Nat :=
  match raw with
  | .object entries => positiveInteger platform (property (js "expectedRevision") entries)
  | _ => positiveInteger platform none

/-- The term to update and its revision; a creation has none. -/
def updatedTerm (raw : JsonValue ν) (rawId : Option (JsonValue ν)) : Except Failure (Option (Nat × Nat)) :=
  match rawId with
  | none => .ok none
  | some rawId => do
      let id ← positiveInteger platform (some rawId)
      let revision ← expectedRevision platform raw
      return some (id, revision)

/-- The id of the term and its aliases are kept for the history. -/
def save (raw : JsonValue ν) (rawId : Option (JsonValue ν)) (newId : Nat) (db : Database) :
    Except Failure ((Nat × List JsString) × Database) := do
  let input ← parseInput platform raw
  let id ← updatedTerm platform raw rawId
  let (savedId, db) ← (saveTerm platform access now raw input id newId db).mapError Failure.named
  return ((savedId, input.aliases), db)

/-- The names and the relations of a term go with it. -/
def Database.delete (id : Nat) (db : Database) : Database where
  terms := db.terms.filter fun term => term.id ≠ id
  names := db.names.filter fun name => name.termId ≠ id
  relations := db.relations.filter fun relation => !relation.joins id

def remove (rawId rawRevision : Option (JsonValue ν)) (db : Database) : Except Failure Database :=
  if !access.enabled then .error disabled
  else do
    let id ← positiveInteger platform rawId
    let revision ← positiveInteger platform rawRevision
    match termById id db.terms with
    | none => .error notFound
    | some row => do
        access.authorized.mapError .application
        if row.revision ≠ revision then .error conflict
        else do
          let terms ← incrementRevisions (peerIds (relationQuery id db.relations) id) now db.terms
          return Database.delete id { db with terms }

end

/-! ## Runs -/

/-- `aliases` are those that the last save of a term named. -/
structure State where
  db : Database
  sequence : Nat
  aliases : Nat → List JsString

def State.initial : State := ⟨⟨[], [], []⟩, 0, fun _ => []⟩

/-- A call, with the access of its requester and its time. A creation names no id. -/
inductive Operation (ν : Type)
  | save (access : Access) (now : Int) (raw : JsonValue ν) (rawId : Option (JsonValue ν))
  | remove (access : Access) (now : Int) (rawId rawRevision : Option (JsonValue ν))

/-- The outcome of a call: the term that was saved, with its aliases, and the tables. -/
def perform {ν : Type} (platform : Platform ν) (op : Operation ν) (state : State) :
    Except Failure (Option (Nat × List JsString) × Database) :=
  match op with
  | .save access now raw rawId =>
    (save platform access now raw rawId (state.sequence + 1) state.db).map fun saved => (some saved.1, saved.2)
  | .remove access now rawId rawRevision =>
    (remove platform access now rawId rawRevision state.db).map fun db => (none, db)

/-- A transaction that fails leaves the tables as they were; the sequence may leave out numbers. -/
def glossary {ν : Type} (platform : Platform ν) : Machine State (Operation ν) where
  enabled _ _ := True
  exec op state := match perform platform op state with
    | .error _ => { state with sequence := state.sequence + 1 }
    | .ok (saved, db) =>
      { db
        sequence := state.sequence + 1
        aliases := match saved with
          | none => state.aliases
          | some (id, aliases) => Function.update state.aliases id aliases }

end TsEpistle.Glossary
