import CatalogApi.Erasure.Tables

/-!
# Erasure and export

`_erase_postgres` and `_export_lines` of `api/routers/activity.py` and `subject_for` of
`api/activity.py`. The schema's triggers are here too: the tables of activity rows reject a `DELETE`
outside the bypass, and idempotency keys are released with their events and with the subject link.
-/

namespace CatalogApi.Erasure

/-! ## Erasure -/

/-- The statements of `_erase_postgres`, in order but for `_USER_OWNED_DELETES`. -/
inductive Statement where
  | enableErasure
  | countIdempotencyKeys
  | deleteEvents
  | deleteImpressions
  | deleteSubject
  | insertErasure
  | deleteOwned (table : Table)
  | softEraseUser

/-- `_USER_OWNED_DELETES`. -/
def userOwnedDeletes : List Table :=
  [.catalogItemMoves, .observations, .collectionSnapshots, .ownedCopies, .userCollections,
    .userWantlists, .syncHistory, .appTokens, .oauthTokens]

/-- Why a transaction fails. -/
inductive Failure where
  | raised (statement : Statement)
  | immutable (table : Table)

/-- A call of `_erase_postgres`: which statements raise, the clock, and the values drawn on the way. -/
structure ErasureCall where
  user : UserId
  subject : SubjectId
  requestedAt : Int
  now : Int
  erasureId : String
  hashedPassword : String
  raises : Statement → Bool

/-- An open transaction with the setting `groovemap.erasure`. -/
structure Transaction where
  db : Database
  erasure : Bool

/-- Two rows hold one idempotency key of one subject. -/
def sameKey (event key : Row) : Bool :=
  match event.get "subject_id", key.get "subject_id", event.text "idempotency_key",
    key.text "idempotency_key" with
  | .uuid subject, .uuid other, some name, some name' => subject = other ∧ name = name'
  | _, _, _, _ => false

/-- The trigger that releases the keys of deleted events. -/
def releaseEvents (deleted : List Row) (db : Database) : Database :=
  Function.update db .eventIdempotency
    ((db .eventIdempotency).filter fun key => ¬deleted.any (sameKey · key))

/-- The trigger that releases the keys of a deleted subject link. -/
def releaseLinks (deleted : List Row) (db : Database) : Database :=
  Function.update db .eventIdempotency
    ((db .eventIdempotency).filter fun key => ¬deleted.any fun link =>
      match link.get "subject_id" with
      | .uuid subject => key.keyed "subject_id" subject
      | _ => false)

/-- `DELETE FROM activity.events` or `activity.impressions`; gives the count. -/
def deleteActivity (tx : Transaction) (table : Table) (subject : SubjectId) :
    Except Failure (Nat × Transaction) :=
  let deleted := (tx.db table).filter fun row => row.keyed "subject_id" subject
  if deleted ≠ [] ∧ ¬tx.erasure then .error (.immutable table)
  else
    let db := tx.db.delete table "subject_id" subject
    .ok (deleted.length,
      { tx with db := if table = .events then releaseEvents deleted db else db })

/-- `_DELETE_SUBJECT`. -/
def deleteSubject (db : Database) (user : UserId) : Database :=
  releaseLinks ((db .userSubjects).filter fun row => row.keyed "user_id" user)
    (db.delete .userSubjects "user_id" user)

/-- The row of `_INSERT_ERASURE`. -/
def ErasureCall.record (call : ErasureCall) (events impressions keys : Nat) : Row :=
  [("id", .uuid call.erasureId), ("subject_id", .uuid call.subject),
    ("requested_at", .time call.requestedAt), ("completed_at", .time call.now),
    ("events_deleted", .int events), ("impressions_deleted", .int impressions),
    ("idempotency_keys_deleted", .int keys), ("model_versions_before", .list [])]

/-- `_SOFT_ERASE_USER`. -/
def ErasureCall.softErase (call : ErasureCall) (row : Row) : Row :=
  ((((((((row.set "email" (.text ("erased+" ++ call.user ++ "@invalid.groovemap"))).set
    "hashed_password" (.text call.hashedPassword)).set "is_active" (.bool false)).set
    "totp_secret" .null).set "totp_enabled" (.bool false)).set "totp_recovery_codes" .null).set
    "totp_failed_attempts" (.int 0)).set "totp_locked_until" .null).set "updated_at" (.time call.now)

/-- A statement runs, unless it raises. -/
def ErasureCall.attempt {α : Type} (call : ErasureCall) (statement : Statement)
    (result : Except Failure α) : Except Failure α :=
  if call.raises statement then .error (.raised statement) else result

/-- The loop over `_USER_OWNED_DELETES`. -/
def deleteOwned (call : ErasureCall) : List Table → Database → Except Failure Database
  | [], db => .ok db
  | table :: tables, db => do
      let db ← call.attempt (.deleteOwned table) (.ok (db.delete table "user_id" call.user))
      deleteOwned call tables db

/-- What `_erase_postgres` returns. -/
structure Erased where
  erasureId : String
  events : Nat
  impressions : Nat

/-- The statements inside the transaction. -/
def eraseStatements (call : ErasureCall) (tx : Transaction) : Except Failure (Erased × Database) := do
  let tx ← call.attempt .enableErasure (.ok { tx with erasure := true })
  let keys ← call.attempt .countIdempotencyKeys
    (.ok ((tx.db .eventIdempotency).countP (·.keyed "subject_id" call.subject)))
  let (events, tx) ← call.attempt .deleteEvents (deleteActivity tx .events call.subject)
  let (impressions, tx) ← call.attempt .deleteImpressions
    (deleteActivity tx .impressions call.subject)
  let db ← call.attempt .deleteSubject (.ok (deleteSubject tx.db call.user))
  let db ← call.attempt .insertErasure
    (.ok (db.insert .erasures (call.record events impressions keys)))
  let db ← deleteOwned call userOwnedDeletes db
  let db ← call.attempt .softEraseUser (.ok (db.update .users "id" call.user call.softErase))
  return ({ erasureId := call.erasureId, events, impressions }, db)

/-- `_erase_postgres`; a transaction that fails leaves the database as it was. -/
def erasePostgres (call : ErasureCall) (db : Database) : Except Failure Erased × Database :=
  match eraseStatements call { db, erasure := false } with
  | .ok (erased, after) => (.ok erased, after)
  | .error failure => (.error failure, db)

/-! ## Export -/

/-- A JSON value. -/
inductive Json where
  | null
  | bool (value : Bool)
  | int (value : Int)
  | float (value : ℚ)
  | text (value : String)
  | list (items : List Json)
  | dict (entries : List (String × Json))

/-- `float(Decimal)` and `datetime.isoformat`. -/
structure Rendering where
  float : ℚ → ℚ
  isoformat : Int → String

mutual

/-- `_jsonable`. -/
def jsonable (rendering : Rendering) : Value → Json
  | .null => .null
  | .bool value => .bool value
  | .int value => .int value
  | .float value => .float value
  | .text value => .text value
  | .uuid value => .text value
  | .decimal value => .float (rendering.float value)
  | .time value => .text (rendering.isoformat value)
  | .list items => .list (jsonableItems rendering items)
  | .dict entries => .dict (jsonableEntries rendering entries)

def jsonableItems (rendering : Rendering) : List Value → List Json
  | [] => []
  | item :: items => jsonable rendering item :: jsonableItems rendering items

def jsonableEntries (rendering : Rendering) : List (String × Value) → List (String × Json)
  | [] => []
  | (key, value) :: entries => (key, jsonable rendering value) :: jsonableEntries rendering entries

end

/-- A section: its kind, its statement, and whether it is keyed by the subject. -/
structure Section where
  kind : String
  columns : List Column
  table : Table
  order : List Column
  bySubject : Bool
  deriving DecidableEq

/-- `_EXPORT_SECTIONS`. -/
def exportSections : List Section :=
  [{ kind := "event"
     columns := ["event_id", "event_type", "schema_version", "session_id", "occurred_at",
       "recorded_at", "producer", "consent_purposes", "model_version", "feature_version",
       "idempotency_key", "payload"]
     table := .events, order := ["occurred_at", "event_id"], bySubject := true },
   { kind := "impression"
     columns := ["impression_id", "surface", "policy_id", "candidate_set_id", "position", "item_id",
       "score", "propensity", "request_id", "occurred_at", "recorded_at", "consent_purposes"]
     table := .impressions, order := ["occurred_at", "impression_id"], bySubject := true },
   { kind := "collection_item"
     columns := ["id", "release_id", "instance_id", "folder_id", "title", "artist", "year", "label",
       "rating", "notes", "date_added", "gm_item_id", "owned_copy_id", "created_at", "updated_at"]
     table := .userCollections, order := ["id"], bySubject := false },
   { kind := "wantlist_item"
     columns := ["id", "release_id", "title", "artist", "year", "format", "rating", "notes",
       "date_added", "gm_item_id", "created_at", "updated_at"]
     table := .userWantlists, order := ["id"], bySubject := false },
   { kind := "owned_copy"
     columns := ["id", "artifact_id", "item_id", "collection_row_id", "acquired_at", "created_at",
       "updated_at"]
     table := .ownedCopies, order := ["id"], bySubject := false },
   { kind := "observation"
     columns := ["id", "owned_copy_id", "artifact_id", "kind", "value", "source", "confidence",
       "observed_at", "created_at"]
     table := .observations, order := ["id"], bySubject := false },
   { kind := "catalog_item_move"
     columns := ["id", "supersession_id", "table_name", "row_id", "from_item_id", "to_item_id",
       "moved_at"]
     table := .catalogItemMoves, order := ["moved_at", "id"], bySubject := false },
   { kind := "collection_snapshot"
     columns := ["id", "taken_at", "item_count"]
     table := .collectionSnapshots, order := ["taken_at", "id"], bySubject := false },
   { kind := "consent_grant"
     columns := ["id", "purpose", "granted_at", "revoked_at"]
     table := .consentGrants, order := ["granted_at", "id"], bySubject := false }]

/-- A line of the export before `json.dumps`. -/
structure Line where
  kind : String
  record : List (Column × Json)

/-- The rows of one section; one keyed by the subject is left out when there is none. -/
def Section.rows (section' : Section) (db : Database) (user : UserId) (subject : Option SubjectId) :
    List Row :=
  if section'.bySubject then
    match subject with
    | none => []
    | some subject =>
        db.select section'.columns section'.table "subject_id" subject section'.order
  else db.select section'.columns section'.table "user_id" user section'.order

/-- `_export_lines`. -/
def exportLines (rendering : Rendering) (db : Database) (user : UserId)
    (subject : Option SubjectId) : List Line :=
  exportSections.flatMap fun section' =>
    (section'.rows db user subject).map fun row =>
      { kind := section'.kind
        record := row.map fun (name, value) => (name, jsonable rendering value) }

/-- `subject_for`, given what the process has cached and the id that a new link would get; it gives no
subject if the statement fails. -/
def subjectFor (cached : Option SubjectId) (fresh : SubjectId) (fails : Bool) (user : UserId)
    (db : Database) : Option SubjectId × Database :=
  match cached with
  | some subject => (some subject, db)
  | none =>
      if fails then (none, db)
      else
        match (db .userSubjects).find? fun row => row.keyed "user_id" user with
        | some link =>
            match link.get "subject_id" with
            | .uuid subject => (some subject, db)
            | _ => (none, db)
        | none =>
            (some fresh,
              db.insert .userSubjects [("user_id", .uuid user), ("subject_id", .uuid fresh)])

end CatalogApi.Erasure
