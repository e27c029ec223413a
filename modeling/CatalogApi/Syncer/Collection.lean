import CatalogApi.Lib.Table

/-!
# One page of a collection sync

The page transaction of `api/syncer.py` over `user_collections` and `owned_copies`: the resolve,
the page read, the upserts, the second page read, the owned copies and their back-link, and the
change events the page earned. A failed statement is the transaction's failure, so a transaction
is one function from the database to the database or to an error.

`resolve_aliases` and `map_discogs_formats` live outside the repository and are parameters, as
are the types of a Discogs format object and of a media block. A UUID is a natural number drawn
from a counter.
-/

namespace CatalogApi.Syncer

open Table

/-- A `timestamptz` value. -/
abbrev Instant := Int

/-- The `metadata` bag: only keys with a value are in it. -/
structure ReleaseMetadata where
  catalogNumber : String

/-- `(release_id, instance_id)`, the key of a user's row. -/
abbrev Key := Nat × Option Nat

/-- A row of `user_collections`. -/
structure CollectionRow (Format Media : Type) where
  id : Nat
  userId : Nat
  releaseId : Nat
  instanceId : Option Nat
  folderId : Option Int
  title : Option String
  artist : Option String
  year : Option Int
  formats : Option (List Format)
  label : Option String
  rating : Option Int
  dateAdded : Option Instant
  metadata : Option ReleaseMetadata
  media : Media
  gmItemId : Option Nat
  ownedCopyId : Option Nat
  updatedAt : Instant

/-- A row of `owned_copies`; `collectionRowId` is nulled when the collection row is deleted. -/
structure OwnedCopy where
  id : Nat
  userId : Nat
  itemId : Nat
  collectionRowId : Option Nat
  acquiredAt : Option Instant

/-- A row of `collection_snapshots`, less the content hash of its copy ids. -/
structure CollectionSnapshot where
  userId : Nat
  takenAt : Instant
  itemCount : Nat
  copyIds : List Nat

/-- The tables a collection sync reads and writes; `nextId` is the next generated id. -/
structure Db (Format Media : Type) where
  userCollections : List (CollectionRow Format Media)
  ownedCopies : List OwnedCopy
  collectionSnapshots : List CollectionSnapshot
  nextId : Nat

/-- Why a sync stopped. -/
inductive SyncError where
  | rateLimitExhausted
  | apiError (status page : Nat)
  | noResponse (page : Nat)
  | cardinalityViolation (rowId : Nat)

/-- `COLLECTION_TRACKED_FIELDS`, as an enumeration of the field names. -/
inductive TrackedField where
  | folderId | rating | dateAdded
  deriving DecidableEq

def collectionTrackedFields : List TrackedField := [.folderId, .rating, .dateAdded]

/-- `_KEEP_WHEN_MISSING`. -/
def keepWhenMissing : List TrackedField := [.dateAdded]

/-- The payload of a change event of one collection item. -/
structure ItemChange where
  itemId : Option Nat
  artifactId : Option Nat
  ownedCopyId : Option Nat
  deriving DecidableEq

/-- The collection change events. -/
inductive Event where
  | itemAdded (payload : ItemChange)
  | itemUpdated (payload : ItemChange) (changedFields : List TrackedField)
  | itemRemoved (payload : ItemChange)
  deriving DecidableEq

/-- What a run is given besides the responses: the user, the clock read once before the loop, and
the two functions of the common package. -/
structure Env (Format Media : Type) where
  userId : Nat
  syncStarted : Instant
  resolveAliases : Nat → Option Nat
  mapDiscogsFormats : List Format → Media

/-- One tuple of `batch_params`. -/
structure BatchParams (Format Media : Type) where
  userId : Nat
  releaseId : Nat
  instanceId : Option Nat
  folderId : Option Int
  title : Option String
  artist : Option String
  year : Option Int
  formats : Option (List Format)
  label : Option String
  rating : Option Int
  dateAdded : Option Instant
  metadata : Option ReleaseMetadata
  media : Media
  updatedAt : Instant

section Page

variable {Format Media : Type}

def CollectionRow.key (row : CollectionRow Format Media) : Key := (row.releaseId, row.instanceId)

def BatchParams.key (params : BatchParams Format Media) : Key :=
  (params.releaseId, params.instanceId)

/-! ## The upsert -/

/-- The unique constraint of `_UPSERT_COLLECTION`: NULL instance ids are never equal. -/
def conflicts (params : BatchParams Format Media) (row : CollectionRow Format Media) : Prop :=
  row.userId = params.userId ∧ row.releaseId = params.releaseId ∧
    params.instanceId ≠ none ∧ row.instanceId = params.instanceId

instance (params : BatchParams Format Media) : DecidablePred (conflicts params) :=
  fun _ => inferInstanceAs (Decidable (_ ∧ _ ∧ _ ∧ _))

/-- The `DO UPDATE` of `_UPSERT_COLLECTION`. -/
def updateRow (params : BatchParams Format Media) (gmItemId : Option Nat)
    (row : CollectionRow Format Media) : CollectionRow Format Media :=
  { row with
    folderId := params.folderId
    title := params.title
    artist := params.artist
    year := params.year
    formats := params.formats.or row.formats
    label := params.label
    rating := params.rating
    dateAdded := params.dateAdded.or row.dateAdded
    metadata := params.metadata.or row.metadata
    media := params.media
    gmItemId := gmItemId.or row.gmItemId
    updatedAt := params.updatedAt }

/-- The `VALUES` of `_UPSERT_COLLECTION`. -/
def insertRow (id : Nat) (params : BatchParams Format Media) (gmItemId : Option Nat) :
    CollectionRow Format Media :=
  { id, userId := params.userId, releaseId := params.releaseId, instanceId := params.instanceId,
    folderId := params.folderId, title := params.title, artist := params.artist,
    year := params.year, formats := params.formats, label := params.label,
    rating := params.rating, dateAdded := params.dateAdded, metadata := params.metadata,
    media := params.media, gmItemId, ownedCopyId := none, updatedAt := params.updatedAt }

/-- `_UPSERT_COLLECTION` for one tuple. The proposed row draws its id also when it is not
inserted. -/
def upsertCollection (env : Env Format Media) (db : Db Format Media)
    (params : BatchParams Format Media) : Db Format Media :=
  let gmItemId := env.resolveAliases params.releaseId
  { db with
    userCollections := upsert (conflicts params) (updateRow params gmItemId)
      (insertRow db.nextId params gmItemId) db.userCollections
    nextId := db.nextId + 1 }

/-- `_SELECT_COLLECTION_PAGE`. -/
def selectCollectionPage (db : Db Format Media) (userId : Nat) (releaseIds : List Nat) :
    List (CollectionRow Format Media) :=
  db.userCollections.filter fun row => row.userId = userId ∧ row.releaseId ∈ releaseIds

/-- The dictionary a page read is keyed into: the last row with a key wins. -/
def byKey (rows : List (CollectionRow Format Media)) (key : Key) :
    Option (CollectionRow Format Media) :=
  lookup CollectionRow.key rows.reverse key

/-! ## Owned copies -/

/-- The `DO UPDATE ... WHERE` of `_MINT_OWNED_COPIES`: the copy is not correct yet. -/
def copyDiffers (itemId : Nat) (acquiredAt : Option Instant) (copy : OwnedCopy) : Prop :=
  copy.itemId ≠ itemId ∨ (acquiredAt ≠ none ∧ copy.acquiredAt ≠ acquiredAt)

instance (itemId : Nat) (acquiredAt : Option Instant) : DecidablePred (copyDiffers itemId acquiredAt) :=
  fun _ => inferInstanceAs (Decidable (_ ∨ _ ∧ _))

/-- One proposed row of `_MINT_OWNED_COPIES`. `affected` holds the collection rows whose copy this
statement has written: the statement cannot write a copy a second time. -/
def mintOwnedCopy (userId : Nat) (state : Db Format Media × List Nat)
    (row : CollectionRow Format Media) : Except SyncError (Db Format Media × List Nat) :=
  let (db, affected) := state
  match row.gmItemId with
  | none => pure state
  | some itemId =>
      match lookup OwnedCopy.collectionRowId db.ownedCopies (some row.id) with
      | none => pure
          ({ db with
             ownedCopies := db.ownedCopies ++
               [{ id := db.nextId, userId, itemId, collectionRowId := some row.id,
                  acquiredAt := row.dateAdded }]
             nextId := db.nextId + 1 }, row.id :: affected)
      | some copy =>
          if row.id ∈ affected then throw (.cardinalityViolation row.id)
          else if copyDiffers itemId row.dateAdded copy then pure
            ({ db with
               ownedCopies := db.ownedCopies.map fun old =>
                 if old.collectionRowId = some row.id then
                   { old with itemId, acquiredAt := row.dateAdded.or old.acquiredAt }
                 else old }, row.id :: affected)
          else pure state

/-- The copy `_LINK_OWNED_COPIES` joins a collection row to, when the link is not there yet. -/
def linkFor (copies : List OwnedCopy) (rowIds : List Nat) (row : CollectionRow Format Media) :
    Option Nat :=
  if row.id ∈ rowIds then
    match lookup OwnedCopy.collectionRowId copies (some row.id) with
    | some copy => if row.ownedCopyId = some copy.id then none else some copy.id
    | none => none
  else none

/-- `_LINK_OWNED_COPIES` on one collection row. -/
def linkRow (copies : List OwnedCopy) (rowIds : List Nat) (row : CollectionRow Format Media) :
    CollectionRow Format Media :=
  { row with ownedCopyId := (linkFor copies rowIds row).or row.ownedCopyId }

/-- The entries of `copy_ids` for the rows with a copy id. -/
def copyEntries (entry : CollectionRow Format Media → Option Nat)
    (rows : List (CollectionRow Format Media)) : List (Nat × Nat) :=
  rows.filterMap fun row => (entry row).map fun copyId => (row.id, copyId)

/-- `copy_ids.get`: the last entry for a row wins. -/
def copyIdOf (copyIds : List (Nat × Nat)) (rowId : Nat) : Option Nat :=
  (lookup Prod.fst copyIds.reverse rowId).map Prod.snd

/-- `_ensure_owned_copies`: mint and link one copy for each identified row of the page, and
return the copy id of each of them by row id. -/
def ensureOwnedCopies (userId : Nat) (db : Db Format Media)
    (pageRows : List (CollectionRow Format Media)) :
    Except SyncError (Db Format Media × List (Nat × Nat)) :=
  let identified := pageRows.filter fun row => row.gmItemId.isSome
  if identified.isEmpty then pure (db, [])
  else do
    let (minted, _) ← identified.foldlM (mintOwnedCopy userId) (db, [])
    let rowIds := identified.map (·.id)
    let held := copyEntries (·.ownedCopyId) identified
    let linked := copyEntries (linkFor minted.ownedCopies rowIds) minted.userCollections
    let rows := minted.userCollections.map (linkRow minted.ownedCopies rowIds)
    pure ({ minted with userCollections := rows }, held ++ linked)

/-! ## Change events -/

/-- Compare one tracked field of two reads of a row. -/
def fieldDiffers (previous row : CollectionRow Format Media) : TrackedField → Bool
  | .folderId => previous.folderId ≠ row.folderId
  | .rating => previous.rating ≠ row.rating
  | .dateAdded => previous.dateAdded ≠ row.dateAdded

/-- `row[field] is None`. -/
def fieldMissing (row : CollectionRow Format Media) : TrackedField → Bool
  | .folderId => row.folderId.isNone
  | .rating => row.rating.isNone
  | .dateAdded => row.dateAdded.isNone

/-- The tracked fields that moved between two reads of a row. -/
def changedFields (previous row : CollectionRow Format Media) : List TrackedField :=
  collectionTrackedFields.filter fun field =>
    fieldDiffers previous row field && !(keepWhenMissing.contains field && fieldMissing row field)

/-- The event of one key of a page. -/
def keyEvent (before after : Key → Option (CollectionRow Format Media))
    (copyIds : List (Nat × Nat)) (key : Key) : Option Event :=
  match after key with
  | none => none
  | some row =>
      if row.gmItemId.isNone then none
      else
        let payload : ItemChange :=
          { itemId := row.gmItemId, artifactId := none, ownedCopyId := copyIdOf copyIds row.id }
        match before key with
        | none => some (.itemAdded payload)
        | some previous =>
            let changed := changedFields previous row
            if changed.isEmpty then none else some (.itemUpdated payload changed)

/-- `_collection_page_events`: diff the before-state of a page against its after-state. -/
def collectionPageEvents (pageKeys : List Key)
    (before after : Key → Option (CollectionRow Format Media)) (copyIds : List (Nat × Nat)) :
    List Event :=
  pageKeys.eraseDups.filterMap (keyEvent before after copyIds)

/-- `_persist_collection_page`: write one fetched page and return the change events it caused. -/
def persistCollectionPage (env : Env Format Media) (db : Db Format Media)
    (batch : List (BatchParams Format Media)) :
    Except SyncError (Db Format Media × List Event) := do
  let releaseIds := batch.map (·.releaseId)
  let pageKeys := batch.map (·.key)
  let before := byKey (selectCollectionPage db env.userId releaseIds)
  let upserted := batch.foldl (upsertCollection env) db
  let after := byKey (selectCollectionPage upserted env.userId releaseIds)
  let (linked, copyIds) ← ensureOwnedCopies env.userId upserted (pageKeys.filterMap after)
  pure (linked, collectionPageEvents pageKeys before after copyIds)

end Page

end CatalogApi.Syncer
