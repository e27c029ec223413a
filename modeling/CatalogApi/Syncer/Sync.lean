import CatalogApi.Syncer.Collection
import Mathlib.Data.List.Sort

/-!
# The collection sync

`sync_collection` of `api/syncer.py`: the request loop, the batch built from each response, the
sweep of the rows this run did not touch, and the snapshot. The responses of Discogs are a list,
one for each request; a run that is given no further response ends with the transport error.
The Neo4j half writes no table that is read here and is left out.
-/

namespace CatalogApi.Syncer

/-- `PAGE_SIZE`. -/
def pageSize : Nat := 100

/-- `MAX_RATE_LIMIT_RETRIES`. -/
def maxRateLimitRetries : Nat := 5

structure Artist where
  name : String

structure Label where
  name : String
  catno : Option String

/-- The `basic_information` of a collection item. -/
structure BasicInformation (Format : Type) where
  id : Option Nat
  title : Option String
  year : Option Int
  artists : List Artist
  labels : List Label
  formats : List Format

/-- One element of `releases`. The outer `Option` of `rating` tells a missing field from null. -/
structure Item (Format : Type) where
  basicInformation : BasicInformation Format
  instanceId : Option Nat
  folderId : Option Int
  rating : Option (Option Int)
  dateAdded : Option Instant

/-- What one request comes back with; `pages` is the page count of the pagination, when given. -/
inductive Response (Format : Type) where
  | rateLimited
  | failed (status : Nat)
  | ok (releases : List (Item Format)) (pages : Option Nat)

section Sync

variable {Format Media : Type}

/-! ## The batch of a response -/

/-- The metadata bag of an item: the catalog number of the first label, when it has one. -/
def releaseMetadata (labels : List Label) : Option ReleaseMetadata :=
  match labels.head? with
  | none => none
  | some first =>
      match first.catno with
      | none => none
      | some catno => if catno = "" then none else some { catalogNumber := catno }

/-- `formats_json`: an empty list is stored as NULL. -/
def formatsJson (formats : List Format) : Option (List Format) :=
  if formats.isEmpty then none else some formats

/-- The tuple of one item; an item without a release id is skipped. -/
def batchParamsOf (env : Env Format Media) (item : Item Format) :
    Option (BatchParams Format Media) :=
  let basic := item.basicInformation
  match basic.id with
  | none => none
  | some releaseId =>
      if releaseId = 0 then none
      else some
        { userId := env.userId, releaseId, instanceId := item.instanceId,
          folderId := item.folderId, title := basic.title,
          artist := basic.artists.head?.map (·.name), year := basic.year,
          formats := formatsJson basic.formats, label := basic.labels.head?.map (·.name),
          rating := item.rating.getD (some 0), dateAdded := item.dateAdded,
          metadata := releaseMetadata basic.labels, media := env.mapDiscogsFormats basic.formats,
          updatedAt := env.syncStarted }

/-- `batch_params`. -/
def batchParams (env : Env Format Media) (releases : List (Item Format)) :
    List (BatchParams Format Media) :=
  releases.filterMap (batchParamsOf env)

/-! ## Reconciliation and the snapshot -/

/-- `_DELETE_STALE_COLLECTION`'s condition. -/
def isStale (userId : Nat) (cutoff : Instant) (row : CollectionRow Format Media) : Prop :=
  row.userId = userId ∧ row.updatedAt < cutoff

instance (userId : Nat) (cutoff : Instant) (row : CollectionRow Format Media) :
    Decidable (isStale userId cutoff row) :=
  inferInstanceAs (Decidable (_ ∧ _))

/-- The event of one deleted row. -/
def removedEvent (row : CollectionRow Format Media) : Option Event :=
  if row.gmItemId.isNone then none
  else some (.itemRemoved
    { itemId := row.gmItemId, artifactId := none, ownedCopyId := row.ownedCopyId })

/-- `_reconcile_stale_collection`: delete the user's rows this run did not touch; the foreign key
nulls the collection row of their copies. -/
def reconcileStaleCollection (env : Env Format Media) (db : Db Format Media) :
    Db Format Media × List Event :=
  let removed := db.userCollections.filter fun row => isStale env.userId env.syncStarted row
  let removedIds := removed.map (·.id)
  ({ db with
     userCollections := db.userCollections.filter fun row =>
       ¬isStale env.userId env.syncStarted row
     ownedCopies := db.ownedCopies.map fun copy =>
       if copy.collectionRowId.any fun rowId => decide (rowId ∈ removedIds) then
         { copy with collectionRowId := none }
       else copy },
   removed.filterMap removedEvent)

/-- `_write_collection_snapshot`. -/
def writeCollectionSnapshot (env : Env Format Media) (db : Db Format Media) :
    Db Format Media :=
  let copyIds := ((db.ownedCopies.filter fun copy =>
    copy.userId = env.userId ∧ copy.collectionRowId.isSome).map (·.id)).insertionSort (· ≤ ·)
  { db with
    collectionSnapshots := db.collectionSnapshots ++
      [{ userId := env.userId, takenAt := env.syncStarted, itemCount := copyIds.length, copyIds }] }

/-! ## The request loop -/

/-- What the loop carries from one page to the next. -/
structure Progress (Format Media : Type) where
  page : Nat
  rateLimitRetries : Nat
  totalSynced : Nat
  db : Db Format Media
  events : List Event

/-- Persist the batch of one response, when it is not empty. -/
def persistResponse (env : Env Format Media) (progress : Progress Format Media)
    (releases : List (Item Format)) : Except SyncError (Progress Format Media) :=
  let batch := batchParams env releases
  if batch.isEmpty then pure progress
  else do
    let (db, pageEvents) ← persistCollectionPage env progress.db batch
    pure { progress with
      totalSynced := progress.totalSynced + batch.length
      db := db
      events := progress.events ++ pageEvents }

/-- The `while True` loop of `sync_collection`: one response for each request. -/
def syncPages (env : Env Format Media) :
    Progress Format Media → List (Response Format) → Except SyncError (Progress Format Media)
  | progress, [] => throw (.noResponse progress.page)
  | progress, .rateLimited :: responses =>
      if progress.rateLimitRetries + 1 > maxRateLimitRetries then throw .rateLimitExhausted
      else syncPages env
        { progress with rateLimitRetries := progress.rateLimitRetries + 1 } responses
  | progress, .failed status :: _ => throw (.apiError status progress.page)
  | progress, .ok releases pages :: responses =>
      if releases.isEmpty then pure { progress with rateLimitRetries := 0 }
      else do
        let progress ← persistResponse env { progress with rateLimitRetries := 0 } releases
        if progress.page ≥ pages.getD 1 then pure progress
        else syncPages env { progress with page := progress.page + 1 } responses

/-- What a completed run leaves: the tables, the emitted events in order, and the item count. -/
structure SyncResult (Format Media : Type) where
  db : Db Format Media
  events : List Event
  totalSynced : Nat

/-- `sync_collection`. -/
def syncCollection (env : Env Format Media) (db : Db Format Media)
    (responses : List (Response Format)) : Except SyncError (SyncResult Format Media) := do
  let progress ← syncPages env
    { page := 1, rateLimitRetries := 0, totalSynced := 0, db, events := [] } responses
  let (reconciled, removed) := reconcileStaleCollection env progress.db
  pure
    { db := writeCollectionSnapshot env reconciled
      events := progress.events ++ removed
      totalSynced := progress.totalSynced }

end Sync

end CatalogApi.Syncer
