import Mathlib.Data.List.Basic
import Mathlib.Order.Lattice

/-!
# The native-id merge of two catalog items

`api/catalog_merge.py`, statement by statement, over the tables it reads and writes:
`catalog_item_supersessions`, the asserted references of `artifacts` and `owned_copies`, the
`catalog_item_moves` ledger, the current aliases and the `gm_item_id` caches. A transaction is
one function from the database to the database or to the conflict that rolls it back; `now` is
the transaction's start, the same for all its statements.

A UUID is a natural number: only equality and the order `lock_items` sorts by matter. Row ids
are drawn from a counter, so a generated id is one that no row has.
-/

namespace CatalogApi.CatalogMerge

/-- A `timestamptz` value. -/
abbrev Instant := Int

inductive EntityKind where
  | release | master | artist | label
  deriving DecidableEq

/-- `CAUSES`: why a supersession was opened. -/
inductive Cause where
  | editionPromotion | catalogReattachment
  deriving DecidableEq

/-- A row of `catalog_item_supersessions`. It is open while `validTo` is `none`. -/
structure Supersession where
  id : Nat
  supersededId : Nat
  survivorId : Nat
  cause : Cause
  decisionRef : Nat
  validFrom : Instant
  validTo : Option Instant
  viaId : Option Nat
  deriving DecidableEq

/-- `MOVED_TABLES`: the tables whose asserted reference a merge re-points. -/
inductive MovedTable where
  | artifacts | ownedCopies
  deriving DecidableEq

def movedTables : List MovedTable := [.artifacts, .ownedCopies]

/-- A row of one of the moved tables; `owner` is its `created_by` or `user_id` column. -/
structure Dependent where
  table : MovedTable
  id : Nat
  itemId : Nat
  owner : Option Nat

/-- A row of the `catalog_item_moves` ledger. -/
structure Move where
  supersessionId : Nat
  tableName : MovedTable
  rowId : Nat
  fromItemId : Nat
  toItemId : Nat
  userId : Option Nat
  movedAt : Instant

/-- A row of `provider_aliases`, current while `validTo` is `none`. The `real` confidence is only
copied. -/
structure Alias where
  provider : String
  entityKind : String
  externalId : String
  nativeId : Nat
  source : String
  confidence : Option Rat
  validFrom : Instant
  validTo : Option Instant
  deriving DecidableEq

/-- A row carrying a `gm_item_id` cache, with the key its alias is looked up by. -/
structure CachedRow where
  table : String
  key : String
  gmItemId : Option Nat

/-- One table carrying a `gm_item_id` cache, and the alias its value is resolved through. -/
structure CacheTable where
  table : String
  key : String
  provider : String
  entityKind : String

/-- `CACHE_TABLES`. -/
def cacheTables : EntityKind → List CacheTable
  | .release =>
      [⟨"public.releases", "data_id", "discogs", "release"⟩,
       ⟨"musicbrainz.releases", "mbid", "musicbrainz", "release"⟩,
       ⟨"user_collections", "release_id", "discogs", "release"⟩,
       ⟨"user_wantlists", "release_id", "discogs", "release"⟩]
  | .master =>
      [⟨"public.masters", "data_id", "discogs", "master"⟩,
       ⟨"musicbrainz.release_groups", "mbid", "musicbrainz", "master"⟩]
  | .artist =>
      [⟨"public.artists", "data_id", "discogs", "artist"⟩,
       ⟨"musicbrainz.artists", "mbid", "musicbrainz", "artist"⟩]
  | .label =>
      [⟨"public.labels", "data_id", "discogs", "label"⟩,
       ⟨"musicbrainz.labels", "mbid", "musicbrainz", "label"⟩]

/-- The tables a merge reads and writes. `kinds` is `catalog_items`; `nextId` is the next
generated row id. -/
structure Db where
  kinds : Nat → Option EntityKind
  supersessions : List Supersession
  dependents : List Dependent
  moves : List Move
  aliases : List Alias
  caches : List CachedRow
  nextId : Nat

/-- `MergeConflictError`: the transaction rolls back. -/
inductive MergeConflict where
  | selfSupersession (item : Nat)
  | missingItem (item : Nat)
  | kindsDiffer (superseded : Nat) (kind : EntityKind) (survivor : Nat) (other : EntityKind)
  | survivorSuperseded (survivor resolved : Nat)
  | alreadySuperseded (superseded resolved survivor : Nat)
  | missingSupersession (id : Nat)
  | notCurrent (id : Nat)
  | compressedBy (id via : Nat)
  | predecessorsMissing (id : Nat) (compressed predecessors : Nat)

/-! ## Step 4: locks and checks -/

/-- `_LOCK_ITEM`: the kind of an existing item. -/
def lockItem (db : Db) (item : Nat) : Except MergeConflict EntityKind :=
  match db.kinds item with
  | some kind => pure kind
  | none => throw (.missingItem item)

/-- `lock_items`: lock both items in id order and return their shared kind. -/
def lockItems (db : Db) (superseded survivor : Nat) : Except MergeConflict EntityKind := do
  if superseded = survivor then throw (.selfSupersession superseded)
  let first ← lockItem db (min superseded survivor)
  let second ← lockItem db (max superseded survivor)
  let (kind, other) := if superseded ≤ survivor then (first, second) else (second, first)
  if kind ≠ other then throw (.kindsDiffer superseded kind survivor other)
  pure kind

/-- The open row that supersedes `item`, as the dictionary `current_supersession` builds from
`_CURRENT_SURVIVORS` holds it: the last row read wins. -/
def openRow (rows : List Supersession) (item : Nat) : Option Supersession :=
  rows.reverse.find? fun row => row.supersededId = item ∧ row.validTo = none

/-- `current_supersession`: check that the pair can merge and return an already-open row. -/
def currentSupersession (db : Db) (superseded survivor : Nat) :
    Except MergeConflict (Option Nat) :=
  match openRow db.supersessions survivor with
  | some row => throw (.survivorSuperseded survivor row.survivorId)
  | none =>
      match openRow db.supersessions superseded with
      | some row =>
          if row.survivorId ≠ survivor then
            throw (.alreadySuperseded superseded row.survivorId survivor)
          else pure (some row.id)
      | none => pure none

/-! ## Step 5: the supersession row and chain compression -/

/-- `_CLOSE_SURVIVED` on one row. -/
def closeSurvived (item : Nat) (now : Instant) (row : Supersession) : Supersession :=
  if row.survivorId = item ∧ row.validTo = none then { row with validTo := some now } else row

/-- The rows `_CLOSE_SURVIVED` returns. -/
def survived (item : Nat) (rows : List Supersession) : List Supersession :=
  rows.filter fun row => row.survivorId = item ∧ row.validTo = none

/-- `_OPEN_COMPRESSED`: the row that replaces a closed one, keeping its cause and decision. -/
def compressedRow (survivor via : Nat) (now : Instant) (row : Supersession) (id : Nat) :
    Supersession :=
  { id, supersededId := row.supersededId, survivorId := survivor, cause := row.cause,
    decisionRef := row.decisionRef, validFrom := now, validTo := none, viaId := some via }

/-- `_OPEN`, `_CLOSE_SURVIVED` and `_OPEN_COMPRESSED` on the supersession table; the opened row
takes the id `nextId`, the compressed ones those after it. -/
def openAndCompress (rows : List Supersession) (nextId superseded survivor : Nat)
    (cause : Cause) (decisionRef : Nat) (now : Instant) : List Supersession :=
  let opened : Supersession :=
    { id := nextId, supersededId := superseded, survivorId := survivor, cause, decisionRef,
      validFrom := now, validTo := none, viaId := none }
  let withOpened := rows ++ [opened]
  withOpened.map (closeSurvived superseded now) ++
    (survived superseded withOpened).zipIdx.map fun entry =>
      compressedRow survivor nextId now entry.1 (nextId + 1 + entry.2)

/-! ## Step 6: asserted references -/

/-- `_REPOINT` on one row of the moved tables. -/
def repointRow (table : MovedTable) (superseded survivor : Nat) (row : Dependent) : Dependent :=
  if row.table = table ∧ row.itemId = superseded then { row with itemId := survivor } else row

/-- The ledger holds an entry for this supersession and row already. -/
def ledgered (moves : List Move) (supersession : Nat) (table : MovedTable) (rowId : Nat) :
    Prop :=
  ∃ move ∈ moves, move.supersessionId = supersession ∧ move.tableName = table ∧
    move.rowId = rowId

instance (moves : List Move) (supersession : Nat) (table : MovedTable) (rowId : Nat) :
    Decidable (ledgered moves supersession table rowId) :=
  inferInstanceAs (Decidable (∃ _ ∈ moves, _ ∧ _ ∧ _))

/-- The insert of `_REPOINT`: one ledger entry for each moved row, `ON CONFLICT DO NOTHING` on
`(supersession_id, table_name, row_id)`. -/
def ledgerMoves (table : MovedTable) (superseded survivor supersession : Nat) (now : Instant)
    (moved : List Dependent) (moves : List Move) : List Move :=
  moved.foldl (fun moves row =>
    if ledgered moves supersession table row.id then moves
    else moves ++ [{ supersessionId := supersession, tableName := table, rowId := row.id,
                     fromItemId := superseded, toItemId := survivor, userId := row.owner,
                     movedAt := now }]) moves

/-- `_REPOINT`: re-point the rows of one table, ledger each and count them. -/
def repoint (table : MovedTable) (superseded survivor supersession : Nat) (now : Instant)
    (db : Db) : Db × Nat :=
  let moved := db.dependents.filter fun row => row.table = table ∧ row.itemId = superseded
  ({ db with
     dependents := db.dependents.map (repointRow table superseded survivor)
     moves := ledgerMoves table superseded survivor supersession now moved db.moves },
   moved.length)

/-! ## Step 7: caches -/

/-- The alias `_RECOMPUTE` joins a cached row to: current, of the table's provider and kind, for
the row's key, and resolving elsewhere than the cache says. -/
def recomputeAlias (aliases : List Alias) (cache : CacheTable) (items : List Nat)
    (row : CachedRow) : Option Alias :=
  match row.gmItemId with
  | none => none
  | some cached =>
      if row.table = cache.table ∧ cached ∈ items then
        aliases.find? fun entry =>
          entry.provider = cache.provider ∧ entry.entityKind = cache.entityKind ∧
            entry.externalId = row.key ∧ entry.validTo = none ∧ entry.nativeId ≠ cached
      else none

/-- `_RECOMPUTE` on one cached row. -/
def recomputeRow (aliases : List Alias) (cache : CacheTable) (items : List Nat)
    (row : CachedRow) : CachedRow :=
  match recomputeAlias aliases cache items row with
  | some entry => { row with gmItemId := some entry.nativeId }
  | none => row

/-- `recompute_caches`: re-resolve every cache of this kind that names one of the items. -/
def recomputeCaches (kind : EntityKind) (items : List Nat) (db : Db) :
    Db × List (String × Nat) :=
  (cacheTables kind).foldl (fun (state : Db × List (String × Nat)) cache =>
    let hits := state.1.caches.filter fun row =>
      (recomputeAlias state.1.aliases cache items row).isSome
    ({ state.1 with caches := state.1.caches.map (recomputeRow state.1.aliases cache items) },
     state.2 ++ [(cache.table, hits.length)])) (db, [])

/-! ## Merge and revert -/

/-- What steps 5-7 did for one pair: per-table counts only. -/
structure MergeOutcome where
  supersessionId : Nat
  opened : Bool
  chainsCompressed : Nat
  moved : List (MovedTable × Nat)
  cachesRecomputed : List (String × Nat)

/-- Step 6 over `MOVED_TABLES`. -/
def repointAll (superseded survivor supersession : Nat) (now : Instant) (db : Db) :
    Db × List (MovedTable × Nat) :=
  movedTables.foldl (fun (state : Db × List (MovedTable × Nat)) table =>
    let (db, count) := repoint table superseded survivor supersession now state.1
    (db, state.2 ++ [(table, count)])) (db, [])

/-- `merge_items`: steps 5-7 inside the caller's transaction. -/
def mergeItems (db : Db) (superseded survivor : Nat) (kind : EntityKind) (cause : Cause)
    (decisionRef : Nat) (existing : Option Nat) (now : Instant) : Db × MergeOutcome :=
  let (opened, supersession, compressed) := match existing with
    | some row => (db, row, 0)
    | none =>
        let chains := (survived superseded db.supersessions).length
        ({ db with
           supersessions :=
             openAndCompress db.supersessions db.nextId superseded survivor cause decisionRef now
           nextId := db.nextId + 1 + chains },
         db.nextId, chains)
  let (repointed, moved) := repointAll superseded survivor supersession now opened
  let (recomputed, counts) := recomputeCaches kind [superseded, survivor] repointed
  (recomputed,
   { supersessionId := supersession, opened := existing.isNone, chainsCompressed := compressed,
     moved, cachesRecomputed := counts })

/-- What a revert did: per-table counts only. -/
structure RevertOutcome where
  supersessionId : Nat
  chainsReopened : Nat
  movedBack : List (MovedTable × Nat)
  cachesRecomputed : List (String × Nat)

/-- `_CLOSE` on one row. -/
def closeRow (id : Nat) (now : Instant) (row : Supersession) : Supersession :=
  if row.id = id then { row with validTo := some now } else row

/-- `_CLOSE_COMPRESSED` on one row. -/
def closeCompressed (id : Nat) (now : Instant) (row : Supersession) : Supersession :=
  if row.viaId = some id ∧ row.validTo = none then { row with validTo := some now } else row

/-- The item and opening time of each row `_CLOSE_COMPRESSED` returns. -/
def compressedOf (id : Nat) (rows : List Supersession) : List (Nat × Instant) :=
  (rows.filter fun row => row.viaId = some id ∧ row.validTo = none).map fun row =>
    (row.supersededId, row.validFrom)

/-- The join condition of `_REOPEN_PREDECESSORS`. -/
def isPredecessor (compressed : List (Nat × Instant)) (survivor : Nat) (row : Supersession) :
    Prop :=
  row.survivorId = survivor ∧
    ∃ entry ∈ compressed, row.supersededId = entry.1 ∧ row.validTo = some entry.2

instance (compressed : List (Nat × Instant)) (survivor : Nat) (row : Supersession) :
    Decidable (isPredecessor compressed survivor row) :=
  inferInstanceAs (Decidable (_ ∧ ∃ _ ∈ compressed, _ ∧ _))

/-- `_REOPEN_PREDECESSORS` on one row. -/
def reopenPredecessor (compressed : List (Nat × Instant)) (survivor : Nat)
    (row : Supersession) : Supersession :=
  if isPredecessor compressed survivor row then { row with validTo := none } else row

/-- The ledger entry `_MOVE_BACK` joins a row to. -/
def moveBackEntry (moves : List Move) (supersession : Nat) (table : MovedTable)
    (row : Dependent) : Option Move :=
  if row.table = table then
    moves.find? fun move =>
      move.supersessionId = supersession ∧ move.tableName = table ∧ move.rowId = row.id ∧
        move.toItemId = row.itemId
  else none

/-- `_MOVE_BACK` on one row. -/
def moveBackRow (moves : List Move) (supersession : Nat) (table : MovedTable)
    (row : Dependent) : Dependent :=
  match moveBackEntry moves supersession table row with
  | some move => { row with itemId := move.fromItemId }
  | none => row

/-- `_MOVE_BACK`: move back the ledgered rows of one table that still point at the survivor. -/
def moveBack (table : MovedTable) (supersession : Nat) (db : Db) : Db × Nat :=
  ({ db with dependents := db.dependents.map (moveBackRow db.moves supersession table) },
   (db.dependents.filter fun row =>
     (moveBackEntry db.moves supersession table row).isSome).length)

/-- The move-back over `MOVED_TABLES`. -/
def moveBackAll (supersession : Nat) (db : Db) : Db × List (MovedTable × Nat) :=
  movedTables.foldl (fun (state : Db × List (MovedTable × Nat)) table =>
    let (db, count) := moveBack table supersession state.1
    (db, state.2 ++ [(table, count)])) (db, [])

/-- The supersession statements of a revert: close the row, close the rows it compressed, and
re-open the predecessor of each. Returns the table and the number of predecessors. -/
def revertChains (rows : List Supersession) (id superseded : Nat) (now : Instant) :
    Except MergeConflict (List Supersession × Nat) :=
  let closed := rows.map (closeRow id now)
  let compressed := compressedOf id closed
  let swept := closed.map (closeCompressed id now)
  if compressed = [] then pure (swept, 0)
  else
    let predecessors := swept.filter fun row => isPredecessor compressed superseded row
    if predecessors.length ≠ compressed.length then
      throw (.predecessorsMissing id compressed.length predecessors.length)
    else pure (swept.map (reopenPredecessor compressed superseded), predecessors.length)

/-- `_LOCK_SUPERSESSION`: the row with this id. -/
def findSupersession (db : Db) (id : Nat) : Except MergeConflict Supersession :=
  match db.supersessions.find? fun row => row.id = id with
  | some row => pure row
  | none => throw (.missingSupersession id)

/-- `revert_supersession`: revert one merge inside the caller's transaction. -/
def revertSupersession (db : Db) (id : Nat) (now : Instant) :
    Except MergeConflict (Db × RevertOutcome) := do
  let row ← findSupersession db id
  let kind ← lockItems db row.supersededId row.survivorId
  if row.validTo ≠ none then throw (.notCurrent id)
  if let some via := row.viaId then throw (.compressedBy id via)
  let (supersessions, reopened) ← revertChains db.supersessions id row.supersededId now
  let (restored, movedBack) := moveBackAll id { db with supersessions }
  let (recomputed, counts) := recomputeCaches kind [row.supersededId, row.survivorId] restored
  pure (recomputed,
    { supersessionId := id, chainsReopened := reopened, movedBack, cachesRecomputed := counts })

/-! ## Transactions -/

/-- The merge transaction of a caller: lock, check, and merge with the row the check returned. -/
def mergePair (db : Db) (superseded survivor : Nat) (cause : Cause) (decisionRef : Nat)
    (now : Instant) : Except MergeConflict (Db × MergeOutcome) := do
  let kind ← lockItems db superseded survivor
  let existing ← currentSupersession db superseded survivor
  pure (mergeItems db superseded survivor kind cause decisionRef existing now)

/-- One committed transaction: a merge, a revert, or the creation of an artifact or owned copy
against an item the writer names. -/
inductive Action where
  | merge (now : Instant) (superseded survivor : Nat) (cause : Cause) (decisionRef : Nat)
  | revert (now : Instant) (id : Nat)
  | create (table : MovedTable) (id item : Nat) (owner : Option Nat)

/-- The start of a merge or revert transaction. -/
def Action.now? : Action → Option Instant
  | .merge now .. | .revert now _ => some now
  | .create .. => none

/-- Why a transaction did not commit. -/
inductive Failure where
  | conflict (reason : MergeConflict)
  | missingItem (item : Nat)
  | duplicateRow (table : MovedTable) (id : Nat)

/-- The insert of an artifact or owned copy: the item exists (foreign key, whether superseded or
not) and the row id is new (primary key). -/
def createDependent (db : Db) (table : MovedTable) (id item : Nat) (owner : Option Nat) :
    Except Failure Db :=
  if db.kinds item = none then throw (.missingItem item)
  else if ∃ row ∈ db.dependents, row.table = table ∧ row.id = id then
    throw (.duplicateRow table id)
  else pure { db with dependents := db.dependents ++ [{ table, id, itemId := item, owner }] }

/-- Commit one transaction, or fail with the database unchanged. -/
def Action.apply (db : Db) : Action → Except Failure Db
  | .merge now superseded survivor cause decisionRef =>
      match mergePair db superseded survivor cause decisionRef now with
      | .ok (db, _) => .ok db
      | .error reason => .error (.conflict reason)
  | .revert now id =>
      match revertSupersession db id now with
      | .ok (db, _) => .ok db
      | .error reason => .error (.conflict reason)
  | .create table id item owner => createDependent db table id item owner

end CatalogApi.CatalogMerge
