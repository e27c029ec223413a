import CatalogApi.Erasure.Postgres
import CatalogApi.Lib.Programs
import CatalogApi.Syncer.Page
import CatalogApi.Syncer.Sync

/-!
# Erasure beside a sync

`request_erasure` of `api/routers/activity.py` and `run_full_sync` of `api/syncer.py` over one
PostgreSQL, one Neo4j and one Valkey, as programs of their transactions, Cypher statements and
Valkey steps. A sync is given the responses of Discogs in advance. Any step may fail or be
cancelled, with or without its effect. The activity tables, the `users` row and the events that a
sync emits are left out: no table of `_USER_OWNED_DELETES` depends on them.
-/

namespace CatalogApi.Erasure

open Programs Syncer

variable {Format Media : Type}

abbrev User := Nat

/-! ## The stores -/

/-- A row of `user_wantlists`. -/
structure WantRow (Media : Type) where
  userId : User
  releaseId : Nat
  title : Option String
  artist : Option String
  year : Option Int
  format : Option String
  rating : Option Int
  notes : Option String
  dateAdded : Option Instant
  media : Media
  gmItemId : Option Nat
  updatedAt : Instant

/-- A Discogs row of `oauth_tokens`. -/
structure OauthToken where
  userId : User
  providerUsername : String

/-- The status of a sync. -/
inductive SyncStatus where
  | running
  | completed
  | failed
  | cancelled

/-- A row of `sync_history`. -/
structure HistoryRow where
  id : Nat
  userId : User
  status : SyncStatus
  itemsSynced : Nat

/-- The per-user keys of Valkey: the two kinds of recommendation keys, the counter of snapshots, and the
lock and cooldown of syncs. -/
inductive UserKey where
  | explore (rest : String)
  | enhanced
  | snapshotCount
  | syncLock
  | syncCooldown

/-- A key that `invalidate_user` sweeps. -/
def UserKey.recommends : UserKey → Bool
  | .explore _ | .enhanced => true
  | _ => false

/-- A `COLLECTED` or `WANTS` relationship; a wanted release has no instance. -/
structure Edge where
  releaseId : Nat
  instanceId : Option Nat
  rating : Option Int
  folderId : Option Int
  dateAdded : Option Instant
  syncedAt : Instant

/-- A `User` node with its relationships. -/
structure UserNode where
  id : User
  discogsUsername : String
  collected : List Edge
  wants : List Edge

/-- What becomes of the next step. -/
inductive Fate where
  | succeeds
  | fails (applied cancelled : Bool)

/-- How a step fails. -/
inductive StepFailure where
  | raised
  | cancelled

/-- The stores: the tables of `_USER_OWNED_DELETES`, of which `others` are the rows that no sync
writes, the nodes of Neo4j, and the per-user keys of Valkey. `erased` and `detached` are the users
whose erasure has committed and whose node has been deleted. -/
structure Store (Format Media : Type) where
  db : Db Format Media
  wantlists : List (WantRow Media)
  history : List HistoryRow
  oauthTokens : List OauthToken
  appConfigured : Bool
  others : List (Table × User)
  releases : List Nat
  nodes : List UserNode
  keys : List (User × UserKey)
  fate : Fate
  erased : List User
  detached : List User

namespace Store

variable (store : Store Format Media)

/-- A table of `_USER_OWNED_DELETES` has a row of the user. -/
def holds (user : User) : Table → Bool
  | .userCollections => store.db.userCollections.any (·.userId = user)
  | .ownedCopies => store.db.ownedCopies.any (·.userId = user)
  | .collectionSnapshots => store.db.collectionSnapshots.any (·.userId = user)
  | .userWantlists => store.wantlists.any (·.userId = user)
  | .syncHistory => store.history.any (·.userId = user)
  | .oauthTokens => store.oauthTokens.any (·.userId = user)
  | table => store.others.any (· = (table, user))

/-- `DELETE FROM table WHERE user_id = user`. -/
def deleteFrom (user : User) (store : Store Format Media) : Table → Store Format Media
  | .userCollections =>
      { store with
        db := { store.db with
          userCollections := store.db.userCollections.filter (·.userId ≠ user) } }
  | .ownedCopies =>
      { store with
        db := { store.db with ownedCopies := store.db.ownedCopies.filter (·.userId ≠ user) } }
  | .collectionSnapshots =>
      { store with
        db := { store.db with
          collectionSnapshots := store.db.collectionSnapshots.filter (·.userId ≠ user) } }
  | .userWantlists => { store with wantlists := store.wantlists.filter (·.userId ≠ user) }
  | .syncHistory => { store with history := store.history.filter (·.userId ≠ user) }
  | .oauthTokens => { store with oauthTokens := store.oauthTokens.filter (·.userId ≠ user) }
  | table => { store with others := store.others.filter (· ≠ (table, user)) }

/-- `_erase_postgres`, as far as the tables of `_USER_OWNED_DELETES` go. -/
def erasePostgres (user : User) : Store Format Media :=
  { userOwnedDeletes.foldl (deleteFrom user) store with erased := user :: store.erased }

/-- `_DETACH_DELETE_USER`. -/
def detachDelete (user : User) : Store Format Media :=
  { store with
    nodes := store.nodes.filter (·.id ≠ user)
    detached := user :: store.detached }

/-- `MERGE (u:User {id: user})` with its name, and a change of the node. -/
def mergeUser (user : User) (username : String) (change : UserNode → UserNode) :
    Store Format Media :=
  let named (node : UserNode) := change { node with discogsUsername := username }
  { store with
    nodes := Table.upsert (fun node : UserNode => node.id = user) named
      (named { id := user, discogsUsername := username, collected := [], wants := [] })
      store.nodes }

/-- The Valkey step of an erasure; `swept` says whether `invalidate_user` got through. -/
def eraseValkey (user : User) (swept : Bool) : Store Format Media :=
  { store with
    keys := store.keys.filter fun key => ¬(key.1 = user ∧ (key.2.recommends → swept)) }

/-- `_surviving_recommendation_keys`. -/
def survivingKeys (user : User) : Nat :=
  (store.keys.filter fun key => key.1 = user ∧ key.2.recommends).length

/-- A step with its reply and its effect; a statement that is an error of its own has none. -/
def attempt {α : Type} (reply : α) (after : Option (Store Format Media)) :
    Except StepFailure α × Store Format Media :=
  match store.fate, after with
  | .succeeds, some after => (.ok reply, after)
  | .succeeds, none => (.error .raised, store)
  | .fails applied cancelled, after =>
      (.error (if cancelled then .cancelled else .raised), if applied then after.getD store else store)

end Store

/-- `MERGE` of one relationship; a date that is not given stays. -/
def mergeEdge (edges : List Edge) (edge : Edge) : List Edge :=
  Table.upsert
    (fun old : Edge => old.releaseId = edge.releaseId ∧ old.instanceId = edge.instanceId)
    (fun old => { edge with dateAdded := edge.dateAdded.or old.dateAdded }) edge edges

/-! ## What a sync is given -/

/-- One element of `wants`. -/
structure Want (Format : Type) where
  id : Option Nat
  title : Option String
  year : Option Int
  artists : List Artist
  formats : List Format
  rating : Option (Option Int)
  notes : Option String
  dateAdded : Option Instant

/-- What one request of the collection or the wantlist comes back with; `pages` is the page count of the
pagination, when given. -/
inductive Fetched (Element : Type) where
  | rateLimited
  | failed (status : Nat)
  | ok (elements : List Element) (pages : Option Nat)

/-- A call of `run_full_sync`: the row of `sync_history`, the clock as each half reads it, the functions
of the common package, the responses of Discogs, and how a request beyond them fails. -/
structure SyncCall (Format Media : Type) where
  user : User
  syncId : Nat
  startedAt : Instant
  wantlistStartedAt : Instant
  resolveAliases : Nat → Option Nat
  mapDiscogsFormats : List Format → Media
  formatName : Format → String
  valkey : Bool
  responses : List (Fetched (Item Format))
  wantResponses : List (Fetched (Want Format))
  unanswered : StepFailure

namespace SyncCall

variable (call : SyncCall Format Media)

/-- The environment of `sync_collection`. -/
def env : Env Format Media :=
  { userId := call.user, syncStarted := call.startedAt, resolveAliases := call.resolveAliases
    mapDiscogsFormats := call.mapDiscogsFormats }

/-- `neo4j_releases`. -/
def collectedEdges (items : List (Item Format)) : List Edge :=
  items.filterMap fun item =>
    (item.basicInformation.id.filter (· ≠ 0)).map fun releaseId =>
      { releaseId
        instanceId := item.instanceId.filter (· ≠ 0)
        rating := item.rating.getD (some 0)
        folderId := item.folderId
        dateAdded := item.dateAdded
        syncedAt := call.startedAt }

/-- `neo4j_wants`. -/
def wantedEdges (wants : List (Want Format)) : List Edge :=
  wants.filterMap fun want =>
    (want.id.filter (· ≠ 0)).map fun releaseId =>
      { releaseId
        instanceId := none
        rating := want.rating.getD (some 0)
        folderId := none
        dateAdded := want.dateAdded
        syncedAt := call.wantlistStartedAt }

/-- The tuple of one want; a want without an id is skipped. -/
def wantRow (want : Want Format) : Option (WantRow Media) :=
  (want.id.filter (· ≠ 0)).map fun releaseId =>
    { userId := call.user
      releaseId
      title := want.title
      artist := want.artists.head?.map (·.name)
      year := want.year
      format := want.formats.head?.map call.formatName
      rating := want.rating.getD (some 0)
      notes := want.notes
      dateAdded := want.dateAdded
      media := call.mapDiscogsFormats want.formats
      gmItemId := call.resolveAliases releaseId
      updatedAt := call.wantlistStartedAt }

end SyncCall

/-- `_UPSERT_WANTLIST` for one tuple. -/
def upsertWant (rows : List (WantRow Media)) (want : WantRow Media) : List (WantRow Media) :=
  Table.upsert
    (fun row : WantRow Media => row.userId = want.userId ∧ row.releaseId = want.releaseId)
    (fun row =>
      { want with
        dateAdded := want.dateAdded.or row.dateAdded
        gmItemId := want.gmItemId.or row.gmItemId })
    want rows

end CatalogApi.Erasure
