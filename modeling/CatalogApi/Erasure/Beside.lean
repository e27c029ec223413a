import CatalogApi.Erasure.Store

/-!
# The programs of a sync and an erasure

`_run_full_sync` of `api/syncer.py` and `request_erasure` of `api/routers/activity.py`, command by command
over the stores. The two halves of a sync are one loop: a page writes its rows in one transaction, then
its relationships in one Cypher statement. The erasure is the PostgreSQL transaction, the Neo4j statement
and the Valkey step, of which only the first fails the request.
-/

namespace CatalogApi.Erasure

open Programs Syncer

variable {Format Media : Type}

/-- A transaction, a Cypher statement or a Valkey step. -/
inductive Command (Format Media : Type) where
  | selectToken (user : User)
  | persistCollection (env : Env Format Media) (releases : List (Item Format))
  | mergeCollected (user : User) (username : String) (edges : List Edge)
  | deleteStaleCollection (env : Env Format Media)
  | deleteStaleCollected (user : User) (cutoff : Instant)
  | insertSnapshot (env : Env Format Media)
  | persistWantlist (call : SyncCall Format Media) (wants : List (Want Format))
  | mergeWanted (user : User) (username : String) (edges : List Edge)
  | deleteStaleWantlist (user : User) (cutoff : Instant)
  | deleteStaleWanted (user : User) (cutoff : Instant)
  | invalidateUser (user : User)
  | updateHistory (syncId : Nat) (status : SyncStatus) (items : Nat)
  | verifyCredentials (user : User)
  | subjectFor (user : User)
  | recordEvent (user : User)
  | erasePostgres (user : User)
  | eraseNeo4j (user : User)
  | eraseValkey (user : User) (swept : Bool)
  | revokeToken (user : User)

namespace Command

/-- What a command that succeeds replies: the token row with whether the app credentials are there, or
the recommendation keys that survived. -/
abbrev Value : Command Format Media → Type
  | .selectToken _ => Option OauthToken × Bool
  | .eraseValkey .. => Nat
  | _ => Unit

abbrev Reply (command : Command Format Media) : Type := Except StepFailure command.Value

/-- The stores after the command, unless the statement is an error of its own: an owned copy would be
written twice, or a relationship be merged on a null instance id. -/
def effect (store : Store Format Media) : Command Format Media → Option (Store Format Media)
  | .persistCollection env releases =>
      match persistCollectionPage env store.db (batchParams env releases) with
      | .ok (db, _) => some { store with db }
      | .error _ => none
  | .mergeCollected user username edges =>
      let matched := edges.filter (·.releaseId ∈ store.releases)
      if matched.any (·.instanceId = none) then none
      else some (store.mergeUser user username fun node =>
        { node with collected := matched.foldl mergeEdge node.collected })
  | .deleteStaleCollection env =>
      some { store with db := (reconcileStaleCollection env store.db).1 }
  | .deleteStaleCollected user cutoff =>
      some { store with
        nodes := store.nodes.map fun node =>
          if node.id = user then
            { node with collected := node.collected.filter (¬·.syncedAt < cutoff) }
          else node }
  | .insertSnapshot env => some { store with db := writeCollectionSnapshot env store.db }
  | .persistWantlist call wants =>
      some { store with
        wantlists := (wants.filterMap call.wantRow).foldl upsertWant store.wantlists }
  | .mergeWanted user username edges =>
      let matched := edges.filter (·.releaseId ∈ store.releases)
      some (store.mergeUser user username fun node =>
        { node with wants := matched.foldl mergeEdge node.wants })
  | .deleteStaleWantlist user cutoff =>
      some { store with
        wantlists := store.wantlists.filter fun row => ¬(row.userId = user ∧ row.updatedAt < cutoff) }
  | .deleteStaleWanted user cutoff =>
      some { store with
        nodes := store.nodes.map fun node =>
          if node.id = user then
            { node with wants := node.wants.filter (¬·.syncedAt < cutoff) }
          else node }
  | .invalidateUser user =>
      some { store with keys := store.keys.filter fun key => ¬(key.1 = user ∧ key.2.recommends) }
  | .updateHistory syncId status items =>
      some { store with
        history := store.history.map fun row =>
          if row.id = syncId then { row with status, itemsSynced := items } else row }
  | .erasePostgres user => some (store.erasePostgres user)
  | .eraseNeo4j user => some (store.detachDelete user)
  | .eraseValkey user swept => some (store.eraseValkey user swept)
  | .selectToken _ | .verifyCredentials _ | .subjectFor _ | .recordEvent _ | .revokeToken _ =>
      some store

/-- What the command replies if it succeeds. -/
def value (store : Store Format Media) : (command : Command Format Media) → command.Value
  | .selectToken user => (store.oauthTokens.find? (·.userId = user), store.appConfigured)
  | .eraseValkey user swept => (store.eraseValkey user swept).survivingKeys user
  | .persistCollection .. | .mergeCollected .. | .deleteStaleCollection _
  | .deleteStaleCollected .. | .insertSnapshot _ | .persistWantlist .. | .mergeWanted ..
  | .deleteStaleWantlist .. | .deleteStaleWanted .. | .invalidateUser _ | .updateHistory ..
  | .verifyCredentials _ | .subjectFor _ | .recordEvent _ | .erasePostgres _ | .eraseNeo4j _
  | .revokeToken _ => ()

end Command

/-- Execute one command. -/
def exec (command : Command Format Media) (store : Store Format Media) :
    command.Reply × Store Format Media :=
  store.attempt (command.value store) (command.effect store)

/-! ## The programs -/

/-- What an erasure reports as `incomplete`. -/
inductive Incomplete where
  | neo4jNotConfigured
  | neo4jFailed
  | valkeyNotConfigured
  | valkeyFailed
  | keysSurvived (count : Nat)

/-- How a call ends. -/
inductive Outcome where
  | synced (status : SyncStatus) (collection wantlist : Nat)
  | erased (incomplete : List Incomplete)
  | refused
  | failed (failure : StepFailure)

abbrev Job (Format Media : Type) : Type :=
  Program (Command Format Media) Command.Reply Outcome

namespace Job

/-- A command whose failure is the caller's. -/
def attempt (command : Command Format Media) (failed : StepFailure → Job Format Media)
    (next : command.Value → Job Format Media) : Job Format Media :=
  .issue command fun
    | .ok value => next value
    | .error failure => failed failure

/-- A command under `except Exception`: only its cancellation ends the call. -/
def suppress (command : Command Format Media)
    (next : Except Unit command.Value → Job Format Media) : Job Format Media :=
  .issue command fun
    | .ok value => next (.ok value)
    | .error .raised => next (.error ())
    | .error .cancelled => .done (.failed .cancelled)

/-- Commands in order, up to the first that fails. -/
def inOrder : List (Command Format Media) → (StepFailure → Job Format Media) → Job Format Media →
    Job Format Media
  | [], _, next => next
  | command :: commands, failed, next =>
      attempt command failed fun _ => inOrder commands failed next

end Job

open Job

/-! ### A sync -/

/-- The status of a sync that failed. -/
def StepFailure.status : StepFailure → SyncStatus
  | .raised => .failed
  | .cancelled => .cancelled

/-- The request loop of `sync_collection` and of `sync_wantlist`; `write` gives the commands of one page
and the number of tuples in its batch. -/
def requestPages {Element : Type} (write : List Element → List (Command Format Media) × Nat)
    (unanswered : StepFailure) (failed : StepFailure → Job Format Media)
    (next : Nat → Job Format Media) :
    (page retries synced : Nat) → List (Fetched Element) → Job Format Media
  | _, _, _, [] => failed unanswered
  | page, retries, synced, .rateLimited :: responses =>
      if retries + 1 > maxRateLimitRetries then failed .raised
      else requestPages write unanswered failed next page (retries + 1) synced responses
  | _, _, _, .failed _ :: _ => failed .raised
  | page, _, synced, .ok elements pages :: responses =>
      if elements.isEmpty then next synced
      else
        inOrder (write elements).1 failed
          (if page ≥ pages.getD 1 then next (synced + (write elements).2)
          else requestPages write unanswered failed next (page + 1) 0 (synced + (write elements).2)
            responses)

namespace SyncCall

variable (call : SyncCall Format Media)

/-- The page transaction and the Cypher statement of one page of the collection. -/
def writeCollected (username : String) (releases : List (Item Format)) :
    List (Command Format Media) × Nat :=
  let batch := batchParams call.env releases
  let edges := call.collectedEdges releases
  ((if batch.isEmpty then [] else [.persistCollection call.env releases]) ++
    (if edges.isEmpty then [] else [.mergeCollected call.user username edges]), batch.length)

/-- The page transaction and the Cypher statement of one page of the wantlist. -/
def writeWanted (username : String) (wants : List (Want Format)) :
    List (Command Format Media) × Nat :=
  let rows := wants.filterMap call.wantRow
  let edges := call.wantedEdges wants
  ((if rows.isEmpty then [] else [.persistWantlist call wants]) ++
    (if edges.isEmpty then [] else [.mergeWanted call.user username edges]), rows.length)

/-- The `finally` of `_run_full_sync`. -/
def finish (status : SyncStatus) (collection wantlist : Nat) : Job Format Media :=
  let record : Job Format Media :=
    suppress (.updateHistory call.syncId status (collection + wantlist)) fun _ =>
      .done (.synced status collection wantlist)
  if call.valkey then suppress (.invalidateUser call.user) fun _ => record else record

/-- `sync_collection`. -/
def syncCollection (username : String) (next : Nat → Job Format Media) : Job Format Media :=
  let failed (failure : StepFailure) := call.finish failure.status 0 0
  requestPages (call.writeCollected username) call.unanswered failed
    (fun collection =>
      inOrder
        [.deleteStaleCollection call.env, .deleteStaleCollected call.user call.startedAt,
          .insertSnapshot call.env]
        failed (next collection))
    1 0 0 call.responses

/-- `sync_wantlist`. -/
def syncWantlist (username : String) (collection : Nat) : Job Format Media :=
  let failed (failure : StepFailure) := call.finish failure.status collection 0
  requestPages (call.writeWanted username) call.unanswered failed
    (fun wantlist =>
      inOrder
        [.deleteStaleWantlist call.user call.wantlistStartedAt,
          .deleteStaleWanted call.user call.wantlistStartedAt]
        failed (call.finish .completed collection wantlist))
    1 0 0 call.wantResponses

/-- `_run_full_sync`. -/
def runFullSync : Job Format Media :=
  attempt (.selectToken call.user) (fun failure => call.finish failure.status 0 0) fun
    | (none, _) | (some _, false) => call.finish .failed 0 0
    | (some token, true) =>
        call.syncCollection token.providerUsername (call.syncWantlist token.providerUsername)

end SyncCall

/-! ### An erasure -/

/-- A call of `request_erasure`: whether its credentials are accepted and its subject resolved, which
stores are configured, and whether `invalidate_user` gets through. -/
structure ErasureRequest where
  user : User
  accepted : Bool
  resolved : Bool
  neo4j : Bool
  valkey : Bool
  swept : Bool

namespace ErasureRequest

variable (request : ErasureRequest)

/-- `_erase_neo4j`. -/
def eraseNeo4j (next : List Incomplete → Job Format Media) : Job Format Media :=
  if request.neo4j then
    suppress (.eraseNeo4j request.user) fun
      | .ok _ => next []
      | .error _ => next [.neo4jFailed]
  else next [.neo4jNotConfigured]

/-- `_erase_valkey`. -/
def eraseValkey (next : List Incomplete → Job Format Media) : Job Format Media :=
  if request.valkey then
    suppress (.eraseValkey request.user request.swept) fun
      | .ok 0 => next []
      | .ok surviving => next [.keysSurvived surviving]
      | .error _ => next [.valkeyFailed]
  else next [.valkeyNotConfigured]

/-- `_revoke_caller_token`. -/
def revokeToken (next : Job Format Media) : Job Format Media :=
  if request.valkey then suppress (.revokeToken request.user) fun _ => next else next

/-- `request_erasure`. -/
def requestErasure : Job Format Media :=
  attempt (.verifyCredentials request.user) (fun failure => .done (.failed failure)) fun _ =>
    if request.accepted then
      suppress (.subjectFor request.user) fun
        | .ok _ =>
            if request.resolved then
              suppress (.recordEvent request.user) fun _ =>
                attempt (.erasePostgres request.user) (fun failure => .done (.failed failure)) fun _ =>
                  request.eraseNeo4j fun neo4j => request.eraseValkey fun valkey =>
                    request.revokeToken (.done (.erased (neo4j ++ valkey)))
            else .done .refused
        | .error _ => .done .refused
    else .done .refused

end ErasureRequest

/-! ## The system -/

/-- A sync or an erasure. -/
inductive Call (Format Media : Type) where
  | sync (call : SyncCall Format Media)
  | erasure (request : ErasureRequest)

/-- Any number of syncs and erasures over the stores; what changes beside them is the fate of the next
step. -/
def stores : System (Store Format Media) (Command Format Media) Command.Reply Outcome
    (Call Format Media) Fate where
  exec := exec
  program
    | .sync call => call.runFullSync
    | .erasure request => request.requestErasure
  change fate store := { store with fate }

end CatalogApi.Erasure
