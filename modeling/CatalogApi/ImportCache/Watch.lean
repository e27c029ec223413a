import CatalogApi.CacheBudget.Store

/-!
# The Explore cache and imports

`check_import_cache` of `api/import_cache.py` and the handler of `/api/explore` in
`api/routers/explore.py`, any number of each at once, while imports are loaded and maintained. Valkey's
SCAN gives every key that exists from its first page to its last; what it gives besides, and in what
pages, is open. A state keeps for each key when the value under it was read from the graph, and how
often the key came into being, which no command reads.
-/

namespace CatalogApi.ImportCache

open CacheBudget Programs

abbrev Version := String
abbrev Key := String

/-! ## Imports -/

/-- A Discogs extraction: its row of `loader_extraction_latch` and its `ExtractionCompletion` node, with
the epoch that its maintenance began by finishing. -/
structure Import where
  version : Version
  loaded : Bool
  graphLoaded : Bool
  maintainedAt : Option Nat
  statsVersion : Option Int

/-- `state`: a version, with its `stats_version` once it has one. -/
abbrev Mark := Version × Option Int

def Import.mark (extraction : Import) : Mark :=
  (extraction.version, extraction.statsVersion)

/-- The marker, and whether the poll that set it invalidated. -/
structure Marker where
  mark : Mark
  invalidated : Bool

/-- `_INVALIDATED_FAMILIES`; none of them has a legacy spelling. -/
inductive Family where
  | explore
  | trends
  | expand
  | enrichmentStatus
  deriving DecidableEq

def invalidatedFamilies : List Family :=
  [.explore, .trends, .expand, .enrichmentStatus]

/-- The keys that `valkey_pattern(family)` matches. -/
def Family.covers (keyPrefix : String) (key : Key) : Family → Bool
  | .explore => (keyPrefix ++ "explore:").toList.isPrefixOf key.toList
  | .trends => (keyPrefix ++ "trends:").toList.isPrefixOf key.toList
  | .expand => (keyPrefix ++ "expand:").toList.isPrefixOf key.toList
  | .enrichmentStatus => key = keyPrefix ++ "enrichment:status"

/-- `_BUDGETED_CACHES`. -/
inductive Budgeted where
  | explore
  | trends
  | strata
  | expand

/-- The keys of the budgets, in the order in which they are deleted. -/
def budgetKeys : List (Budgeted × SetName) :=
  [(.explore, .index), (.explore, .costs), (.trends, .index), (.trends, .costs), (.strata, .index),
    (.strata, .costs), (.expand, .index), (.expand, .costs)]

/-! ## Handlers -/

/-- The types of `EXPLORE_DISPATCH`. -/
inductive EntityType where
  | artist
  | genre
  | label
  | style

def EntityType.name : EntityType → String
  | .artist => "artist"
  | .genre => "genre"
  | .label => "label"
  | .style => "style"

/-- Artists and labels are cached. -/
def EntityType.cached : EntityType → Bool
  | .artist | .label => true
  | .genre | .style => false

/-- What a query of the graph gives: the response as JSON, and the release count if it has one. -/
structure Result where
  response : String
  releaseCount : Option Int

inductive HandlerPhase where
  | began
  | missed
  | storing (readAt : Nat) (task : CacheBudget.Task Bool)
  | returned

/-- A request of `/api/explore`. -/
structure Handler where
  entityType : EntityType
  name : String
  phase : HandlerPhase

/-- `cache_key`. -/
def Handler.cacheKey (keyPrefix : String) (handler : Handler) : Key :=
  keyPrefix ++ "explore:" ++ handler.entityType.name ++ ":" ++ handler.name

/-- The call of `store_within_budget`. -/
def Handler.storeCall (keyPrefix : String) (handler : Handler) (result : Result) : StoreCall where
  key := handler.cacheKey keyPrefix
  value := .text result.response
  ttl := 86400
  maxValueBytes := 10240
  cost := result.releaseCount
  minCost := 500
  ttl_pos := by decide

/-! ## Polls -/

/-- How far a poll is. A scan holds the keys it still owes, each with how often it had come into being,
once its first page is asked for. -/
inductive PollPhase where
  | began
  | latched (version : Version)
  | complete (version : Version)
  | maintained (mark : Mark)
  | dropping (mark : Mark) (left : List (Budgeted × SetName))
  | scanning (mark : Mark) (family : Family) (left : List Family) (owed : Option (List (Key × Nat)))
  | deleting (mark : Mark) (family : Family) (left : List Family) (owed : List (Key × Nat))
      (page : List Key) (last : Bool)
  | marking (mark : Mark) (invalidated : Bool)
  | returned (invalidated : Bool)
  | raised

/-- The scan of the next family, or the end of the invalidation. -/
def PollPhase.next (mark : Mark) : List Family → PollPhase
  | [] => .marking mark true
  | family :: left => .scanning mark family left none

/-- The graph's imports, newest first, what Valkey holds, and the requests and polls so far. -/
structure State where
  epoch : Nat
  imports : List Import
  marker : Option Marker
  cache : Cache
  names : List Key
  births : Key → Nat
  readAt : Key → Nat
  handlers : List Handler
  polls : List PollPhase

namespace State

variable (state : State)

/-- The key holds a value. -/
def present (key : Key) : Bool :=
  (state.cache.entries key).isSome

/-- `latest_discogs_version`. -/
def latestVersion : Option Version :=
  (state.imports.find? (·.loaded)).map (·.version)

/-- The node of a version. -/
def graphLatch (version : Version) : Option Import :=
  state.imports.find? (·.version = version)

def setHandler (index : Nat) (handler : Handler) (phase : HandlerPhase) : State :=
  { state with handlers := state.handlers.set index { handler with phase } }

def setPoll (index : Nat) (phase : PollPhase) : State :=
  { state with polls := state.polls.set index phase }

/-- Change the import of a version. -/
def updateImport (version : Version) (change : Import → Import) : State :=
  { state with
    imports := state.imports.map fun extraction =>
      if extraction.version = version then change extraction else extraction }

/-- The keys of a family that exist, each with how often it has come into being. -/
def family (keyPrefix : String) (family : Family) : List (Key × Nat) :=
  (state.names.filter fun key => state.present key ∧ family.covers keyPrefix key).map fun key =>
    (key, state.births key)

/-- What a command of a handler does: a value is stored with the epoch it was read in. -/
def perform (readAt : Nat) (command : Command) : State :=
  let after := (exec command state.cache).2
  match command with
  | .setex key _ _ =>
      { state with
        cache := after
        names := key :: state.names
        births :=
          if state.present key then state.births
          else Function.update state.births key (state.births key + 1)
        readAt := Function.update state.readAt key readAt }
  | _ => { state with cache := after }

/-- `DEL` of one of the budgets' keys; only those of the Explore cache are in this state. -/
def dropBudget : Budgeted × SetName → State
  | (.explore, name) => { state with cache := (exec (.deleteSet name) state.cache).2 }
  | _ => state

/-- `DEL` of the keys of a page. -/
def deletePage (page : List Key) : State :=
  { state with cache := page.foldl (fun cache key => cache.setEntry key none) state.cache }

end State

/-! ## Steps -/

/-- What happens next: to the imports, to the clock, in a request, or in a poll. -/
inductive Move where
  | announce (version : Version)
  | load (version : Version)
  | loadGraph (version : Version)
  | maintain (version : Version)
  | sweep (version : Version) (statsVersion : Int)
  | tick (elapsed : Nat)
  | request (entityType : EntityType) (name : String)
  | cacheGet (handler : Nat) (raises : Bool)
  | query (handler : Nat) (result : Option Result)
  | store (handler : Nat)
  | giveUp (handler : Nat)
  | poll
  | advance (poll : Nat)
  | page (poll : Nat) (keys : List Key) (last : Bool)
  | raise (poll : Nat)

/-- The configuration: the key prefix and `DEFAULT_MAX_KEYS`. -/
structure Config where
  keyPrefix : String
  maxKeys : Nat

/-- One import more is known, or one goes on. -/
def importStep (state : State) : Move → Option State
  | .announce version =>
      if state.imports.any (·.version = version) then none
      else
        let fresh :=
          { version, loaded := false, graphLoaded := false, maintainedAt := none, statsVersion := none }
        some { state with imports := fresh :: state.imports }
  | .load version => some (state.updateImport version fun row => { row with loaded := true })
  | .loadGraph version => some (state.updateImport version fun row => { row with graphLoaded := true })
  | .maintain version =>
      match state.graphLatch version with
      | some { maintainedAt := none, .. } =>
          some { state.updateImport version fun row =>
            { row with maintainedAt := some (state.epoch + 1) } with epoch := state.epoch + 1 }
      | _ => none
  | .sweep version statsVersion =>
      some (state.updateImport version fun row => { row with statsVersion := some statsVersion })
  | _ => none

/-- One await of a request. -/
def handlerStep (config : Config) (state : State) (index : Nat) (handler : Handler) (move : Move) :
    Option State :=
  match move, handler.phase with
  | .cacheGet _ raises, .began =>
      if handler.entityType.cached ∧ ¬raises ∧ state.present (handler.cacheKey config.keyPrefix) then
        some (state.setHandler index handler .returned)
      else some (state.setHandler index handler .missed)
  | .query _ none, .missed => some (state.setHandler index handler .returned)
  | .query _ (some result), .missed =>
      if handler.entityType.cached then
        some (state.setHandler index handler
          (.storing state.epoch
            (storeWithinBudget config.maxKeys (handler.storeCall config.keyPrefix result))))
      else some (state.setHandler index handler .returned)
  | .store _, .storing readAt (.issue command next) =>
      some ((state.perform readAt command).setHandler index handler
        (.storing readAt (next (exec command state.cache).1)))
  | .giveUp _, .storing _ _ => some (state.setHandler index handler .returned)
  | _, _ => none

/-- One await of a poll that is not a page of a scan. -/
def pollStep (state : State) (index : Nat) : PollPhase → Option State
  | .began =>
      match state.latestVersion with
      | none => some (state.setPoll index (.returned false))
      | some version => some (state.setPoll index (.latched version))
  | .latched version =>
      if (state.graphLatch version).any (·.graphLoaded) then
        some (state.setPoll index (.complete version))
      else some (state.setPoll index (.returned false))
  | .complete version =>
      match state.graphLatch version with
      | some extraction =>
          if extraction.maintainedAt.isSome then some (state.setPoll index (.maintained extraction.mark))
          else some (state.setPoll index (.returned false))
      | none => some (state.setPoll index (.returned false))
  | .maintained mark =>
      match state.marker with
      | none => some (state.setPoll index (.marking mark false))
      | some marker =>
          if marker.mark = mark then some (state.setPoll index (.returned false))
          else some (state.setPoll index (.dropping mark budgetKeys))
  | .dropping mark (budget :: left) =>
      some ((state.dropBudget budget).setPoll index (.dropping mark left))
  | .dropping mark [] => some (state.setPoll index (PollPhase.next mark invalidatedFamilies))
  | .deleting mark family left owed page last =>
      some ((state.deletePage page).setPoll index
        (if last then PollPhase.next mark left else .scanning mark family left (some owed)))
  | .marking mark invalidated =>
      some
        { state.setPoll index (.returned invalidated) with
          marker := some { mark, invalidated } }
  | _ => none

/-- A page of a scan: keys of the family, and at the end none that existed all along is left out. -/
def pageStep (config : Config) (state : State) (index : Nat) (keys : List Key) (last : Bool) :
    PollPhase → Option State
  | .scanning mark family left owed =>
      let owed := (owed.getD (state.family config.keyPrefix family)).filter (·.1 ∉ keys)
      if keys.all (fun key => state.present key ∧ family.covers config.keyPrefix key) ∧
          (last → owed.all fun key => ¬(state.present key.1 ∧ state.births key.1 = key.2)) then
        some (state.setPoll index (.deleting mark family left owed keys last))
      else none
  | _ => none

/-- One move. -/
def move (config : Config) (state : State) (move : Move) : Option State :=
  match move with
  | .announce _ | .load _ | .loadGraph _ | .maintain _ | .sweep _ _ => importStep state move
  | .tick elapsed => some { state with cache := state.cache.tick elapsed }
  | .request entityType name =>
      some { state with handlers := state.handlers ++ [{ entityType, name, phase := .began }] }
  | .cacheGet index _ | .query index _ | .store index | .giveUp index =>
      match state.handlers[index]? with
      | some handler => handlerStep config state index handler move
      | none => none
  | .poll => some { state with polls := state.polls ++ [.began] }
  | .advance index => state.polls[index]?.bind (pollStep state index)
  | .page index keys last => state.polls[index]?.bind (pageStep config state index keys last)
  | .raise index =>
      if (state.polls[index]?).isSome then some (state.setPoll index .raised) else none

/-- One move as a step of a run. -/
def step (config : Config) (state : State) (next : Move) : Except Unit State :=
  (move config state next).elim (.error ()) .ok

/-- Nothing imported, nothing cached. -/
def State.empty : State where
  epoch := 0
  imports := []
  marker := none
  cache := .empty 0
  names := []
  births := fun _ => 0
  readAt := fun _ => 0
  handlers := []
  polls := []

end CatalogApi.ImportCache
