import CatalogApi.ValkeyRouting.Router
import Mathlib.Algebra.Order.Field.Rat

/-!
# Refreshing the Explore hubs

`refresh_hubs` of `api/explore_discovery.py` over the routing Valkey client. Other replicas, expiry and
eviction change what Valkey holds at any time, so each command of the call finds whatever it holds at
that moment, and each reading of the clock and each build is part of the call too. Times are rational
seconds.
-/

namespace CatalogApi.ExploreHubs

open ValkeyRouting

/-! ## Valkey -/

/-- What an instance holds. -/
abbrev Contents := List (Key × String)

/-- The arguments of `get` and `set`. -/
inductive Arguments where
  | none
  | set (value : String) (nx : Bool) (ex : Option Nat)

namespace Contents

/-- The keys without these. -/
def without (contents : Contents) (keys : List Key) : Contents :=
  contents.filter fun entry => entry.1 ∉ keys

/-- GET, SET and the script that releases a lock. -/
def run (contents : Contents) : Command Arguments → Contents × Reply String
  | .keyed .get name _ =>
      match contents.lookup name.key with
      | some value => (contents, .other value)
      | none => (contents, .none)
  | .keyed .set name (.set value nx _) =>
      if nx ∧ (contents.lookup name.key).isSome then (contents, .none)
      else ((name.key, value) :: contents.without [name.key], .bool true)
  | .eval _ _ [key, token] =>
      if contents.lookup key.key = some token.text then (contents.without [key.key], .int 1)
      else (contents, .int 0)
  | _ => (contents, .none)

end Contents

/-- An instance. -/
def server : Instance Contents Arguments String where
  keys contents := (contents.map (·.1)).toFinset
  run := Contents.run
  delete contents names :=
    (contents.without (names.map (·.key)),
      ((contents.map (·.1)).toFinset ∩ (names.map (·.key)).toFinset).card)
  deleted contents names := by
    refine ⟨?_, rfl⟩
    ext key
    simp [Contents.without]

/-- `_valkey`: none, one instance, or the routing client. -/
inductive Client where
  | absent
  | single
  | routed (strict : Bool)

/-- What the instances hold when a command is sent, and what becomes of it. -/
structure Moment where
  auth : Contents
  cache : Contents
  authFate : Fate
  cacheFate : Fate

/-- The connections at that moment. -/
def Moment.connections (moment : Moment) : Connections Contents Contents Arguments where
  auth := { contents := moment.auth, sent := [] }
  cache := { contents := moment.cache, sent := [] }

/-- A command of the client, if there is one. -/
def Client.ask (keyPrefix : String) (moment : Moment) (command : Command Arguments) :
    Client → Option (Except Raised (Reply String))
  | .absent => none
  | .single => some (toAuth server moment.connections command moment.authFate).1
  | .routed strict =>
      some (call keyPrefix server server moment.connections
        { command, strict, auth := moment.authFate, cache := moment.cacheFate }).1

/-! ## The module's state -/

/-- An entity's type and id. -/
abbrev HubKey := String × String

/-- A row of the hub list. -/
structure Hub where
  type : String
  id : String
  releases : Int

/-- A float read from JSON: its number may be too large for a finite one, and NaN is read as well. -/
inductive Seconds where
  | finite (value : ℚ)
  | infinity
  | negInfinity
  | nan

/-- `now - seconds < age`. -/
def Seconds.within (age now : ℚ) : Seconds → Bool
  | .finite value => now - value < age
  | .infinity => true
  | .negInfinity | .nan => false

/-- `HubResult`. -/
structure HubResult (Row : Type) where
  rows : List Row
  releaseCount : Int
  builtAt : Seconds

/-- `_hubs`, `_failures` and `_lock_tokens`. -/
structure State (Row : Type) where
  hubs : HubKey → Option (HubResult Row)
  failures : HubKey → Option (Nat × ℚ)
  lockTokens : HubKey → Option String

/-- The errors `_decode` does not catch: a number that no int or float can hold, as 1e999 for the
release count, and JSON nested too deeply. -/
inductive Escaped where
  | overflow
  | recursion

/-- What a call of `refresh_hubs` runs with; `decode` is `_decode`. -/
structure Config (Row : Type) where
  keyPrefix : String
  client : Client
  maxAge : ℚ
  decode : String → Except Escaped (Option (HubResult Row))

/-- What happens around one hub: what its commands find, the clock, the lock's token, which no instance
holds yet, and the build, none if it raises. -/
structure Around (Row : Type) where
  read : Moment
  checkedAt : ℚ
  dueAt : ℚ
  token : String
  lock : Moment
  reread : Moment
  recheckedAt : ℚ
  build : Option (List Row × ℚ)
  failedAt : ℚ
  counted : Moment
  fresh : ∀ entry ∈ lock.auth ++ lock.cache, entry.2 ≠ token

variable {Row : Type}

/-- `(hub["type"], str(hub["id"]))`. -/
def Hub.key (hub : Hub) : HubKey :=
  (hub.type, hub.id)

section Config

variable (config : Config Row)

/-- `valkey_key`. -/
def Config.valkeyKey (name : String) : Name :=
  .str (config.keyPrefix ++ name)

/-- `_hub_key`. -/
def Config.hubKey (key : HubKey) : Name :=
  config.valkeyKey ("explore-hub:v1:" ++ key.1 ++ ":" ++ key.2)

/-- `_lock_key`. -/
def Config.lockKey (key : HubKey) : Name :=
  config.valkeyKey ("explore-hub:v1:lock:" ++ key.1 ++ ":" ++ key.2)

/-- The text of a reply, if it is one and not empty. -/
def raw : Reply String → Option String
  | .other value => if value = "" then none else some value
  | _ => none

/-- `bool(reply)` of a `set`. -/
def truthy : Reply String → Bool
  | .bool value => value
  | _ => false

/-- `_hub_result`; an error that `_decode` does not catch is raised here too. -/
def hubResult (state : State Row) (key : HubKey) (moment : Moment) :
    Except Escaped (Option (HubResult Row)) × State Row :=
  match state.hubs key with
  | some held => (.ok (some held), state)
  | none =>
      match config.client.ask config.keyPrefix moment (.keyed .get (config.hubKey key) .none) with
      | some (.ok reply) =>
          match raw reply with
          | none => (.ok none, state)
          | some text =>
              match config.decode text with
              | .ok (some stored) =>
                  (.ok (some stored), { state with hubs := Function.update state.hubs key stored })
              | .ok none => (.ok none, state)
              | .error escaped => (.error escaped, state)
      | _ => (.ok none, state)

/-- `HUB_LOCK_SECONDS`. -/
def hubLockSeconds : Nat := 1500

/-- `_take_lock`. -/
def takeLock (state : State Row) (key : HubKey) (token : String) (moment : Moment) :
    Bool × State Row :=
  match config.client.ask config.keyPrefix moment
    (.keyed .set (config.lockKey key) (.set token true (some hubLockSeconds))) with
  | none => (true, state)
  | some (.error _) => (true, state)
  | some (.ok reply) =>
      if truthy reply then
        (true, { state with lockTokens := Function.update state.lockTokens key token })
      else (false, state)

/-- `_release_lock`; what it does to the lock in Valkey is not this process's. -/
def releaseLock (state : State Row) (key : HubKey) : State Row :=
  { state with lockTokens := Function.update state.lockTokens key none }

/-- A result that needs no rebuild. -/
def HubResult.current (maxAge : ℚ) (hub : Hub) (now : ℚ) (result : HubResult Row) : Bool :=
  result.releaseCount = hub.releases ∧ result.builtAt.within maxAge now

/-- The delay after a number of failures; from 1,025 on `2 ** (failures - 1)` is no float. -/
def retryDelay (failures : Nat) : Option ℚ :=
  if 1024 < failures then none else some (min (3600 * 2 ^ (failures - 1)) 86400)

/-- What becomes of a hub in a call. A hub that is `unread` or `lost` was not built, since its second
read raised; an `escaped` error is of its first read. -/
inductive Outcome where
  | current
  | waiting
  | locked
  | found
  | built
  | failed
  | overflowed
  | unread
  | lost
  | escaped
  | unreached
  deriving DecidableEq

/-- An error leaves the call. -/
def Outcome.ends : Outcome → Bool
  | .overflowed | .lost | .escaped => true
  | _ => false

/-- The hub's held result is dropped before the second read, if its release count changed. -/
def dropChanged (state : State Row) (hub : Hub) (held : Option (HubResult Row)) : State Row :=
  match held with
  | some result =>
      if result.releaseCount ≠ hub.releases then
        { state with hubs := Function.update state.hubs hub.key none }
      else state
  | none => state

/-- An error under the lock: the failure is recorded, unless its delay cannot be computed. -/
def recordFailure (state : State Row) (hub : Hub) (failedAt : ℚ) (recorded ended : Outcome) :
    Outcome × State Row :=
  let failures := ((state.failures hub.key).getD (0, 0)).1 + 1
  match retryDelay failures with
  | some delay =>
      (recorded, releaseLock
        { state with
          failures := Function.update state.failures hub.key (some (failures, failedAt + delay)) }
        hub.key)
  | none => (ended, releaseLock state hub.key)

/-- A build that returned. -/
def recordResult (state : State Row) (hub : Hub) (rows : List Row) (builtAt : ℚ) : State Row :=
  { releaseLock state hub.key with
    failures := Function.update state.failures hub.key none
    hubs := Function.update state.hubs hub.key
      (some { rows, releaseCount := hub.releases, builtAt := .finite builtAt }) }

/-- A hub whose lock was taken. -/
def underLock (state : State Row) (hub : Hub) (around : Around Row) : Outcome × State Row :=
  match hubResult config state hub.key around.reread with
  | (.error _, state) => recordFailure state hub around.failedAt .unread .lost
  | (.ok fresh, state) =>
      if fresh.any (·.current config.maxAge hub around.recheckedAt) then
        (.found, releaseLock state hub.key)
      else
        match around.build with
        | some (rows, builtAt) => (.built, recordResult state hub rows builtAt)
        | none => recordFailure state hub around.failedAt .failed .overflowed

/-- A hub that is missing or stale and due. -/
def rebuild (state : State Row) (hub : Hub) (held : Option (HubResult Row)) (around : Around Row) :
    Outcome × State Row :=
  match takeLock config state hub.key around.token around.lock with
  | (false, state) => (.locked, state)
  | (true, state) => underLock config (dropChanged state hub held) hub around

/-- One hub of the loop of `refresh_hubs`; its first read is not inside the `try`. -/
def refreshHub (state : State Row) (hub : Hub) (around : Around Row) : Outcome × State Row :=
  match hubResult config state hub.key around.read with
  | (.error _, state) => (.escaped, state)
  | (.ok held, state) =>
      if held.any (·.current config.maxAge hub around.checkedAt) then (.current, state)
      else if around.dueAt < ((state.failures hub.key).getD (0, 0)).2 then (.waiting, state)
      else rebuild config state hub held around

/-- A hub of a call: the state it was in when its turn came, and what became of it. -/
structure Record (Row : Type) where
  state : State Row
  hub : Hub
  around : Around Row
  outcome : Outcome

/-- The hubs that a call does not come to. -/
def unreached (state : State Row) (hubs : List (Hub × Around Row)) : List (Record Row) :=
  hubs.map fun (hub, around) => { state, hub, around, outcome := .unreached }

/-- The loop of `refresh_hubs`, and the state after it; an error that is not caught ends it. -/
def refreshEach : State Row → List (Hub × Around Row) → List (Record Row) × State Row
  | state, [] => ([], state)
  | state, (hub, around) :: rest =>
      let (outcome, next) := refreshHub config state hub around
      let record := { state, hub, around, outcome }
      if outcome.ends then (record :: unreached next rest, next)
      else
        let (records, last) := refreshEach next rest
        (record :: records, last)

/-- How many hubs have no result at the end, unless a read raises. -/
def countMissing : State Row → List (Hub × Around Row) → Option Nat × State Row
  | state, [] => (some 0, state)
  | state, (hub, around) :: rest =>
      match hubResult config state hub.key around.counted with
      | (.error _, next) => (none, next)
      | (.ok held, next) =>
          let (missing, last) := countMissing next rest
          (missing.map (· + if held.isNone then 1 else 0), last)

/-- What a call did, and what it returned, if it did. -/
structure Refreshed (Row : Type) where
  records : List (Record Row)
  state : State Row
  returned : Option (Nat × Nat)

/-- `refresh_hubs`; the list of hubs is none if its query failed. -/
def refreshHubs (state : State Row) : Option (List (Hub × Around Row)) → Refreshed Row
  | none => { records := [], state, returned := some (0, 1) }
  | some hubs =>
      let (records, last) := refreshEach config state hubs
      if records.any (·.outcome.ends) then { records, state := last, returned := none }
      else
        let (missing, counted) := countMissing config last hubs
        { records
          state := counted
          returned := missing.map fun missing => (records.countP (·.outcome = .built), missing) }

end Config

end CatalogApi.ExploreHubs
