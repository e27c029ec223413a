import CatalogApi.Lib.Programs
import CatalogApi.Lib.SortedSets

/-!
# A budget on a cache's keys

`store_within_budget` and `_evict_lightest_below` of `api/cache_budget.py`, as programs over the
commands they send to Valkey. A cache is what Valkey holds for it: the index of its live keys scored by
expiry, the same keys scored by cost, and the values; no caller's key is the name of one of the two
sets.
-/

namespace CatalogApi.CacheBudget

open Programs

/-- A value: `str` or `bytes`. -/
inductive Payload where
  | text (value : String)
  | bytes (value : List UInt8)

/-- `size`. -/
def Payload.size : Payload → Nat
  | .text value => value.utf8ByteSize
  | .bytes value => value.length

/-- The two sorted sets of a cache: `index_key` and `cost_key`. -/
inductive SetName where
  | index | costs
  deriving DecidableEq

/-- A sorted set with its TTL; a set that has no members is a key that does not exist. -/
structure ScoredKeys where
  scores : SortedSet String
  deadline : Option Int

namespace ScoredKeys

/-- A set that does not exist. -/
def empty : ScoredKeys := ⟨SortedSet.empty, none⟩

/-- A set changed by a command: it goes, with its TTL, when it has no members left. -/
def update (keys : ScoredKeys) (scores : SortedSet String) : ScoredKeys :=
  if scores.card = 0 then empty else { keys with scores }

/-- The set at an instant: it goes when its TTL ends. -/
def tick (clock : Int) (keys : ScoredKeys) : ScoredKeys :=
  match keys.deadline with
  | some deadline => if deadline ≤ clock then empty else keys
  | none => keys

/-- `EXPIRE`: of a set that exists. -/
def expire (deadline : Int) (keys : ScoredKeys) : ScoredKeys :=
  if keys.scores.card = 0 then keys else { keys with deadline := some deadline }

end ScoredKeys

/-- What Valkey holds for a cache, with its clock. -/
structure Cache where
  clock : Int
  sets : SetName → ScoredKeys
  entries : String → Option (Payload × Int)

namespace Cache

def empty (clock : Int) : Cache :=
  { clock, sets := fun _ => .empty, entries := fun _ => none }

variable (cache : Cache)

/-- The index of the live keys. -/
def index : SortedSet String := (cache.sets .index).scores

/-- The costs of the live keys. -/
def costs : SortedSet String := (cache.sets .costs).scores

def setKeys (name : SetName) (keys : ScoredKeys) : Cache :=
  { cache with sets := fun other => if other = name then keys else cache.sets other }

/-- A command that changes the members of a set. -/
def updateSet (name : SetName) (scores : SortedSet String) : Cache :=
  cache.setKeys name ((cache.sets name).update scores)

def setEntry (key : String) (entry : Option (Payload × Int)) : Cache :=
  { cache with entries := fun other => if other = key then entry else cache.entries other }

/-- Time passes: sets and values go when their TTL ends. -/
def tick (elapsed : Nat) : Cache where
  clock := cache.clock + elapsed
  sets := fun name => (cache.sets name).tick (cache.clock + elapsed)
  entries := fun key => (cache.entries key).filter fun entry => cache.clock + elapsed < entry.2

end Cache

/-- The commands of the budget, and the reading of the clock. -/
inductive Command where
  | time
  | zrangebyscore (name : SetName) (bound : Int)
  | zrem (name : SetName) (members : List String)
  | zremrangebyscore (name : SetName) (bound : Int)
  | zscore (name : SetName) (member : String)
  | zcard (name : SetName)
  | zrangeFirst (name : SetName)
  | existsSet (name : SetName)
  | deleteSet (name : SetName)
  | delete (key : String)
  | zadd (name : SetName) (member : String) (score : Int)
  | expire (name : SetName) (ttl : Nat)
  | setex (key : String) (ttl : Nat) (value : Payload)

/-- What a command replies. -/
def Reply : Command → Type
  | .time => Int
  | .zrangebyscore .. => List String
  | .zrem .. => Nat
  | .zremrangebyscore .. => Unit
  | .zscore .. => Option Int
  | .zcard .. => Nat
  | .zrangeFirst .. => Option (String × Int)
  | .existsSet .. => Bool
  | .deleteSet .. => Unit
  | .delete .. => Unit
  | .zadd .. => Unit
  | .expire .. => Unit
  | .setex .. => Unit

/-- Execute one command. -/
def exec : (command : Command) → Cache → Reply command × Cache
  | .time, cache => (cache.clock, cache)
  | .zrangebyscore name bound, cache => ((cache.sets name).scores.upTo bound, cache)
  | .zrem name members, cache =>
      let left := (cache.sets name).scores.remove members
      ((cache.sets name).scores.card - left.card, cache.updateSet name left)
  | .zremrangebyscore name bound, cache =>
      ((), cache.updateSet name ((cache.sets name).scores.removeUpTo bound))
  | .zscore name member, cache => ((cache.sets name).scores.score member, cache)
  | .zcard name, cache => ((cache.sets name).scores.card, cache)
  | .zrangeFirst name, cache => ((cache.sets name).scores.lightest, cache)
  | .existsSet name, cache => (decide ((cache.sets name).scores.card ≠ 0), cache)
  | .deleteSet name, cache => ((), cache.setKeys name .empty)
  | .delete key, cache => ((), cache.setEntry key none)
  | .zadd name member score, cache =>
      ((), cache.updateSet name ((cache.sets name).scores.add member score))
  | .expire name ttl, cache =>
      ((), cache.setKeys name ((cache.sets name).expire (cache.clock + ttl)))
  | .setex key ttl value, cache => ((), cache.setEntry key (some (value, cache.clock + ttl)))

/-- A task that issues commands. -/
abbrev Task (α : Type) := Program Command Reply α

def time : Task Int := .issue .time .done

namespace Valkey

def zrangebyscore (name : SetName) (bound : Int) : Task (List String) :=
  .issue (.zrangebyscore name bound) .done

def zrem (name : SetName) (members : List String) : Task Nat := .issue (.zrem name members) .done

def zremrangebyscore (name : SetName) (bound : Int) : Task Unit :=
  .issue (.zremrangebyscore name bound) .done

def zscore (name : SetName) (member : String) : Task (Option Int) :=
  .issue (.zscore name member) .done

def zcard (name : SetName) : Task Nat := .issue (.zcard name) .done

def zrangeFirst (name : SetName) : Task (Option (String × Int)) := .issue (.zrangeFirst name) .done

def existsSet (name : SetName) : Task Bool := .issue (.existsSet name) .done

def deleteSet (name : SetName) : Task Unit := .issue (.deleteSet name) .done

def delete (key : String) : Task Unit := .issue (.delete key) .done

def zadd (name : SetName) (member : String) (score : Int) : Task Unit :=
  .issue (.zadd name member score) .done

def expire (name : SetName) (ttl : Nat) : Task Unit := .issue (.expire name ttl) .done

def setex (key : String) (ttl : Nat) (value : Payload) : Task Unit :=
  .issue (.setex key ttl value) .done

end Valkey

/-- `MAX_KEY_LENGTH`. -/
def maxKeyLength : Nat := 256

/-- `_EVICTION_ATTEMPTS`. -/
def evictionAttempts : Nat := 5

/-- A call of `store_within_budget`, up to the cache and its `max_keys`. -/
structure StoreCall where
  key : String
  value : Payload
  ttl : Nat
  maxValueBytes : Nat
  cost : Option Int
  minCost : Int
  ttl_pos : 1 ≤ ttl

/-- `weight`. -/
def StoreCall.weight (call : StoreCall) : Int := call.cost.getD 0

/-- `_evict_lightest_below`, with the attempts that are left. -/
def evictLightestBelow (cost : Int) : Nat → Task Bool
  | 0 => pure false
  | attempts + 1 => do
      let lightest ← Valkey.zrangeFirst .costs
      match lightest with
      | none =>
          let held ← Valkey.zcard .index
          if held ≠ 0 then do
            let ranked ← Valkey.existsSet .costs
            if ranked then pure false
            else do
              Valkey.deleteSet .index
              pure true
          else pure false
      | some (victim, victimCost) =>
          if cost ≤ victimCost then pure false
          else do
            let claimed ← Valkey.zrem .costs [victim]
            if claimed ≠ 1 then evictLightestBelow cost attempts
            else do
              let freed ← Valkey.zrem .index [victim]
              if freed = 1 then do
                Valkey.delete victim
                pure true
              else evictLightestBelow cost attempts

/-- The writes of `store_within_budget`. -/
def write (call : StoreCall) (now : Int) : Task Bool := do
  Valkey.zadd .index call.key (now + call.ttl)
  Valkey.zadd .costs call.key call.weight
  Valkey.expire .index call.ttl
  Valkey.expire .costs call.ttl
  Valkey.setex call.key call.ttl call.value
  pure true

/-- The budget of `store_within_budget`, once the expired members are dropped. -/
def admitKey (maxKeys : Nat) (call : StoreCall) (now : Int) : Task Bool := do
  let found ← Valkey.zscore .index call.key
  match found with
  | some _ => write call now
  | none =>
      let held ← Valkey.zcard .index
      if maxKeys ≤ held then do
        let freed ← evictLightestBelow call.weight evictionAttempts
        if freed then write call now else pure false
      else write call now

/-- `store_within_budget`. -/
def storeWithinBudget (maxKeys : Nat) (call : StoreCall) : Task Bool :=
  if maxKeyLength < call.key.length ∨ call.maxValueBytes < call.value.size then pure false
  else if ∃ cost ∈ call.cost, cost < call.minCost then pure false
  else do
    let now ← time
    let expired ← Valkey.zrangebyscore .index now
    if expired ≠ [] then do
      let _ ← Valkey.zrem .costs expired
      Valkey.zremrangebyscore .index now
      admitKey maxKeys call now
    else admitKey maxKeys call now

/-- A call for a key of this cost. -/
def callOf (key : String) (cost : Int) : StoreCall where
  key := key
  value := .text "value"
  ttl := 3600
  maxValueBytes := 10240
  cost := some cost
  minCost := 0
  ttl_pos := by decide

/-- A cache and the calls made on it; besides them only time passes. -/
def budget (maxKeys : Nat) : System Cache Command Reply Bool StoreCall Nat where
  exec := exec
  program := storeWithinBudget maxKeys
  change := fun elapsed cache => cache.tick elapsed

end CatalogApi.CacheBudget
