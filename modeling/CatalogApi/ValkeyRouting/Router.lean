import CatalogApi.Lib.Text
import CatalogApi.Lib.Utf8
import Mathlib.Data.Finset.Card

/-!
# The routing Valkey client

`RoutedValkey` of `api/valkey_routing.py` between the noeviction instance (auth) and the evicting one
(cache). What an instance does with a command it answers is a parameter; whether it answers, and if not
how it fails and whether the command was carried out all the same, is part of each call.
-/

namespace CatalogApi.ValkeyRouting

/-- A key or a glob as callers pass it. -/
inductive Name where
  | str (text : String)
  | bytes (raw : List UInt8)

/-- A key as an instance stores it. -/
abbrev Key := List UInt8

namespace Name

/-- `is_cache_name`'s text of a name. -/
def text : Name → String
  | .str text => text
  | .bytes raw => .ofList (Utf8.decode raw)

/-- The key that a name stands for. -/
def key : Name → Key
  | .str text => Utf8.encode text.toList
  | .bytes raw => raw

end Name

/-- `CACHE_FAMILIES`. -/
def cacheFamilies : List String :=
  ["explore:", "explore-hub:", "trends:", "expand:", "search:", "credits:", "label-dna:",
    "label-similar:", "network:", "nlq:", "enrichment:", "recommend:", "insights:", "budget:"]

/-- `is_cache_name` under the prefix of `valkey_key_prefix`. -/
def isCacheName (keyPrefix : String) (name : Name) : Bool :=
  match Text.afterPrefix keyPrefix name.text with
  | some stem => cacheFamilies.any fun family => family.toList.isPrefixOf stem.toList
  | none => false

/-- The commands that `_one` sends by the key they name first. -/
inductive Keyed where
  | get | getdel | set | setex | exists | expire | pttl | ttl | incr | decr
  | zadd | zrem | zscore | zcard | zrange | zrangebyscore | zremrangebyscore

/-- A command of the client; `other` is one that `__getattr__` passes on. -/
inductive Command (Args : Type) where
  | keyed (command : Keyed) (name : Name) (args : Args)
  | delete (names : List Name)
  | scan (cursor : Nat) (glob : Option Name) (count : Option Nat) (args : Args)
  | eval (script : String) (numkeys : Int) (keysAndArgs : List Name)
  | other (command : String) (args : Args)

/-- What a command gives. -/
inductive Reply (ρ : Type) where
  | none
  | bool (value : Bool)
  | int (value : Int)
  | list (items : List ρ)
  | page (cursor : Nat) (keys : List ρ)
  | other (value : ρ)

/-- The errors of the Valkey client. -/
inductive Failure where
  | outOfMemory
  | readOnly
  | connection
  | timeout
  | other (kind : String)
  deriving DecidableEq

/-- `VALKEY_UNAVAILABLE_ERRORS`. -/
def Failure.unavailable : Failure → Bool
  | .outOfMemory | .readOnly | .connection | .timeout => true
  | .other _ => false

/-- What a call raises. -/
inductive Raised where
  | valkey (failure : Failure)
  | indexError

/-- An instance: the keys it holds, and what it does with a command that it carries out. DEL removes
the keys it names and counts those it removed. -/
structure Instance (σ Args ρ : Type) where
  keys : σ → Finset Key
  run : σ → Command Args → σ × Reply ρ
  delete : σ → List Name → σ × Nat
  deleted : ∀ contents names,
    keys (delete contents names).1 = keys contents \ (names.map (·.key)).toFinset ∧
      (delete contents names).2 = (keys contents ∩ (names.map (·.key)).toFinset).card

/-- Whether a command that is sent is answered. -/
inductive Fate where
  | answers
  | fails (failure : Failure) (applied : Bool)
  deriving DecidableEq

/-- One connection: what its instance holds, and the commands that reached it. -/
structure Link (σ Args : Type) where
  contents : σ
  sent : List (Command Args)

/-- A command on its way: the contents and the reply if it is carried out. -/
def Link.send {σ Args β : Type} (link : Link σ Args) (command : Command Args) (outcome : σ × β) :
    Fate → Except Failure β × Link σ Args
  | .answers => (.ok outcome.2, { contents := outcome.1, sent := link.sent ++ [command] })
  | .fails failure applied =>
      (.error failure,
        { contents := if applied then outcome.1 else link.contents, sent := link.sent ++ [command] })

/-- The two connections of a `RoutedValkey`. -/
structure Connections (α κ Args : Type) where
  auth : Link α Args
  cache : Link κ Args

/-- A call of a `RoutedValkey`, strict or not, and what becomes of the commands it sends. -/
structure Call (Args : Type) where
  command : Command Args
  strict : Bool
  auth : Fate
  cache : Fate

/-- `_miss`. -/
def miss {β : Type} (strict : Bool) (failure : Failure) (value : β) : Except Raised β :=
  if strict then .error (.valkey failure) else .ok value

/-- `except VALKEY_UNAVAILABLE_ERRORS` around a command sent to the cache instance. -/
def orMiss {β : Type} (strict : Bool) (value : β) : Except Failure β → Except Raised β
  | .ok reply => .ok reply
  | .error failure => if failure.unavailable then miss strict failure value else .error (.valkey failure)

/-- What a keyed command misses with. -/
def Keyed.missed {ρ : Type} : Keyed → Reply ρ
  | .get | .getdel | .set | .setex | .zscore => .none
  | .exists | .incr | .decr | .zadd | .zrem | .zcard | .zremrangebyscore => .int 0
  | .expire => .bool false
  | .pttl | .ttl => .int (-2)
  | .zrange | .zrangebyscore => .list []

section Routed

variable {α κ Args ρ : Type} (keyPrefix : String) (auth : Instance α Args ρ)
  (cache : Instance κ Args ρ)

/-- A command that the auth instance gets, errors included. -/
def toAuth (connections : Connections α κ Args) (command : Command Args) (fate : Fate) :
    Except Raised (Reply ρ) × Connections α κ Args :=
  let (reply, link) :=
    connections.auth.send command (auth.run connections.auth.contents command) fate
  (reply.mapError .valkey, { connections with auth := link })

/-- A command that the cache instance gets. -/
def toCache (connections : Connections α κ Args) (command : Command Args) (strict : Bool)
    (value : Reply ρ) (fate : Fate) : Except Raised (Reply ρ) × Connections α κ Args :=
  let (reply, link) :=
    connections.cache.send command (cache.run connections.cache.contents command) fate
  (orMiss strict value reply, { connections with cache := link })

/-- The first half of `RoutedValkey.delete`: the auth names. -/
def deleteAuth (connections : Connections α κ Args) (authNames : List Name) (fate : Fate) :
    Except Raised Nat × Connections α κ Args :=
  if authNames ≠ [] then
    let (reply, link) := connections.auth.send (.delete authNames)
      (auth.delete connections.auth.contents authNames) fate
    (reply.mapError .valkey, { connections with auth := link })
  else (.ok 0, connections)

/-- Its second half: the cache names. -/
def deleteCache (connections : Connections α κ Args) (cacheNames : List Name) (strict : Bool)
    (fate : Fate) : Except Raised Nat × Connections α κ Args :=
  if cacheNames ≠ [] then
    let (reply, link) := connections.cache.send (.delete cacheNames)
      (cache.delete connections.cache.contents cacheNames) fate
    (orMiss strict 0 reply, { connections with cache := link })
  else (.ok 0, connections)

/-- `RoutedValkey.delete`. -/
def delete (connections : Connections α κ Args) (names : List Name) (strict : Bool)
    (authFate cacheFate : Fate) : Except Raised (Reply ρ) × Connections α κ Args :=
  let cacheNames := names.filter fun name => isCacheName keyPrefix name
  let authNames := names.filter fun name => !isCacheName keyPrefix name
  match deleteAuth auth connections authNames authFate with
  | (.error raised, connections) => (.error raised, connections)
  | (.ok deleted, connections) =>
      let (more, connections) := deleteCache cache connections cacheNames strict cacheFate
      (more.map fun more => .int (deleted + more : Nat), connections)

/-- One call of a `RoutedValkey`. -/
def call (connections : Connections α κ Args) (call : Call Args) :
    Except Raised (Reply ρ) × Connections α κ Args :=
  match call.command with
  | .keyed command name _ =>
      if !isCacheName keyPrefix name then toAuth auth connections call.command call.auth
      else toCache cache connections call.command call.strict command.missed call.cache
  | .delete names => delete keyPrefix auth cache connections names call.strict call.auth call.cache
  | .scan _ glob _ _ =>
      match glob with
      | none => toAuth auth connections call.command call.auth
      | some glob =>
          if !isCacheName keyPrefix glob then toAuth auth connections call.command call.auth
          else toCache cache connections call.command call.strict (.page 0 []) call.cache
  | .eval _ numkeys keysAndArgs =>
      if numkeys = 0 then toAuth auth connections call.command call.auth
      else
        match keysAndArgs with
        | [] => (.error .indexError, connections)
        | first :: _ =>
            if !isCacheName keyPrefix first then toAuth auth connections call.command call.auth
            else toCache cache connections call.command call.strict (.int 0) call.cache
  | .other _ _ => toAuth auth connections call.command call.auth

/-- The connections after a sequence of calls. -/
def calls (connections : Connections α κ Args) (sequence : List (Call Args)) :
    Connections α κ Args :=
  sequence.foldl (fun connections next => (call keyPrefix auth cache connections next).2) connections

end Routed

end CatalogApi.ValkeyRouting
