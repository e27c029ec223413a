import CatalogApi.Lib.Programs

/-!
# Saving a snapshot

`SnapshotStore.save` of `api/snapshot_store.py`, as a program over the commands it sends to Valkey:
the snapshot is written first, then the user's counter is raised and armed, and a save that lost the
race for the last slot undoes both. A full Valkey rejects `SET`, `INCR` and `DECR`, and nothing else.
-/

namespace CatalogApi.Snapshots

open Programs

abbrev Bytes := List UInt8

/-- A counter with its TTL. -/
structure Counter where
  value : Int
  deadline : Option Int

/-- A stored snapshot. -/
structure Snapshot where
  token : String
  payload : Bytes
  deadline : Int

/-- What Valkey holds of snapshots and of users' counters, with its clock. -/
structure Keyspace where
  clock : Int
  full : Bool
  counts : String → Option Counter
  stored : List Snapshot

namespace Keyspace

def empty (clock : Int) : Keyspace :=
  { clock, full := false, counts := fun _ => none, stored := [] }

variable (keys : Keyspace)

def setCount (user : String) (counter : Option Counter) : Keyspace :=
  { keys with counts := fun other => if other = user then counter else keys.counts other }

/-- The user's counter, where a missing one counts from 0. -/
def count (user : String) : Int := ((keys.counts user).map (·.value)).getD 0

/-- `INCRBY`, which keeps the TTL. -/
def addCount (user : String) (amount : Int) : Keyspace :=
  keys.setCount user (some ⟨keys.count user + amount, (keys.counts user).bind (·.deadline)⟩)

/-- `DEL` of a snapshot. -/
def remove (token : String) : Keyspace :=
  { keys with stored := keys.stored.filter fun snapshot => snapshot.token ≠ token }

/-- `SET` of a snapshot. -/
def put (snapshot : Snapshot) : Keyspace :=
  { keys with stored := (keys.remove snapshot.token).stored ++ [snapshot] }

/-- `EXPIRE NX` of a counter. -/
def armCount (user : String) (deadline : Int) : Keyspace :=
  match keys.counts user with
  | some ⟨value, none⟩ => keys.setCount user (some ⟨value, some deadline⟩)
  | _ => keys

/-- The counter is there at an instant. -/
def lives (clock : Int) (counter : Counter) : Bool :=
  counter.deadline.all fun deadline => clock < deadline

/-- Time passes: keys go when their TTL ends. -/
def tick (elapsed : Nat) : Keyspace :=
  { keys with
    clock := keys.clock + elapsed
    counts := fun user => (keys.counts user).filter (lives (keys.clock + elapsed))
    stored := keys.stored.filter fun snapshot => keys.clock + elapsed < snapshot.deadline }

end Keyspace

/-- The commands of a save, and the reading of the clock. -/
inductive Command where
  | time
  | set (token : String) (payload : Bytes) (ttl : Nat)
  | get (user : String)
  | incr (user : String)
  | expireNx (user : String) (ttl : Nat)
  | delete (token : String)
  | decr (user : String)

/-- What a command replies; a write that a full Valkey rejects replies `none` or `false`. -/
def Reply : Command → Type
  | .time => Int
  | .set .. => Bool
  | .get _ => Option Int
  | .incr _ => Option Int
  | .expireNx .. => Unit
  | .delete _ => Unit
  | .decr _ => Bool

/-- Execute one command. -/
def exec : (command : Command) → Keyspace → Reply command × Keyspace
  | .time, keys => (keys.clock, keys)
  | .set token payload ttl, keys =>
      if keys.full then (false, keys) else (true, keys.put ⟨token, payload, keys.clock + ttl⟩)
  | .get user, keys => ((keys.counts user).map (·.value), keys)
  | .incr user, keys =>
      if keys.full then (none, keys) else (some (keys.count user + 1), keys.addCount user 1)
  | .expireNx user ttl, keys => ((), keys.armCount user (keys.clock + ttl))
  | .delete token, keys => ((), keys.remove token)
  | .decr user, keys =>
      if keys.full then (false, keys) else (true, keys.addCount user (-1))

/-- A task that issues commands. -/
abbrev Task (α : Type) := Program Command Reply α

def time : Task Int := .issue .time .done

namespace Valkey

def set (token : String) (payload : Bytes) (ttl : Nat) : Task Bool :=
  .issue (.set token payload ttl) .done

def get (user : String) : Task (Option Int) := .issue (.get user) .done

def incr (user : String) : Task (Option Int) := .issue (.incr user) .done

def expireNx (user : String) (ttl : Nat) : Task Unit := .issue (.expireNx user ttl) .done

def delete (token : String) : Task Unit := .issue (.delete token) .done

def decr (user : String) : Task Bool := .issue (.decr user) .done

end Valkey

/-- `SnapshotStore.__init__`, with the TTL in seconds. -/
structure SnapshotStore where
  ttlSeconds : Nat
  maxNodes : Nat
  maxPayloadBytes : Nat
  maxPerUser : Int
  ttl_pos : 1 ≤ ttlSeconds

/-- A call of `save`: the number of its nodes, the payload its nodes and center serialize to at an
instant, its fresh token and its user. -/
structure SaveCall where
  nodes : Nat
  payload : Int → Bytes
  token : String
  userId : Option String

/-- What a save raises. -/
inductive SaveError where
  | tooManyNodes (nodes maxNodes : Nat)
  | tooLarge (bytes maxBytes : Nat)
  | quotaExceeded (count maxPerUser : Int)
  | rejected

/-- The answer of a save: its token and when it expires. -/
abbrev Saved := Except SaveError (String × Int)

variable (store : SnapshotStore)

/-- `save` of a user, once the payload is built. -/
def saveCounted (call : SaveCall) (now : Int) (user : String) : Task Saved := do
  let current ← Valkey.get user
  match current.filter (store.maxPerUser ≤ ·) with
  | some held => pure (.error (.quotaExceeded held store.maxPerUser))
  | none => do
      let written ← Valkey.set call.token (call.payload now) store.ttlSeconds
      if written then do
        let counted ← Valkey.incr user
        match counted with
        | none => do
            Valkey.delete call.token
            pure (.error .rejected)
        | some count => do
            Valkey.expireNx user store.ttlSeconds
            if store.maxPerUser < count then do
              Valkey.delete call.token
              let given ← Valkey.decr user
              if given then pure (.error (.quotaExceeded (count - 1) store.maxPerUser))
              else pure (.error .rejected)
            else pure (.ok (call.token, now + store.ttlSeconds))
      else pure (.error .rejected)

/-- `save`. -/
def save (call : SaveCall) : Task Saved :=
  if store.maxNodes < call.nodes then pure (.error (.tooManyNodes call.nodes store.maxNodes))
  else do
    let now ← time
    if store.maxPayloadBytes < (call.payload now).length then
      pure (.error (.tooLarge (call.payload now).length store.maxPayloadBytes))
    else
      match call.userId.filter (· ≠ "") with
      | none => do
          let written ← Valkey.set call.token (call.payload now) store.ttlSeconds
          if written then pure (.ok (call.token, now + store.ttlSeconds))
          else pure (.error .rejected)
      | some user => saveCounted store call now user

/-- What changes Valkey besides the calls. -/
inductive Change where
  | passes (elapsed : Nat)
  | fills
  | frees

/-- Time passes, or Valkey fills up or has room again. -/
def change : Change → Keyspace → Keyspace
  | .passes elapsed, keys => keys.tick elapsed
  | .fills, keys => { keys with full := true }
  | .frees, keys => { keys with full := false }

/-- The calls of `save`. -/
def saves : System Keyspace Command Reply Saved SaveCall Change where
  exec := exec
  program := save store
  change := change

end CatalogApi.Snapshots
