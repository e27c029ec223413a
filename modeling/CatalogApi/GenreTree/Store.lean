import CatalogApi.Lib.Runs

/-!
# Rebuilding the genre tree

`refresh_once` of `api/genre_tree_store.py`, called by any number of replicas over one Valkey and one
graph. A call goes from await to await: it loads the stored snapshot, reads the signature of the graph,
takes the lock, builds, stores and releases. Each await may fail or be cancelled, a command of Valkey
with or without its effect. Which call set the lock, and when a call's own SET took it, are kept beside
the state.
-/

namespace CatalogApi.GenreTree

variable {Tree : Type}

/-- `LOCK_SECONDS`. -/
def lockSeconds : Nat := 900

/-- `Snapshot`. -/
structure Snapshot (Tree : Type) where
  genres : Tree
  signature : String
  builtAt : Nat

/-- What becomes of an await. -/
inductive Fate where
  | answers
  | fails (applied cancelled : Bool)
  deriving DecidableEq

/-- The command has its effect. -/
def Fate.applies : Fate → Bool
  | .answers => true
  | .fails applied _ => applied

/-- The await is cancelled. -/
def Fate.cancelled : Fate → Bool
  | .answers => false
  | .fails _ cancelled => cancelled

/-- The lock key: the call that set it and when it expires. -/
structure Lock where
  setBy : Nat
  expiresAt : Nat

/-- Where a call awaits. `took` is when its own SET took the lock, if it did. -/
inductive Phase (Tree : Type) where
  | loading
  | signing
  | locking (signature : String)
  | building (signature : String) (took : Option Nat)
  | storing (snapshot : Snapshot Tree) (took : Option Nat)
  | releasing (rebuilt : Bool) (took : Option Nat)
  | returned (rebuilt : Bool)

/-- A call of `refresh_once`. -/
structure Call (Tree : Type) where
  replica : Nat
  valkey : Bool
  maxAge : Nat
  force : Bool
  phase : Phase Tree

/-- Valkey, the signature of the graph, each replica's `_snapshot` and the calls so far. -/
structure State (Tree : Type) where
  now : Nat
  lock : Option Lock
  stored : Option (Snapshot Tree)
  signature : String
  held : Nat → Option (Snapshot Tree)
  calls : List (Call Tree)

/-- A call starts, goes on from its await, or time or the graph moves. -/
inductive Action (Tree : Type) where
  | start (replica : Nat) (valkey : Bool) (maxAge : Nat) (force : Bool)
  | load (call : Nat) (fate : Fate)
  | sign (call : Nat) (fate : Fate)
  | takeLock (call : Nat) (fate : Fate)
  | build (call : Nat) (genres : Option Tree)
  | store (call : Nat) (fate : Fate)
  | releaseLock (call : Nat) (fate : Fate)
  | tick (seconds : Nat)
  | imported (signature : String)

namespace State

variable (state : State Tree)

/-- The lock key, while it has not expired. -/
def live : Option Lock :=
  state.lock.filter (state.now < ·.expiresAt)

/-- A call goes on to this await. -/
def goOn (index : Nat) (call : Call Tree) (phase : Phase Tree) : State Tree :=
  { state with calls := state.calls.set index { call with phase } }

/-- `_load_from_valkey`, and the newer of the two snapshots. -/
def load (index : Nat) (call : Call Tree) (fate : Fate) : State Tree :=
  let loaded := if call.valkey && fate = .answers then state.stored else none
  let held :=
    match loaded, state.held call.replica with
    | some stored, none => some stored
    | some stored, some held => if held.builtAt < stored.builtAt then some stored else some held
    | none, held => held
  { state with held := Function.update state.held call.replica held }.goOn index call
    (if call.valkey && fate.cancelled then .returned false else .signing)

/-- The tree that is held is of this signature and young enough. -/
def fresh (call : Call Tree) : Bool :=
  match state.held call.replica with
  | some held => held.signature = state.signature ∧ state.now - held.builtAt < call.maxAge
  | none => false

/-- `get_genre_signature`, and whether to rebuild. -/
def sign (index : Nat) (call : Call Tree) (fate : Fate) : State Tree :=
  state.goOn index call
    (if fate ≠ .answers ∨ (!call.force && state.fresh call) then .returned false
    else .locking state.signature)

/-- SET NX EX. -/
def setLock (index : Nat) : State Tree :=
  match state.live with
  | some _ => state
  | none => { state with lock := some { setBy := index, expiresAt := state.now + lockSeconds } }

/-- `_take_lock`: a SET that raises counts as taken. -/
def takeLock (index : Nat) (call : Call Tree) (signature : String) (fate : Fate) : State Tree :=
  if !call.valkey then state.goOn index call (.building signature none)
  else
    let took := if fate.applies ∧ state.live = none then some state.now else none
    let after := if fate.applies then state.setLock index else state
    match fate with
    | .answers =>
        after.goOn index call (if took = none then .returned false else .building signature took)
    | .fails _ false => after.goOn index call (.building signature took)
    | .fails _ true => after.goOn index call (.returned false)

/-- `build_genre_tree`, and the snapshot that `_store` keeps in the process. -/
def build (index : Nat) (call : Call Tree) (signature : String) (took : Option Nat)
    (genres : Option Tree) : State Tree :=
  match genres with
  | none => state.goOn index call (.releasing false took)
  | some genres =>
      let snapshot := { genres, signature, builtAt := state.now }
      { state with held := Function.update state.held call.replica (some snapshot) }.goOn index call
        (.storing snapshot took)

/-- The SET of `_store`: only a cancellation is not swallowed. -/
def store (index : Nat) (call : Call Tree) (snapshot : Snapshot Tree) (took : Option Nat)
    (fate : Fate) : State Tree :=
  { state with
    stored := if call.valkey && fate.applies then some snapshot else state.stored }.goOn index call
      (.releasing (!(call.valkey && fate.cancelled)) took)

/-- `_release_lock`: a DELETE whoever set the key. -/
def releaseLock (index : Nat) (call : Call Tree) (rebuilt : Bool) (fate : Fate) : State Tree :=
  { state with
    lock := if call.valkey && fate.applies then none else state.lock }.goOn index call
      (.returned rebuilt)

/-- A step that is taken only from where a call awaits. -/
def at' (index : Nat) (next : Call Tree → Option (State Tree)) : Except Unit (State Tree) :=
  match state.calls[index]?.bind next with
  | some after => .ok after
  | none => .error ()

end State

/-- One step. -/
def step (state : State Tree) : Action Tree → Except Unit (State Tree)
  | .start replica valkey maxAge force =>
      .ok { state with
        calls := state.calls ++ [{ replica, valkey, maxAge, force, phase := .loading }] }
  | .load index fate => state.at' index fun call =>
      match call.phase with
      | .loading => some (state.load index call fate)
      | _ => none
  | .sign index fate => state.at' index fun call =>
      match call.phase with
      | .signing => some (state.sign index call fate)
      | _ => none
  | .takeLock index fate => state.at' index fun call =>
      match call.phase with
      | .locking signature => some (state.takeLock index call signature fate)
      | _ => none
  | .build index genres => state.at' index fun call =>
      match call.phase with
      | .building signature took => some (state.build index call signature took genres)
      | _ => none
  | .store index fate => state.at' index fun call =>
      match call.phase with
      | .storing snapshot took => some (state.store index call snapshot took fate)
      | _ => none
  | .releaseLock index fate => state.at' index fun call =>
      match call.phase with
      | .releasing rebuilt _ => some (state.releaseLock index call rebuilt fate)
      | _ => none
  | .tick seconds => .ok { state with now := state.now + seconds }
  | .imported signature => .ok { state with signature }

/-- Before any call, with whatever is stored. -/
def State.initial (now : Nat) (stored : Option (Snapshot Tree)) (signature : String) : State Tree :=
  { now, lock := none, stored, signature, held := fun _ => none, calls := [] }

end CatalogApi.GenreTree
