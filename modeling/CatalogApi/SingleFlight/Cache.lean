import CatalogApi.Lib.Runs

/-!
# The single-flight cache

`_SingleFlightTTLCache` of `api/routers/extraction_analysis.py`, one event-loop step at a time. A
caller runs up to its first wait in one step; a computation is a Task that ends some steps later; and
those that await it are woken one by one, its creator last or first. Cancelling a caller that waits
cancels the Task it awaits, and where that has ended already, the caller itself when it is woken.
-/

namespace CatalogApi.SingleFlight

/-- How a computation ends, and what a caller gets. -/
inductive Ending (α ε : Type) where
  | value (result : α)
  | raised (error : ε)
  | cancelled

/-- A computation's Task; `storedAt` is when its value went into the cache. -/
structure Task (Key α ε : Type) where
  key : Key
  startedAt : Nat
  cancelRequested : Bool
  ended : Option (Nat × Ending α ε)
  storedAt : Option Nat

/-- Where a call of `get_or_compute` is: it awaits a Task, as the one that created it or as one that
joined, or it has returned. -/
inductive Phase (α ε : Type) where
  | waiting (task : Nat) (creator : Bool) (mustCancel : Bool)
  | returned (instant : Nat) (received : Ending α ε)

/-- A call of `get_or_compute`. -/
structure Caller (Key α ε : Type) where
  key : Key
  calledAt : Nat
  cancelled : Bool
  phase : Phase α ε

/-- `_SingleFlightTTLCache`, with its Tasks and callers so far. -/
structure Cache (Key α ε : Type) where
  now : Nat
  cached : Key → Option (Nat × α)
  inflight : Key → Option Nat
  tasks : List (Task Key α ε)
  callers : List (Caller Key α ε)

/-- One step of the event loop. -/
inductive Label (Key α ε : Type) where
  | call (key : Key)
  | finish (task : Nat) (ending : Ending α ε)
  | cancel (caller : Nat)
  | wake (caller : Nat)
  | tick

variable {Key α ε : Type}

namespace Ending

/-- A value. -/
def succeeded : Ending α ε → Bool
  | .value _ => true
  | _ => false

/-- Whether a Task can end this way: cancelled only if that was requested. -/
def possible (cancelRequested : Bool) : Ending α ε → Bool
  | .cancelled => cancelRequested
  | _ => true

end Ending

namespace Cache

/-- `__init__`. -/
def empty : Cache Key α ε where
  now := 0
  cached := fun _ => none
  inflight := fun _ => none
  tasks := []
  callers := []

variable (cache : Cache Key α ε)

/-- The cached value of a key that has not expired. -/
def held (key : Key) : Option α :=
  match cache.cached key with
  | some (expiry, value) => if cache.now < expiry then some value else none
  | none => none

/-- A new caller. -/
def arrive (key : Key) (phase : Phase α ε) : Cache Key α ε :=
  { cache with
    callers := cache.callers ++ [{ key, calledAt := cache.now, cancelled := false, phase }] }

/-- A Task that starts now. -/
def fresh (key : Key) : Task Key α ε :=
  { key, startedAt := cache.now, cancelRequested := false, ended := none, storedAt := none }

variable [DecidableEq Key]

/-- A Task is created and registered. -/
def create (key : Key) : Cache Key α ε :=
  { cache with
    inflight := Function.update cache.inflight key (some cache.tasks.length)
    tasks := cache.tasks ++ [cache.fresh key] }

/-- `get_or_compute` up to its first wait. -/
def call (key : Key) : Cache Key α ε :=
  match cache.held key with
  | some value => cache.arrive key (.returned cache.now (.value value))
  | none =>
      match cache.inflight key with
      | some task =>
          match (cache.tasks[task]?).bind (·.ended) with
          | some (_, ending) => cache.arrive key (.returned cache.now ending)
          | none => cache.arrive key (.waiting task false false)
      | none => (cache.create key).arrive key (.waiting cache.tasks.length true false)

/-- The creator after its wait: the registry entry goes, and a value is cached. -/
def settle (ttl : Nat) (key : Key) (task : Nat) (received : Ending α ε) : Cache Key α ε :=
  match received with
  | .value value =>
      { cache with
        inflight := Function.update cache.inflight key none
        cached := Function.update cache.cached key (some (cache.now + ttl, value))
        tasks := cache.tasks.modify task fun task => { task with storedAt := some cache.now } }
  | _ => { cache with inflight := Function.update cache.inflight key none }

/-- What a woken caller gets. -/
def receives (mustCancel : Bool) (ending : Ending α ε) : Ending α ε :=
  if mustCancel then .cancelled else ending

/-- A caller that waits is cancelled: so is the Task it awaits, or the caller itself if that has
ended. -/
def cancelCaller (index : Nat) (caller : Caller Key α ε) (awaited : Nat) (creator mustCancel : Bool)
    (task : Task Key α ε) : Cache Key α ε :=
  if task.ended.isSome then
    { cache with
      callers := cache.callers.set index
        { caller with cancelled := true, phase := .waiting awaited creator true } }
  else
    { cache with
      tasks := cache.tasks.set awaited { task with cancelRequested := true }
      callers := cache.callers.set index
        { caller with cancelled := true, phase := .waiting awaited creator mustCancel } }

/-- A caller whose Task has ended is woken. -/
def wakeCaller (ttl : Nat) (index : Nat) (caller : Caller Key α ε) (awaited : Nat)
    (creator mustCancel : Bool) (ending : Ending α ε) : Cache Key α ε :=
  let received := receives mustCancel ending
  let settled := if creator then cache.settle ttl caller.key awaited received else cache
  { settled with
    callers := cache.callers.set index { caller with phase := .returned cache.now received } }

end Cache

variable [DecidableEq Key]

/-- One step; it fails where the step is none of the event loop's. -/
def step (ttl : Nat) (cache : Cache Key α ε) : Label Key α ε → Except Unit (Cache Key α ε)
  | .call key => .ok (cache.call key)
  | .finish index ending =>
      match cache.tasks[index]? with
      | some task =>
          if task.ended.isNone ∧ ending.possible task.cancelRequested then
            .ok
              { cache with
                tasks := cache.tasks.set index { task with ended := some (cache.now, ending) } }
          else .error ()
      | none => .error ()
  | .cancel index =>
      match cache.callers[index]? with
      | some caller =>
          match caller.phase with
          | .waiting awaited creator mustCancel =>
              match cache.tasks[awaited]? with
              | some task => .ok (cache.cancelCaller index caller awaited creator mustCancel task)
              | none => .error ()
          | .returned _ _ => .error ()
      | none => .error ()
  | .wake index =>
      match cache.callers[index]? with
      | some caller =>
          match caller.phase with
          | .waiting awaited creator mustCancel =>
              match (cache.tasks[awaited]?).bind (·.ended) with
              | some (_, ending) =>
                  .ok (cache.wakeCaller ttl index caller awaited creator mustCancel ending)
              | none => .error ()
          | .returned _ _ => .error ()
      | none => .error ()
  | .tick => .ok { cache with now := cache.now + 1 }

end CatalogApi.SingleFlight
