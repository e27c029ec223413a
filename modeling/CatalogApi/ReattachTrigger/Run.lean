import CatalogApi.Lib.Programs

/-!
# Automatic identity maintenance

`run_pending` of `api/reattach_trigger.py`, run by any number of replicas over one PostgreSQL. The
pool's connections are autocommit, so each statement is its own transaction; a session that is lost
gives up its advisory lock and executes nothing more; and any statement or job may fail, a statement
with or without its effect. What an audit entry's run did, and under which grant of the lock, is kept
beside the entry.
-/

namespace CatalogApi.ReattachTrigger

open Programs

abbrev Version := String
abbrev Session := Nat
abbrev Job := Nat

/-- A Discogs row of `loader_extraction_latch`. -/
structure LatchRow where
  version : Version
  createdAt : Nat
  signals : List String

/-- `DISCOGS_DATA_TYPES`. -/
def discogsDataTypes : List String := ["artists", "labels", "masters", "releases"]

/-- `signals @> DISCOGS_DATA_TYPES`. -/
def LatchRow.complete (row : LatchRow) : Bool :=
  discogsDataTypes.all (· ∈ row.signals)

/-- `ORDER BY created_at DESC, version DESC LIMIT 1`. -/
def LatchRow.newer (best : Option LatchRow) (row : LatchRow) : Option LatchRow :=
  match best with
  | none => some row
  | some best =>
      if best.createdAt < row.createdAt ∨ best.createdAt = row.createdAt ∧ best.version < row.version then
        some row
      else some best

/-- `_LATEST_COMPLETE`. -/
def latestComplete (rows : List LatchRow) : Option Version :=
  ((rows.filter (·.complete)).foldl LatchRow.newer none).map (·.version)

/-- `AUDIT_ACTION`, `STARTED_ACTION` and `FAILED_ACTION`. -/
inductive Action where
  | auto
  | started
  | failed
  deriving DecidableEq

/-- What a run did, and the grant of the lock that its session held then, if it held one. -/
inductive Milestone where
  | started (grant : Option Nat)
  | reattached (returned : Bool) (grant : Option Nat)
  | projected (returned : Bool) (grant : Option Nat)
  | marked (grant : Option Nat)

/-- An `admin_audit_log` row of the system actor, and what its run did so far. -/
structure Entry where
  id : Job
  action : Action
  target : String
  milestones : List Milestone

/-- The session-level advisory lock: who holds it, since which grant and how often. -/
structure Lock where
  session : Session
  grant : Nat
  depth : Nat

/-- The row that `_SELECT_ACTOR` reads. -/
structure Actor where
  email : String
  isActive : Bool
  isAdmin : Bool
  deriving DecidableEq

/-- What becomes of the next statement or job. -/
inductive Fate where
  | succeeds
  | fails (applied : Bool)
  deriving DecidableEq

/-- PostgreSQL and the pool; `grants` and `jobs` count the grants of the lock and the job ids so far,
`refs` are the `decision_ref`s passed to `run_reattachment`, and `offered` is the session that the pool
gives next. -/
structure State where
  latchPresent : Bool
  latch : List LatchRow
  actor : Option Actor
  entries : List Entry
  lock : Option Lock
  grants : Nat
  lost : List Session
  busy : List Session
  jobs : Nat
  refs : List Job
  fate : Fate
  offered : Session

/-- The statements and calls of `run_pending`; those on the lock's own connection name its session. -/
inductive Command where
  | connection
  | latchPresent (session : Session)
  | latestComplete (session : Session)
  | handled (session : Session) (version : Version)
  | tryLock (session : Session)
  | ensureActor (session : Session)
  | selectActor (session : Session)
  | uuid4
  | insertAuditEntry (session : Session) (job : Job) (version : Version)
  | runReattachment (job : Job)
  | endReattachment (session : Session) (job : Job)
  | refreshLedger
  | runProjection (session : Session) (job : Job)
  | finalizeAuditEntry (job : Job)
  | updateAuditEntry (session : Session) (job : Job)
  | unlock (session : Session)
  | release (session : Session)

/-- What each command gives; a statement may raise. -/
def Command.Reply : Command → Type
  | .connection => Except Unit Session
  | .latchPresent _ => Except Unit Bool
  | .latestComplete _ => Except Unit (Option Version)
  | .handled _ _ => Except Unit Bool
  | .tryLock _ => Except Unit Bool
  | .selectActor _ => Except Unit (Option Actor)
  | .uuid4 => Job
  | .runReattachment _ | .refreshLedger | .finalizeAuditEntry _ | .release _ => Unit
  | .ensureActor _ | .insertAuditEntry _ _ _ | .endReattachment _ _ | .runProjection _ _
  | .updateAuditEntry _ _ | .unlock _ => Except Unit Unit

/-- `extraction_target`. -/
def extractionTarget (version : Version) : String :=
  "discogs:" ++ version

/-- `SYSTEM_ACTOR_EMAIL`. -/
def systemActorEmail : String := "identity-maintenance@system.groovemap.invalid"

/-- The row of the system actor. -/
def systemActor : Actor := ⟨systemActorEmail, false, false⟩

namespace State

variable (state : State)

/-- A statement of a session, with its reply and its effect. -/
def statement {α : Type} (session : Session) (reply : α) (after : State) : Except Unit α × State :=
  if session ∈ state.lost then (.error (), state)
  else
    match state.fate with
    | .succeeds => (.ok reply, after)
    | .fails applied => (.error (), if applied then after else state)

/-- The grant under which a session holds the lock. -/
def heldBy (session : Session) : Option Nat :=
  state.lock.bind fun lock => if lock.session = session then some lock.grant else none

/-- The entry of a job is changed. -/
def change (job : Job) (to_ : Entry → Entry) : State :=
  { state with
    entries := state.entries.map fun entry => if entry.id = job then to_ entry else entry }

/-- A job ends, and its run notes it. -/
def note (job : Job) (milestone : Milestone) : State :=
  state.change job fun entry => { entry with milestones := entry.milestones ++ [milestone] }

/-- `_HANDLED`. -/
def isHandled (version : Version) : Bool :=
  state.entries.any fun entry => entry.action = .auto ∧ entry.target = extractionTarget version

/-- `pg_try_advisory_lock`. -/
def tryLock (session : Session) : Bool × State :=
  match state.lock with
  | none =>
      (true, { state with
        lock := some { session, grant := state.grants + 1, depth := 1 }, grants := state.grants + 1 })
  | some lock =>
      if lock.session = session then
        (true, { state with lock := some { lock with depth := lock.depth + 1 } })
      else (false, state)

/-- `pg_advisory_unlock`. -/
def unlock (session : Session) : State :=
  match state.lock with
  | some lock =>
      if lock.session = session then
        { state with
          lock := if lock.depth ≤ 1 then none else some { lock with depth := lock.depth - 1 } }
      else state
  | none => state

/-- The session is lost, and its lock with it. -/
def lose (session : Session) : State :=
  { state with
    lost := session :: state.lost
    lock := if (state.lock.map (·.session)) = some session then none else state.lock }

end State

/-- What a command does. -/
def exec : (command : Command) → State → command.Reply × State
  | .connection, state =>
      if state.fate = .succeeds ∧ state.offered ∉ state.busy then
        (.ok state.offered, { state with busy := state.offered :: state.busy })
      else (.error (), state)
  | .latchPresent session, state => state.statement session state.latchPresent state
  | .latestComplete session, state => state.statement session (latestComplete state.latch) state
  | .handled session version, state => state.statement session (state.isHandled version) state
  | .tryLock session, state => state.statement session (state.tryLock session).1 (state.tryLock session).2
  | .ensureActor session, state =>
      state.statement session () { state with actor := some (state.actor.getD systemActor) }
  | .selectActor session, state => state.statement session state.actor state
  | .uuid4, state => (state.jobs, { state with jobs := state.jobs + 1 })
  | .insertAuditEntry session job version, state =>
      state.statement session ()
        { state with
          entries := state.entries ++
            [{ id := job, action := .started, target := extractionTarget version
               milestones := [.started (state.heldBy session)] }] }
  | .runReattachment job, state => ((), { state with refs := state.refs ++ [job] })
  | .endReattachment session job, state =>
      match state.fate with
      | .succeeds => (.ok (), state.note job (.reattached true (state.heldBy session)))
      | .fails _ => (.error (), state.note job (.reattached false (state.heldBy session)))
  | .refreshLedger, state => ((), state)
  | .runProjection session job, state =>
      match state.fate with
      | .succeeds => (.ok (), state.note job (.projected true (state.heldBy session)))
      | .fails _ => (.error (), state.note job (.projected false (state.heldBy session)))
  | .finalizeAuditEntry job, state =>
      ((), if state.fate = .fails false then state
        else state.change job fun entry => { entry with action := .failed })
  | .updateAuditEntry session job, state =>
      state.statement session ()
        (state.change job fun entry =>
          { entry with
            action := .auto, milestones := entry.milestones ++ [.marked (state.heldBy session)] })
  | .unlock session, state => state.statement session () (state.unlock session)
  | .release session, state => ((), { state with busy := state.busy.erase session })

/-- The program of a call, which raises or returns a version or None. -/
abbrev Run := Program Command Command.Reply (Except Unit (Option Version))

/-- The end of `async with pool.connection()`. -/
def leave (session : Session) (result : Except Unit (Option Version)) : Run :=
  .issue (.release session) fun _ => .done result

/-- The `finally` of `run_pending`; an unlock that raises raises instead. -/
def finish (session : Session) (result : Except Unit (Option Version)) : Run :=
  .issue (.unlock session) fun (reply : Except Unit Unit) =>
    match reply with
    | .ok () => leave session result
    | .error () => leave session (.error ())

/-- `pending_extraction`, and what follows it. -/
def pendingExtraction (session : Session) (next : Except Unit (Option Version) → Run) : Run :=
  .issue (.latchPresent session) fun (reply : Except Unit Bool) =>
    match reply with
    | .error () => next (.error ())
    | .ok false => next (.ok none)
    | .ok true =>
        .issue (.latestComplete session) fun (reply : Except Unit (Option Version)) =>
          match reply with
          | .error () => next (.error ())
          | .ok none => next (.ok none)
          | .ok (some version) =>
              .issue (.handled session version) fun (reply : Except Unit Bool) =>
                match reply with
                | .error () => next (.error ())
                | .ok true => next (.ok none)
                | .ok false => next (.ok (some version))

/-- `ensure_system_actor`, and what follows it. -/
def ensureSystemActor (session : Session) (next : Except Unit Unit → Run) : Run :=
  .issue (.ensureActor session) fun (reply : Except Unit Unit) =>
    match reply with
    | .error () => next (.error ())
    | .ok () =>
        .issue (.selectActor session) fun (reply : Except Unit (Option Actor)) =>
          match reply with
          | .error () => next (.error ())
          | .ok actor => next (if actor = some systemActor then .ok () else .error ())

/-- The projection and the marker. -/
def project (session : Session) (job : Job) (version : Version) : Run :=
  .issue (.runProjection session job) fun (reply : Except Unit Unit) =>
    match reply with
    | .error () => .issue (.finalizeAuditEntry job) fun _ => finish session (.error ())
    | .ok () =>
        .issue (.updateAuditEntry session job) fun (reply : Except Unit Unit) =>
          match reply with
          | .error () => finish session (.error ())
          | .ok () => finish session (.ok (some version))

/-- The re-attachment, and what follows it. -/
def reattach (session : Session) (job : Job) (version : Version) : Run :=
  .issue (.runReattachment job) fun _ =>
    .issue (.endReattachment session job) fun (reply : Except Unit Unit) =>
      match reply with
      | .error () =>
          .issue (.finalizeAuditEntry job) fun _ =>
            .issue .refreshLedger fun _ => finish session (.error ())
      | .ok () => .issue .refreshLedger fun _ => project session job version

/-- The `try` of `run_pending`, under the lock. -/
def maintain (session : Session) : Run :=
  pendingExtraction session fun pending =>
    match pending with
    | .error () => finish session (.error ())
    | .ok none => finish session (.ok none)
    | .ok (some version) =>
        ensureSystemActor session fun actor =>
          match actor with
          | .error () => finish session (.error ())
          | .ok () =>
              .issue .uuid4 fun (job : Job) =>
                .issue (.insertAuditEntry session job version) fun (reply : Except Unit Unit) =>
                  match reply with
                  | .error () => finish session (.error ())
                  | .ok () => reattach session job version

/-- `run_pending`. -/
def runPending : Run :=
  .issue .connection fun (reply : Except Unit Session) =>
    match reply with
    | .error () => .done (.error ())
    | .ok session =>
        pendingExtraction session fun pending =>
          match pending with
          | .error () => leave session (.error ())
          | .ok none => leave session (.ok none)
          | .ok (some _) =>
              .issue (.tryLock session) fun (reply : Except Unit Bool) =>
                match reply with
                | .error () => leave session (.error ())
                | .ok false => leave session (.ok none)
                | .ok true => maintain session

/-- What else changes: the loader's latch, the actor's row, sessions that are lost, and what becomes of
the next command. -/
inductive Change where
  | latch (present : Bool) (rows : List LatchRow)
  | actor (actor : Option Actor)
  | lose (session : Session)
  | fate (fate : Fate)
  | offer (session : Session)

/-- The replicas' calls; a process that dies goes on no more. -/
def trigger : System State Command Command.Reply (Except Unit (Option Version)) Unit Change where
  exec := exec
  program _ := runPending
  change
    | .latch latchPresent latch, state => { state with latchPresent, latch }
    | .actor actor, state => { state with actor }
    | .lose session, state => state.lose session
    | .fate fate, state => { state with fate }
    | .offer offered, state => { state with offered }

/-- Before the first call. -/
def State.initial : State where
  latchPresent := false
  latch := []
  actor := none
  entries := []
  lock := none
  grants := 0
  lost := []
  busy := []
  jobs := 0
  refs := []
  fate := .succeeds
  offered := 0

end CatalogApi.ReattachTrigger
