import CatalogApi.Lib.Runs
import Mathlib.Algebra.BigOperators.Group.List.Basic
import Mathlib.Algebra.Order.Field.Rat

/-!
# Refreshing the Identity Ledger

`api/ledger_refresh.py`, one statement at a time: the inline refresh that follows a run, the poll of
each replica, and the writes of the sources between their statements. A refresh that fails rolls back
its transaction, which releases the lock. Clock readings and the age of the last refresh are rational
seconds, as each step reads them.
-/

namespace CatalogApi.LedgerRefresh

/-- A committed write of the sources: the rows by which it moves their statistics. -/
structure Write where
  rows : Nat
  positive : 0 < rows

/-- What the statistics count of some writes. -/
def total (writes : List Write) : Nat :=
  (writes.map (·.rows)).sum

/-- Why a poll refreshes. -/
inductive Reason where
  | unpopulated
  | quiet
  | stale

/-- The sources' writes in the order of their commits, those that the views reflect, the refresh state
and the advisory lock. -/
structure Database where
  committed : List Write
  views : List Write
  populated : Bool
  refreshed : Bool
  stored : Option Nat
  lock : Option Nat

/-- The source watermark. -/
def Database.watermark (db : Database) : Nat :=
  total db.committed

/-- `LedgerState`. -/
structure LedgerState where
  populated : Bool
  stored : Option Nat
  age : Option ℚ
  current : Nat

/-- `_read_state`, when the last refresh is that old. -/
def Database.readState (db : Database) (age : ℚ) (current : Nat) : LedgerState where
  populated := db.populated && db.refreshed
  stored := db.stored
  age := if db.refreshed then some age else none
  current := current

/-- `ChangeTracker`. -/
structure ChangeTracker where
  seen : Option Nat
  movedAt : ℚ

/-- `ChangeTracker.observe`. -/
def ChangeTracker.observe (tracker : ChangeTracker) (current : Nat) (now : ℚ) :
    ℚ × ChangeTracker :=
  let tracker := if some current ≠ tracker.seen then { seen := some current, movedAt := now } else tracker
  (now - tracker.movedAt, tracker)

/-- `refresh_reason`. -/
def refreshReason (state : LedgerState) (stillFor quiet maxStaleness : ℚ) : Option Reason :=
  if !state.populated then some .unpopulated
  else if state.stored = some state.current then none
  else if quiet ≤ stillFor then some .quiet
  else
    match state.age with
    | none => some .stale
    | some age => if maxStaleness ≤ age then some .stale else none

/-- A call of `refresh_ledger`, or of `poll_once` with a replica's tracker. -/
inductive Call where
  | inline
  | poll (replica : Nat) (quiet maxStaleness : ℚ)

/-- The statement that a call comes to next, with what it holds by then; `nothing` is a call that
returned None. -/
inductive Phase where
  | waiting
  | reading
  | deciding (current : Nat) (stillFor : ℚ)
  | trying (current : Nat) (stillFor : ℚ)
  | rechecking (current : Nat) (stillFor : ℚ)
  | refreshing (watermark : Nat) (reason : Option Reason)
  | executing (watermark : Nat) (reason : Option Reason) (snapshot : List Write)
  | refreshed (reason : Option Reason)
  | nothing

/-- A call in progress. -/
structure Thread where
  call : Call
  phase : Phase

/-- The database, the replicas' trackers and the calls so far. -/
structure State where
  db : Database
  trackers : Nat → ChangeTracker
  threads : List Thread

/-- A write commits, a call starts, goes on with its next statement, or fails. -/
inductive Label where
  | write (write : Write)
  | start (call : Call)
  | advance (thread : Nat) (clock age : ℚ)
  | fail (thread : Nat)

/-- The first statement of a call. -/
def Call.begin : Call → Phase
  | .inline => .waiting
  | .poll _ _ _ => .reading

/-- The end of a transaction that changed nothing. -/
def Database.release (db : Database) (thread : Nat) : Database :=
  { db with lock := if db.lock = some thread then none else db.lock }

/-- The end of the transaction of a refresh. -/
def Database.commit (db : Database) (watermark : Nat) (snapshot : List Write) : Database :=
  { db with views := snapshot, populated := true, refreshed := true, stored := some watermark, lock := none }

/-- `refresh_ledger`, statement by statement: take the lock, read the watermark, refresh. -/
def refreshLedger (db : Database) (index : Nat) : Phase → Option (Database × Phase)
  | .waiting =>
      match db.lock with
      | none => some ({ db with lock := some index }, .reading)
      | some _ => none
  | .reading => some (db, .refreshing db.watermark none)
  | .refreshing watermark reason => some (db, .executing watermark reason db.committed)
  | .executing watermark reason snapshot => some (db.commit watermark snapshot, .refreshed reason)
  | _ => none

/-- `poll_once`, statement by statement. -/
def pollOnce (quiet maxStaleness : ℚ) (db : Database) (tracker : ChangeTracker) (index : Nat)
    (clock age : ℚ) : Phase → Option (Database × ChangeTracker × Phase)
  | .reading =>
      let (stillFor, tracker) := tracker.observe db.watermark clock
      some (db, tracker, .deciding db.watermark stillFor)
  | .deciding current stillFor =>
      match refreshReason (db.readState age current) stillFor quiet maxStaleness with
      | none => some (db, tracker, .nothing)
      | some _ => some (db, tracker, .trying current stillFor)
  | .trying current stillFor =>
      match db.lock with
      | none => some ({ db with lock := some index }, tracker, .rechecking current stillFor)
      | some _ => some (db, tracker, .nothing)
  | .rechecking current stillFor =>
      match refreshReason (db.readState age current) stillFor quiet maxStaleness with
      | none => some (db.release index, tracker, .nothing)
      | some reason => some (db, tracker, .refreshing current (some reason))
  | .refreshing watermark reason => some (db, tracker, .executing watermark reason db.committed)
  | .executing watermark reason snapshot =>
      some (db.commit watermark snapshot, tracker, .refreshed reason)
  | _ => none

/-- The call has returned. -/
def Phase.returned : Phase → Bool
  | .refreshed _ | .nothing => true
  | _ => false

/-- The next statement of a call. -/
def advance (state : State) (index : Nat) (thread : Thread) (clock age : ℚ) : Option State :=
  match thread.call with
  | .inline =>
      match refreshLedger state.db index thread.phase with
      | some (db, phase) =>
          some { state with db, threads := state.threads.set index { thread with phase } }
      | none => none
  | .poll replica quiet maxStaleness =>
      match pollOnce quiet maxStaleness state.db (state.trackers replica) index clock age thread.phase with
      | some (db, tracker, phase) =>
          some
            { db
              trackers := Function.update state.trackers replica tracker
              threads := state.threads.set index { thread with phase } }
      | none => none

/-- One step; it fails where the step is none that can happen. -/
def step (state : State) : Label → Except Unit State
  | .write write =>
      .ok { state with db := { state.db with committed := state.db.committed ++ [write] } }
  | .start call =>
      .ok { state with threads := state.threads ++ [{ call, phase := call.begin }] }
  | .advance index clock age =>
      match (state.threads[index]?).bind fun thread => advance state index thread clock age with
      | some next => .ok next
      | none => .error ()
  | .fail index =>
      match state.threads[index]? with
      | some thread =>
          if thread.phase.returned then .error ()
          else
            .ok
              { state with
                db := state.db.release index
                threads := state.threads.set index { thread with phase := .nothing } }
      | none => .error ()

/-- Before the first refresh whose watermark is stored. -/
def State.initial (committed : List Write) (reflected : Nat) (populated refreshed : Bool)
    (trackers : Nat → ChangeTracker) : State where
  db :=
    { committed, views := committed.take reflected, populated, refreshed, stored := none, lock := none }
  trackers := trackers
  threads := []

end CatalogApi.LedgerRefresh
