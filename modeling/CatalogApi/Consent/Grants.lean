import CatalogApi.Lib.ByKey
import CatalogApi.Lib.Heads
import CatalogApi.Lib.Runs
import Mathlib.Data.String.Basic

/-!
# Consent

`get_consent` and `set_consent` of `api/routers/activity.py` and the recorder's `active_purposes` of
`api/activity.py`, over `activity.consent_grants` with no unique constraint. The pool's connections are
autocommit, so a request's one statement is its transaction: it starts, takes its snapshot, writes and
commits under READ COMMITTED, and any number of requests do this at once. An `UPDATE` waits for a row
that another transaction has updated and checks it again afterwards.
-/

namespace CatalogApi.Consent

open Runs

abbrev UserId := String
abbrev Purpose := String
abbrev GrantId := Nat
abbrev Timestamp := Nat

/-- A row of `activity.consent_grants`. -/
structure Grant where
  id : GrantId
  user : UserId
  purpose : Purpose
  grantedAt : Timestamp
  revokedAt : Option Timestamp
  deriving DecidableEq

namespace Grant

/-- `revoked_at IS NULL`. -/
def active (grant : Grant) : Bool :=
  grant.revokedAt.isNone

/-- `user_id = %s::uuid AND purpose = %s`. -/
def isOf (grant : Grant) (user : UserId) (purpose : Purpose) : Bool :=
  grant.user = user ∧ grant.purpose = purpose

/-- What `granted_at, id` orders by. -/
def order (grant : Grant) : Timestamp ×ₗ GrantId :=
  toLex (grant.grantedAt, grant.id)

/-- What `purpose, granted_at DESC, id DESC` orders by. -/
def consentOrder (grant : Grant) : Purpose ×ₗ (Timestamp ×ₗ GrantId)ᵒᵈ :=
  toLex (grant.purpose, OrderDual.toDual grant.order)

/-- `SET revoked_at = NOW()` on the rows with these ids. -/
def revoked (ids : List GrantId) (now : Timestamp) (grant : Grant) : Grant :=
  if grant.id ∈ ids then { grant with revokedAt := some now } else grant

section Revoked

variable (ids : List GrantId) (now : Timestamp) (grant : Grant)

@[simp] theorem revoked_id : (grant.revoked ids now).id = grant.id := by
  rw [revoked]
  split <;> rfl

@[simp] theorem revoked_user : (grant.revoked ids now).user = grant.user := by
  rw [revoked]
  split <;> rfl

@[simp] theorem revoked_purpose : (grant.revoked ids now).purpose = grant.purpose := by
  rw [revoked]
  split <;> rfl

@[simp] theorem revoked_is_of (user : UserId) (purpose : Purpose) :
    (grant.revoked ids now).isOf user purpose = grant.isOf user purpose := by
  rw [revoked]
  split <;> rfl

@[simp] theorem revoked_order : (grant.revoked ids now).order = grant.order := by
  rw [revoked]
  split <;> rfl

@[simp] theorem revoked_active :
    (grant.revoked ids now).active = true ↔ grant.active = true ∧ grant.id ∉ ids := by
  rw [revoked]
  split <;> simp_all [active]

end Revoked

end Grant

/-! ## Readers -/

/-- `_SELECT_CONSENT`. -/
def selectConsent (rows : List Grant) (user : UserId) : List Grant :=
  ByKey.heads (·.purpose) (ByKey.sortBy (·.consentOrder) (rows.filter (·.user = user)))

/-- One purpose as `get_consent` renders it. -/
structure PurposeState where
  purpose : Purpose
  granted : Bool
  grantedAt : Option Timestamp
  revokedAt : Option Timestamp

/-- `_consent_state`, where `vocabulary` is `consent_purposes()`. -/
def consentState (vocabulary : List Purpose) (rows : List Grant) : List PurposeState :=
  vocabulary.map fun purpose =>
    let row := rows.find? (·.purpose = purpose)
    { purpose
      granted := row.any (·.active)
      grantedAt := row.map (·.grantedAt)
      revokedAt := row.bind (·.revokedAt) }

/-- `get_consent`. -/
def getConsent (vocabulary : List Purpose) (rows : List Grant) (user : UserId) : List PurposeState :=
  consentState vocabulary (selectConsent rows user)

/-- `_SELECT_ACTIVE_PURPOSES`. -/
def selectActivePurposes (rows : List Grant) (user : UserId) : List Purpose :=
  ((rows.filter fun grant => grant.user = user ∧ grant.active).map (·.purpose)).eraseDups

/-- `active_purposes`. -/
def activePurposes (vocabulary : List Purpose) (rows : List Grant) (user : UserId) : List Purpose :=
  vocabulary.filter (· ∈ selectActivePurposes rows user)

/-! ## Requests -/

/-- A call of `set_consent`. -/
structure Request where
  user : UserId
  purpose : Purpose
  granted : Bool

/-- How far a request is. A revoke holds the ids its snapshot found, those it has not come to yet and
those it has updated. -/
inductive Phase where
  | began
  | inserting
  | inserted (row : Option Grant)
  | closing (seen left closed : List GrantId)
  | rejected
  | answered (changed : Bool)
  | failed
  deriving DecidableEq

namespace Phase

/-- The transaction is open. -/
def inProgress : Phase → Bool
  | .began | .inserting | .inserted _ | .closing _ _ _ => true
  | .rejected | .answered _ | .failed => false

/-- A row with this id is inserted and not committed. -/
def inserts (id : GrantId) : Phase → Bool
  | .inserted (some row) => row.id = id
  | _ => false

/-- The row is in the snapshot of a revoke in progress. -/
def sees (id : GrantId) : Phase → Bool
  | .closing seen _ _ => id ∈ seen
  | _ => false

/-- The row is updated and not committed. -/
def locks (id : GrantId) : Phase → Bool
  | .closing _ _ closed => id ∈ closed
  | _ => false

end Phase

/-- A request with its start, which is `NOW()`. -/
structure Call where
  request : Request
  startedAt : Timestamp
  phase : Phase

/-- What is committed, and the requests made so far. -/
structure State where
  clock : Timestamp
  rows : List Grant
  calls : List Call

/-- An empty table. -/
def State.empty : State := { clock := 0, rows := [], calls := [] }

namespace State

variable (state : State)

/-- The ids of the active rows of a purpose. -/
def activeIds (user : UserId) (purpose : Purpose) : List GrantId :=
  (state.rows.filter fun row => row.isOf user purpose ∧ row.active).map (·.id)

/-- No row, committed or not, has this id. -/
def unused (id : GrantId) : Bool :=
  state.rows.all (·.id ≠ id) ∧ state.calls.all (¬·.phase.inserts id)

/-- A request has updated the row and not committed. -/
def locked (id : GrantId) : Bool :=
  state.calls.any (·.phase.locks id)

def setPhase (index : Nat) (call : Call) (phase : Phase) : State :=
  { state with calls := state.calls.set index { call with phase } }

/-- No request is in progress. -/
def quiescent : Bool :=
  state.calls.all fun call => ¬call.phase.inProgress

end State

/-- What a request does next; `insert` carries the id that the row gets. -/
inductive Action where
  | snapshot
  | insert (id : GrantId)
  | update
  | commit
  | abort
  deriving DecidableEq

/-- A request starts, or one goes on. -/
inductive Move where
  | begin (request : Request) (now : Timestamp)
  | act (index : Nat) (action : Action)

/-- The snapshot of `_INSERT_GRANT` or `_REVOKE_GRANT`. -/
def afterSnapshot (state : State) (request : Request) : Phase :=
  let ids := state.activeIds request.user request.purpose
  if request.granted then if ids = [] then .inserting else .inserted none
  else .closing ids ids []

/-- The row that `_INSERT_GRANT` writes. -/
def Call.grant (call : Call) (id : GrantId) : Grant :=
  { id
    user := call.request.user
    purpose := call.request.purpose
    grantedAt := call.startedAt
    revokedAt := none }

/-- The next row of a revoke: one that is no longer active is left out. -/
def afterUpdate (state : State) (id : GrantId) (seen left closed : List GrantId) : Phase :=
  if state.rows.any fun row => row.id = id ∧ row.active then .closing seen left (id :: closed)
  else .closing seen left closed

/-- The end of a transaction. -/
def commit (state : State) (index : Nat) (call : Call) : Except Unit State :=
  match call.phase with
  | .inserted none => .ok (state.setPhase index call (.answered false))
  | .inserted (some row) =>
      .ok { state.setPhase index call (.answered true) with rows := state.rows ++ [row] }
  | .closing _ [] closed =>
      .ok
        { state.setPhase index call (.answered (closed ≠ [])) with
          rows := state.rows.map (·.revoked closed call.startedAt) }
  | _ => .error ()

/-- One action of a request. -/
def advance (state : State) (index : Nat) (call : Call) (action : Action) : Except Unit State :=
  match action, call.phase with
  | .snapshot, .began => .ok (state.setPhase index call (afterSnapshot state call.request))
  | .insert id, .inserting =>
      if state.unused id then .ok (state.setPhase index call (.inserted (some (call.grant id))))
      else .error ()
  | .update, .closing seen (id :: left) closed =>
      if state.locked id then .error ()
      else .ok (state.setPhase index call (afterUpdate state id seen left closed))
  | .commit, _ => commit state index call
  | .abort, phase => if phase.inProgress then .ok (state.setPhase index call .failed) else .error ()
  | _, _ => .error ()

/-- One move; a request with an unknown purpose is answered at once. -/
def step (vocabulary : List Purpose) (state : State) : Move → Except Unit State
  | .begin request now =>
      if now < state.clock then .error ()
      else
        let phase := if request.purpose ∈ vocabulary then .began else .rejected
        .ok { state with
          clock := now
          calls := state.calls ++ [{ request, startedAt := now, phase }] }
  | .act index action =>
      match state.calls[index]? with
      | some call => advance state index call action
      | none => .error ()

end CatalogApi.Consent
