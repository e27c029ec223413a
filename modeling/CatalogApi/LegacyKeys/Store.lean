import CatalogApi.Lib.Programs
import CatalogApi.Lib.Text

/-!
# Keys from before the prefix

`get_deny_with_legacy` and `migrate_legacy_keys` of `api/valkey_keys.py`, as programs over the commands
they send to Valkey. A read looks at the prefixed name and then at the legacy one; a migration copies
the value from the legacy name to the prefixed one with its remaining TTL and then deletes the legacy
copy. Instants and TTLs are in milliseconds.
-/

namespace CatalogApi.LegacyKeys

open Programs

abbrev Bytes := List UInt8

/-- A stored value with its TTL. -/
structure Entry where
  value : Bytes
  deadline : Option Int

/-- What Valkey holds, with its clock. -/
structure Keyspace where
  clock : Int
  entries : String → Option Entry

namespace Keyspace

variable (keys : Keyspace)

def put (key : String) (entry : Option Entry) : Keyspace :=
  { keys with entries := fun other => if other = key then entry else keys.entries other }

/-- Time passes: keys go when their TTL ends. -/
def tick (elapsed : Nat) : Keyspace :=
  { clock := keys.clock + elapsed
    entries := fun key => (keys.entries key).filter fun entry =>
      entry.deadline.all fun deadline => keys.clock + elapsed < deadline }

end Keyspace

/-- The commands of reads and migrations, and the comparison of the clock with an instant. -/
inductive Command where
  | get (key : String)
  | pttl (key : String)
  | setNx (key : String) (value : Bytes) (px : Int)
  | delete (key : String)
  | time
  | past (instant : Int)

/-- What a command replies. -/
def Reply : Command → Type
  | .get _ => Option Bytes
  | .pttl _ => Int
  | .setNx .. => Bool
  | .delete _ => Unit
  | .time => Int
  | .past _ => Bool

/-- Execute one command. -/
def exec : (command : Command) → Keyspace → Reply command × Keyspace
  | .get key, keys => ((keys.entries key).map (·.value), keys)
  | .pttl key, keys =>
      let ttl : Int :=
        match keys.entries key with
        | none => -2
        | some ⟨_, none⟩ => -1
        | some ⟨_, some deadline⟩ => deadline - keys.clock
      (ttl, keys)
  | .setNx key value px, keys =>
      match keys.entries key with
      | some _ => (false, keys)
      | none => (true, keys.put key (some ⟨value, some (keys.clock + px)⟩))
  | .delete key, keys => ((), keys.put key none)
  | .time, keys => (keys.clock, keys)
  | .past instant, keys => (decide (instant < keys.clock), keys)

/-- A task that issues commands. -/
abbrev Task (α : Type) := Program Command Reply α

namespace Valkey

def get (key : String) : Task (Option Bytes) := .issue (.get key) .done

def pttl (key : String) : Task Int := .issue (.pttl key) .done

def setNx (key : String) (value : Bytes) (px : Int) : Task Bool :=
  .issue (.setNx key value px) .done

def delete (key : String) : Task Unit := .issue (.delete key) .done

end Valkey

def time : Task Int := .issue .time .done

def past (instant : Int) : Task Bool := .issue (.past instant) .done

/-! ## Names -/

/-- The legacy families, `LEGACY_KEY_PATTERNS`. -/
inductive Family where
  | revokedJti
  | passwordChanged
  | twofaChallenge
  | oauthState
  | reset
  | snapshot
  deriving DecidableEq

/-- What the names of a family start with. -/
def Family.start : Family → String
  | .revokedJti => "revoked:jti:"
  | .passwordChanged => "password_changed:"
  | .twofaChallenge => "2fa_challenge:"
  | .oauthState => "discogs:oauth:state:"
  | .reset => "reset:"
  | .snapshot => "snapshot:"

def legacyKeyPatterns : List Family :=
  [.revokedJti, .passwordChanged, .twofaChallenge, .oauthState, .reset, .snapshot]

def denyLegacyShapes : List Family := [.revokedJti, .passwordChanged]

/-- `[A-Za-z0-9_-]`. -/
def idChar (c : Char) : Bool := c.isAlphanum || c = '_' || c = '-'

/-- `[A-Za-z0-9_-]+$`, which also matches before a newline at the end. -/
def idShaped (text : String) : Bool :=
  let chars := text.toList
  let body := if chars.getLast? = some '\n' then chars.dropLast else chars
  body ≠ [] && body.all idChar

/-- The pattern of a family matches the name. -/
def Family.shape (family : Family) (name : String) : Bool :=
  match Text.afterPrefix family.start name with
  | none => false
  | some rest =>
      idShaped rest ||
        (family = .snapshot && (Text.afterPrefix "usercount:" rest).any idShaped)

/-- `VALKEY_LEGACY_KEYS`. -/
inductive Mode where
  | off
  | read
  | migrate
  deriving DecidableEq

/-- The configuration: the key prefix, the mode, `effective_window_seconds` and the instant that a
stored cutover marker gives, if it can be read. -/
structure Config where
  keyPrefix : String
  mode : Mode
  window : Nat
  float : Bytes → Option Int

variable (config : Config)

/-- `legacy_name`. -/
def legacyName (key : String) (shapes : List Family) : Option String :=
  if config.keyPrefix = "" then none
  else (Text.afterPrefix config.keyPrefix key).filter fun name => shapes.any (·.shape name)

def markerKey : String := config.keyPrefix ++ "legacy-keys:cutover"

/-! ## Reads -/

/-- A call of `get_deny_with_legacy` in a process with its cached cutover. -/
structure DenyRead where
  key : String
  cutover : Option Int
  windowClosed : Bool

/-- The cutover of `_legacy_active`: the cached one, else the stored one, else the present instant. A
stored one that cannot be read gives none. -/
def cutoverOf (read : DenyRead) : Task (Option Int) :=
  match read.cutover with
  | some cutover => pure (some cutover)
  | none => do
      let raw ← Valkey.get (markerKey config)
      match raw.filter (· ≠ []) with
      | some marker => pure (config.float marker)
      | none => do
          let now ← time
          pure (some now)

/-- `_legacy_active`. -/
def legacyActive (read : DenyRead) : Task Bool :=
  if read.windowClosed ∨ config.mode = .off ∨ config.keyPrefix = "" then pure false
  else do
    let cutover ← cutoverOf config read
    match cutover with
    | none => pure true
    | some cutover => do
        let closed ← past (cutover + config.window)
        pure !closed

/-- `get_deny_with_legacy`. -/
def getDenyWithLegacy (read : DenyRead) : Task (Option Bytes) := do
  let value ← Valkey.get read.key
  match value with
  | some value => pure (some value)
  | none =>
      match legacyName config read.key denyLegacyShapes with
      | none => pure none
      | some legacy => do
          let active ← legacyActive config read
          if active then Valkey.get legacy else pure none

/-! ## Migrations -/

/-- What `migrate_legacy_keys` counts. -/
structure Stats where
  migrated : Nat
  alreadyPresent : Nat
  skipped : Nat

/-- `_migrate_one`. -/
def migrateOne (legacy target : String) (stats : Stats) : Task Stats := do
  let ttlMs ← Valkey.pttl legacy
  if ttlMs = -2 then pure stats
  else if ttlMs = -1 then pure { stats with skipped := stats.skipped + 1 }
  else do
    let value ← Valkey.get legacy
    match value with
    | none => pure stats
    | some value => do
        let stored ← Valkey.setNx target value (max ttlMs 1)
        Valkey.delete legacy
        if stored then pure { stats with migrated := stats.migrated + 1 }
        else pure { stats with alreadyPresent := stats.alreadyPresent + 1 }

/-- `migrate_legacy_keys`, with the names that the scans of each family reply. -/
def migrateLegacyKeys (scanned : Family → List String) : Task Stats :=
  if config.keyPrefix = "" then pure ⟨0, 0, 0⟩
  else legacyKeyPatterns.foldlM (fun stats family =>
    (scanned family).foldlM (fun stats name =>
      if (Text.afterPrefix config.keyPrefix name).isSome ∨ family.shape name = false then
        pure { stats with skipped := stats.skipped + 1 }
      else migrateOne name (config.keyPrefix ++ name) stats) stats) ⟨0, 0, 0⟩

/-! ## All calls -/

/-- A call of either function. -/
inductive Call where
  | read (read : DenyRead)
  | migrate (scanned : Family → List String)

/-- The answer of a call. -/
inductive Answer where
  | value (value : Option Bytes)
  | stats (stats : Stats)

def program : Call → Task Answer
  | .read read => do
      let value ← getDenyWithLegacy config read
      pure (.value value)
  | .migrate scanned => do
      let stats ← migrateLegacyKeys config scanned
      pure (.stats stats)

/-- The reads and migrations on one Valkey, while time passes. -/
def calls : System Keyspace Command Reply Answer Call Nat where
  exec := exec
  program := program config
  change := fun elapsed keys => keys.tick elapsed

end CatalogApi.LegacyKeys
