import CatalogApi.Lib.Lockouts
import CatalogApi.Lib.Programs

/-!
# Two-factor authentication

The five handlers of `api/routers/auth.py` on one user's second factor, as programs over their SQL
statements and Valkey commands. `twofa_verify` holds the row lock from its `SELECT ... FOR UPDATE` to
the end of its transaction, which is one command here. Instants are in microseconds. The server keeps a
history of what was written and tried, which no command reads.
-/

namespace CatalogApi.TwoFactor

open Programs

/-- The columns of the user's row that the handlers read and write. -/
structure Account where
  hashedPassword : String
  totpSecret : Option String
  totpEnabled : Bool
  totpRecoveryCodes : Option (List String)
  lockout : Lockouts.Counter

/-- What a statement or command did. -/
inductive Event where
  | issued (jti : String)
  | taken (jti : String)
  | stored (secret : String) (codes : List String)
  | enabled (secret : String)
  | cleared
  | guessed
  | reset
  | redeemed (hash : String)
  deriving DecidableEq

/-- The user's row, the challenges in Valkey with their ends, and the history with its instants. -/
structure Server where
  clock : Int
  account : Account
  challenges : List (String × Int)
  history : List (Int × Event)

/-- The configuration and what the handlers call: `verify_totp_code` of the decrypted secret, which
raises on a secret that cannot be decrypted, `_verify_password` and `hash_recovery_code`. -/
structure Config where
  totpKey : Bool
  verifyTotpCode : (secret code : String) → (now : Int) → Option Bool
  verifyPassword : (password hash : String) → Bool
  hashRecoveryCode : String → String

/-- Five wrong codes lock for 15 minutes. -/
def policy : Lockouts.Policy where
  limit := 5
  period := 15 * 60 * 1000000
  limit_pos := by decide

/-- The end of the transaction of `twofa_verify`. -/
inductive Attempt where
  | notConfigured
  | locked
  | encryptionMissing
  | undecryptable
  | wrong
  | verified

/-- The SQL statements and Valkey commands, with the reading of the clock. -/
inductive Command where
  | time
  | getChallenge (jti : String)
  | takeChallenge (jti : String)
  | selectEnabled
  | storeSetup (secret : String) (codes : List String)
  | selectSecret
  | enable (secret : String)
  | attempt (code : String)
  | resetAttempts
  | redeem (hash : String)
  | selectCredentials
  | clear

/-- What a command replies; a guarded statement replies whether it matched the row. -/
def Reply : Command → Type
  | .time => Int
  | .getChallenge _ => Bool
  | .takeChallenge _ => Bool
  | .selectEnabled => Bool
  | .storeSetup .. => Bool
  | .selectSecret => Option String
  | .enable _ => Bool
  | .attempt _ => Attempt
  | .resetAttempts => Unit
  | .redeem _ => Option (List String)
  | .selectCredentials => String × Option String × Bool
  | .clear => Unit

namespace Server

variable (server : Server)

def record (event : Event) : Server :=
  { server with history := server.history ++ [(server.clock, event)] }

def setAccount (account : Account) : Server := { server with account }

def hasChallenge (jti : String) : Bool := server.challenges.any (·.1 = jti)

def dropChallenge (jti : String) : Server :=
  { server with challenges := server.challenges.filter (·.1 ≠ jti) }

/-- `SETEX` of a challenge by a login. -/
def putChallenge (jti : String) (deadline : Int) : Server :=
  { server with challenges := (server.dropChallenge jti).challenges ++ [(jti, deadline)] }

/-- Time passes: challenges go when their TTL ends. -/
def tick (elapsed : Nat) : Server :=
  { server with
    clock := server.clock + elapsed
    challenges := server.challenges.filter fun challenge => server.clock + elapsed < challenge.2 }

end Server

variable (config : Config)

/-- The transaction of `twofa_verify`. -/
def attempt (server : Server) (code : String) : Attempt × Server :=
  match server.account.totpSecret.filter (· ≠ "") with
  | none => (.notConfigured, server)
  | some secret =>
      if server.account.lockout.locked server.clock then (.locked, server)
      else if ¬config.totpKey then (.encryptionMissing, server)
      else
        match config.verifyTotpCode secret code server.clock with
        | none => (.undecryptable, server)
        | some true => (.verified, server)
        | some false =>
            (.wrong,
              (server.setAccount
                { server.account with
                  lockout := policy.fail server.account.lockout server.clock }).record .guessed)

/-- Execute one command. -/
def exec : (command : Command) → Server → Reply command × Server
  | .time, server => (server.clock, server)
  | .getChallenge jti, server => (server.hasChallenge jti, server)
  | .takeChallenge jti, server =>
      if server.hasChallenge jti then (true, (server.dropChallenge jti).record (.taken jti))
      else (false, server)
  | .selectEnabled, server => (server.account.totpEnabled, server)
  | .storeSetup secret codes, server =>
      if server.account.totpEnabled then (false, server)
      else
        (true,
          (server.setAccount
            { server.account with
              totpSecret := some secret
              totpRecoveryCodes := some codes }).record (.stored secret codes))
  | .selectSecret, server => (server.account.totpSecret, server)
  | .enable secret, server =>
      if server.account.totpSecret = some secret then
        (true,
          (server.setAccount { server.account with totpEnabled := true }).record (.enabled secret))
      else (false, server)
  | .attempt code, server => attempt config server code
  | .resetAttempts, server =>
      ((), (server.setAccount { server.account with lockout := ⟨0, none⟩ }).record .reset)
  | .redeem hash, server =>
      match server.account.totpRecoveryCodes.filter (hash ∈ ·) with
      | none => (none, server)
      | some codes =>
          (some (codes.filter (· ≠ hash)),
            (server.setAccount
              { server.account with
                totpRecoveryCodes := some (codes.filter (· ≠ hash))
                lockout := ⟨0, none⟩ }).record (.redeemed hash))
  | .selectCredentials, server =>
      ((server.account.hashedPassword, server.account.totpSecret, server.account.totpEnabled), server)
  | .clear, server =>
      ((),
        (server.setAccount
          { server.account with
            totpSecret := none
            totpEnabled := false
            totpRecoveryCodes := none
            lockout := ⟨0, none⟩ }).record .cleared)

/-- What a command can do to the server. -/
inductive Effect (server : Server) : Command → Server → Prop where
  | none (command : Command) : Effect server command server
  | taken (jti : String) (h : server.hasChallenge jti = true) :
      Effect server (.takeChallenge jti) ((server.dropChallenge jti).record (.taken jti))
  | stored (secret : String) (codes : List String) (h : server.account.totpEnabled = false) :
      Effect server (.storeSetup secret codes)
        ((server.setAccount
          { server.account with
            totpSecret := some secret
            totpRecoveryCodes := some codes }).record (.stored secret codes))
  | enabled (secret : String) (h : server.account.totpSecret = some secret) :
      Effect server (.enable secret)
        ((server.setAccount { server.account with totpEnabled := true }).record (.enabled secret))
  | guessed (code : String) (h : server.account.lockout.locked server.clock = false) :
      Effect server (.attempt code)
        ((server.setAccount
          { server.account with
            lockout := policy.fail server.account.lockout server.clock }).record .guessed)
  | reset :
      Effect server .resetAttempts
        ((server.setAccount { server.account with lockout := ⟨0, Option.none⟩ }).record .reset)
  | redeemed (hash : String) (codes : List String)
      (h : server.account.totpRecoveryCodes = some codes) (hmem : hash ∈ codes) :
      Effect server (.redeem hash)
        ((server.setAccount
          { server.account with
            totpRecoveryCodes := some (codes.filter (· ≠ hash))
            lockout := ⟨0, Option.none⟩ }).record (.redeemed hash))
  | cleared :
      Effect server .clear
        ((server.setAccount
          { server.account with
            totpSecret := Option.none
            totpEnabled := false
            totpRecoveryCodes := Option.none
            lockout := ⟨0, Option.none⟩ }).record .cleared)

/-- What each command does to the server. -/
theorem exec_effect (command : Command) (server : Server) :
    Effect server command (exec config command server).2 := by
  cases command with
  | time => exact .none _
  | getChallenge jti => exact .none _
  | takeChallenge jti =>
      rw [exec]
      split
      · rename_i h
        exact .taken jti h
      · exact .none _
  | selectEnabled => exact .none _
  | storeSetup secret codes =>
      rw [exec]
      split
      · exact .none _
      · rename_i h
        exact .stored secret codes ((Bool.not_eq_true _).mp h)
  | selectSecret => exact .none _
  | enable secret =>
      rw [exec]
      split
      · rename_i h
        exact .enabled secret h
      · exact .none _
  | attempt code =>
      rw [exec, attempt]
      split
      · exact .none _
      split
      · exact .none _
      rename_i hlocked
      split
      · exact .none _
      split
      · exact .none _
      · exact .none _
      · exact .guessed code ((Bool.not_eq_true _).mp hlocked)
  | resetAttempts => exact .reset
  | redeem hash =>
      rw [exec]
      split
      · exact .none _
      · rename_i codes h
        obtain ⟨hcodes, hmem⟩ := Option.filter_eq_some_iff.mp h
        exact .redeemed hash codes hcodes (of_decide_eq_true hmem)
  | selectCredentials => exact .none _
  | clear => exact .cleared

/-- A request that issues commands. -/
abbrev Task (α : Type) := Program Command Reply α

def time : Task Int := .issue .time .done

namespace Valkey

def get (jti : String) : Task Bool := .issue (.getChallenge jti) .done

def getdel (jti : String) : Task Bool := .issue (.takeChallenge jti) .done

end Valkey

namespace Users

def selectEnabled : Task Bool := .issue .selectEnabled .done

def storeSetup (secret : String) (codes : List String) : Task Bool :=
  .issue (.storeSetup secret codes) .done

def selectSecret : Task (Option String) := .issue .selectSecret .done

def enable (secret : String) : Task Bool := .issue (.enable secret) .done

def attempt (code : String) : Task Attempt := .issue (.attempt code) .done

def resetAttempts : Task Unit := .issue .resetAttempts .done

def redeem (hash : String) : Task (Option (List String)) := .issue (.redeem hash) .done

def selectCredentials : Task (String × Option String × Bool) := .issue .selectCredentials .done

def clear : Task Unit := .issue .clear .done

end Users

/-- `HTTPException`. -/
structure HttpError where
  status : Nat
  detail : String
  deriving DecidableEq

/-- The answer of a request. -/
inductive Answer where
  | setUp (secret : String)
  | confirmed
  | token (warning : Option String)
  | disabled
  deriving DecidableEq

abbrev Response := Except HttpError Answer

def fail (status : Nat) (detail : String) : Task Response := pure (.error ⟨status, detail⟩)

def encryptionMissing : Task Response := fail 503 "Encryption not configured"

def alreadyEnabled : Task Response :=
  fail 400 "2FA is already enabled — disable it first before setting up again"

/-- `twofa_setup`, with the secret and the hashed codes it generates. -/
def twofaSetup (secret : String) (codes : List String) : Task Response :=
  if ¬config.totpKey then encryptionMissing
  else do
    let enabled ← Users.selectEnabled
    if enabled then alreadyEnabled
    else do
      let stored ← Users.storeSetup secret codes
      if stored then pure (.ok (.setUp secret)) else alreadyEnabled

/-- `twofa_confirm`. -/
def twofaConfirm (code : String) : Task Response :=
  if ¬config.totpKey then encryptionMissing
  else do
    let secret ← Users.selectSecret
    match secret.filter (· ≠ "") with
    | none => fail 400 "2FA not set up — call /api/auth/2fa/setup first"
    | some secret => do
        let now ← time
        match config.verifyTotpCode secret code now with
        | none => fail 500 "Internal Server Error"
        | some false => fail 400 "Invalid TOTP code"
        | some true => do
            let enabled ← Users.enable secret
            if enabled then pure (.ok .confirmed)
            else fail 409 "2FA setup state changed — restart 2FA setup"

def challengeGone : Task Response := fail 401 "Challenge expired or already used"

/-- `twofa_verify`, with the id of its validated challenge. -/
def twofaVerify (jti code : String) : Task Response :=
  if jti = "" then fail 401 "Invalid challenge token"
  else do
    let challenged ← Valkey.get jti
    if ¬challenged then challengeGone
    else do
      let attempt ← Users.attempt code
      match attempt with
      | .notConfigured => fail 401 "2FA not configured"
      | .locked => fail 429 "Account temporarily locked due to failed 2FA attempts"
      | .encryptionMissing => encryptionMissing
      | .undecryptable => fail 500 "Internal Server Error"
      | .wrong => fail 401 "Invalid TOTP code"
      | .verified => do
          let consumed ← Valkey.getdel jti
          if consumed then do
            Users.resetAttempts
            pure (.ok (.token none))
          else challengeGone

/-- `twofa_recovery`, with the id of its validated challenge. -/
def twofaRecovery (jti code : String) : Task Response :=
  if jti = "" then fail 401 "Invalid challenge token"
  else do
    let challenged ← Valkey.get jti
    if ¬challenged then challengeGone
    else do
      let updated ← Users.redeem (config.hashRecoveryCode code)
      match updated with
      | none => fail 401 "Invalid recovery code"
      | some remaining => do
          let consumed ← Valkey.getdel jti
          if consumed then
            pure (.ok (.token (if remaining.length = 0 then
              some "This was your last recovery code. Please set up new recovery codes." else none)))
          else challengeGone

/-- `twofa_disable`. -/
def twofaDisable (password code : String) : Task Response := do
  let (hash, secret, enabled) ← Users.selectCredentials
  if ¬config.verifyPassword password hash then fail 401 "Incorrect password"
  else
    match secret.filter fun secret => enabled ∧ secret ≠ "" with
    | none => fail 400 "2FA is not enabled"
    | some secret =>
        if ¬config.totpKey then encryptionMissing
        else do
          let now ← time
          match config.verifyTotpCode secret code now with
          | none => fail 500 "Internal Server Error"
          | some false => fail 400 "Invalid TOTP code"
          | some true => do
              Users.clear
              pure (.ok .disabled)

/-- A request, with what it generates and what its tokens carry. -/
inductive Call where
  | setup (secret : String) (codes : List String)
  | confirm (code : String)
  | verify (jti code : String)
  | recovery (jti code : String)
  | disable (password code : String)
  deriving DecidableEq

def program : Call → Task Response
  | .setup secret codes => twofaSetup config secret codes
  | .confirm code => twofaConfirm config code
  | .verify jti code => twofaVerify jti code
  | .recovery jti code => twofaRecovery config jti code
  | .disable password code => twofaDisable config password code

/-- Time passes, or a login of the user issues a challenge for five minutes. -/
inductive Change where
  | passes (elapsed : Nat)
  | login (jti : String)

def change : Change → Server → Server
  | .passes elapsed, server => server.tick elapsed
  | .login jti, server => (server.putChallenge jti (server.clock + 300000000)).record (.issued jti)

/-- The requests of one user. -/
def requests : System Server Command Reply Response Call Change where
  exec := exec config
  program := program config
  change := change

end CatalogApi.TwoFactor
