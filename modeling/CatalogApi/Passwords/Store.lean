import CatalogApi.Lib.Programs

/-!
# Credentials and password changes

`login`, `twofa_verify`, the minting of app tokens and `_commit_password_change` for one user, as
programs over the statements and commands they issue. PostgreSQL statements read committed rows; the
transaction of a change shows nothing before its commit. Instants are in microseconds; the times in
tokens and in the marker are whole seconds. Every credential remembers the password hash it rests on,
and the server remembers how far a change has come, which nothing reads.
-/

namespace CatalogApi.Passwords

open Programs

/-- `int(datetime.timestamp())`. -/
def stamp (instant : Int) : Int := instant / 1000000

/-- The instant of a whole second. -/
def ofSeconds (seconds : Int) : Int := seconds * 1000000

/-- The kind of a JWT. -/
inductive JwtKind where
  | access
  | challenge
  deriving DecidableEq

/-- A signed token of the user, with the password hash it rests on. -/
structure Jwt where
  kind : JwtKind
  iat : Int
  exp : Int
  jti : String
  restsOn : String
  deriving DecidableEq

/-- A row of `app_tokens`, with the password hash it rests on. The revocation of an open transaction is
not visible yet. -/
structure AppToken where
  tokenHash : String
  restsOn : String
  revoked : Bool
  revoking : Bool

/-- The `password_changed` marker. It is gone once the clock is past its deadline. -/
structure Marker where
  value : Int
  deadline : Int

/-- The committed columns of the user's row, what an open transaction has written, the user's rows of
`app_tokens`, and the keys in Valkey. `issued` has every token signed; `swept`, `committedAt` and
`restamped` tell how far a change has come. -/
structure Server where
  clock : Int
  hashedPassword : String
  isActive : Bool
  totpEnabled : Bool
  pending : Option String
  appTokens : List AppToken
  marker : Option Marker
  revokedJtis : List String
  challenges : List String
  resetTokens : List String
  issued : List Jwt
  swept : Bool
  committedAt : Option Int
  restamped : Bool

/-- `jwt_expire_minutes` in seconds, and `_verify_password`. -/
structure Config where
  lifetime : Nat
  verifyPassword : (password hash : String) → Bool

/-- The seconds that a token of a kind lives. -/
def Config.lifetimeOf (config : Config) : JwtKind → Nat
  | .access => config.lifetime
  | .challenge => 300

/-- The columns that a login selects. -/
structure UserRow where
  hashedPassword : String
  isActive : Bool
  totpEnabled : Bool

/-- The statements and commands, the reading of the clock and the signing of a token. -/
inductive Command where
  | time
  | selectUser
  | sign (kind : JwtKind) (iat : Int) (jti restsOn : String)
  | putChallenge (jti : String)
  | getChallenge (jti : String)
  | takeChallenge (jti : String)
  | getRevoked (jti : String)
  | getMarker
  | insertAppToken (tokenHash restsOn : String)
  | updatePassword (hash : String)
  | revokeAppTokens
  | setMarker (value : Int)
  | takeResetToken (key : String)
  | commit
  | rollback

/-- What a command replies. -/
def Reply : Command → Type
  | .time => Int
  | .selectUser => UserRow
  | .sign .. => Jwt
  | .putChallenge _ => Unit
  | .getChallenge _ => Bool
  | .takeChallenge _ => Bool
  | .getRevoked _ => Bool
  | .getMarker => Option Int
  | .insertAppToken .. => Unit
  | .updatePassword _ => Unit
  | .revokeAppTokens => Unit
  | .setMarker _ => Unit
  | .takeResetToken _ => Bool
  | .commit => Unit
  | .rollback => Unit

/-- The value of the marker, while it is there. -/
def Server.markerValue (server : Server) : Option Int :=
  (server.marker.filter fun marker => server.clock ≤ marker.deadline).map (·.value)

variable (config : Config)

/-- The token that is signed now: its end is counted from the present instant. -/
def signed (server : Server) (kind : JwtKind) (iat : Int) (jti restsOn : String) : Jwt where
  kind := kind
  iat := iat
  exp := stamp server.clock + config.lifetimeOf kind
  jti := jti
  restsOn := restsOn

/-- Execute one command. -/
def exec : (command : Command) → Server → Reply command × Server
  | .time, server => (server.clock, server)
  | .selectUser, server =>
      (⟨server.hashedPassword, server.isActive, server.totpEnabled⟩, server)
  | .sign kind iat jti restsOn, server =>
      (signed config server kind iat jti restsOn,
        { server with issued := server.issued ++ [signed config server kind iat jti restsOn] })
  | .putChallenge jti, server => ((), { server with challenges := jti :: server.challenges })
  | .getChallenge jti, server => (decide (jti ∈ server.challenges), server)
  | .takeChallenge jti, server =>
      (decide (jti ∈ server.challenges),
        { server with challenges := server.challenges.filter (· ≠ jti) })
  | .getRevoked jti, server => (decide (jti ∈ server.revokedJtis), server)
  | .getMarker, server => (server.markerValue, server)
  | .insertAppToken tokenHash restsOn, server =>
      ((), { server with appTokens := server.appTokens ++ [⟨tokenHash, restsOn, false, false⟩] })
  | .updatePassword hash, server => ((), { server with pending := some hash })
  | .revokeAppTokens, server =>
      ((),
        { server with
          swept := true
          appTokens := server.appTokens.map fun token => { token with revoking := !token.revoked } })
  | .setMarker value, server =>
      ((),
        { server with
          marker := some ⟨value, server.clock + ofSeconds config.lifetime⟩
          restamped := server.committedAt.isSome })
  | .takeResetToken key, server =>
      (decide (key ∈ server.resetTokens),
        { server with resetTokens := server.resetTokens.filter (· ≠ key) })
  | .commit, server =>
      ((),
        { server with
          hashedPassword := server.pending.getD server.hashedPassword
          pending := none
          appTokens := server.appTokens.map fun token =>
            { token with revoked := token.revoked || token.revoking, revoking := false }
          committedAt := some server.clock })
  | .rollback, server =>
      ((),
        { server with
          pending := none
          appTokens := server.appTokens.map fun token => { token with revoking := false } })

/-- A request that issues commands. -/
abbrev Task (α : Type) := Program Command Reply α

/-- `HTTPException`. -/
structure HttpError where
  status : Nat
  detail : String

/-- The answer of a request. -/
inductive Answer where
  | token (token : Jwt)
  | challenge (token : Jwt)
  | minted (tokenHash : String)
  | changed

abbrev Response := Except HttpError Answer

def fail (status : Nat) (detail : String) : Task Response := pure (.error ⟨status, detail⟩)

def time : Task Int := .issue .time .done

def sign (kind : JwtKind) (iat : Int) (jti restsOn : String) : Task Jwt :=
  .issue (.sign kind iat jti restsOn) .done

namespace Valkey

def putChallenge (jti : String) : Task Unit := .issue (.putChallenge jti) .done

def getChallenge (jti : String) : Task Bool := .issue (.getChallenge jti) .done

def takeChallenge (jti : String) : Task Bool := .issue (.takeChallenge jti) .done

def getRevoked (jti : String) : Task Bool := .issue (.getRevoked jti) .done

def getMarker : Task (Option Int) := .issue .getMarker .done

def setMarker (value : Int) : Task Unit := .issue (.setMarker value) .done

def takeResetToken (key : String) : Task Bool := .issue (.takeResetToken key) .done

end Valkey

namespace Sql

def selectUser : Task UserRow := .issue .selectUser .done

def insertAppToken (tokenHash restsOn : String) : Task Unit :=
  .issue (.insertAppToken tokenHash restsOn) .done

def updatePassword (hash : String) : Task Unit := .issue (.updatePassword hash) .done

def revokeAppTokens : Task Unit := .issue .revokeAppTokens .done

def commit : Task Unit := .issue .commit .done

def rollback : Task Unit := .issue .rollback .done

end Sql

/-! ## Validation -/

/-- Why a decoded token is no longer valid. -/
inductive Reason where
  | revoked
  | credentialsChanged

/-- A logout has revoked the token, if it has an id. -/
def isRevoked (jwt : Jwt) : Task Bool :=
  if jwt.jti = "" then pure false else Valkey.getRevoked jwt.jti

/-- `token_revocation_reason`. -/
def tokenRevocationReason (jwt : Jwt) : Task (Option Reason) := do
  let revoked ← isRevoked jwt
  if revoked then pure (some .revoked)
  else do
    let changed ← Valkey.getMarker
    match changed with
    | none => pure none
    | some value => pure (if jwt.iat ≤ value then some .credentialsChanged else none)

/-- `validate_token` with the expiry check of `decode_token`, up to the texts of its errors. -/
def validateToken (jwt : Jwt) (kind : JwtKind) : Task Bool := do
  let now ← time
  if jwt.exp ≠ 0 ∧ ofSeconds jwt.exp < now then pure false
  else if jwt.kind ≠ kind then pure false
  else do
    let reason ← tokenRevocationReason jwt
    pure (reason = none)

/-! ## Requests -/

def incorrectPassword : Task Response := fail 401 "Incorrect email or password"

/-- `login` of the user, with the id of the token it may sign. -/
def login (password jti : String) : Task Response := do
  let now ← time
  let user ← Sql.selectUser
  if ¬config.verifyPassword password user.hashedPassword ∨ ¬user.isActive then incorrectPassword
  else if user.totpEnabled then do
    let challenge ← sign .challenge (stamp now) jti user.hashedPassword
    Valkey.putChallenge jti
    pure (.ok (.challenge challenge))
  else do
    let token ← sign .access (stamp now) jti user.hashedPassword
    pure (.ok (.token token))

/-- `twofa_verify` with a challenge, whose code is right or not, and the id of its access token. -/
def twofaVerify (challenge : Jwt) (codeOk : Bool) (jti : String) : Task Response := do
  let valid ← validateToken challenge .challenge
  if ¬valid then fail 401 "Invalid or expired challenge token"
  else do
    let there ← Valkey.getChallenge challenge.jti
    if ¬there then fail 401 "Challenge expired or already used"
    else if ¬codeOk then fail 401 "Invalid TOTP code"
    else do
      let consumed ← Valkey.takeChallenge challenge.jti
      if consumed then do
        let token ← sign .access challenge.iat jti challenge.restsOn
        pure (.ok (.token token))
      else fail 401 "Challenge expired or already used"

/-- `mint_app_token` of a session. -/
def mintAppToken (session : Jwt) (tokenHash : String) : Task Response := do
  let valid ← validateToken session .access
  if ¬valid then fail 401 "Invalid or expired token"
  else do
    Sql.insertAppToken tokenHash session.restsOn
    pure (.ok (.minted tokenHash))

/-- `_write_password_changed_marker`. -/
def writePasswordChangedMarker : Task Unit := do
  let now ← time
  Valkey.setMarker (stamp now)

/-- The reset token is consumed, if the change has one. -/
def consumeResetToken : Option String → Task Bool
  | none => pure true
  | some key => Valkey.takeResetToken key

/-- `_commit_password_change`. -/
def commitPasswordChange (hashedPassword : String) (resetTokenKey : Option String) :
    Task Response := do
  Sql.updatePassword hashedPassword
  Sql.revokeAppTokens
  writePasswordChangedMarker
  let taken ← consumeResetToken resetTokenKey
  if taken then do
    Sql.commit
    writePasswordChangedMarker
    pure (.ok .changed)
  else do
    Sql.rollback
    fail 400 "Invalid or expired reset token"

/-- A request. -/
inductive Call where
  | login (password jti : String)
  | verify (challenge : Jwt) (codeOk : Bool) (jti : String)
  | mint (session : Jwt) (tokenHash : String)
  | change (hashedPassword : String) (resetTokenKey : Option String)

def program : Call → Task Response
  | .login password jti => login config password jti
  | .verify challenge codeOk jti => twofaVerify challenge codeOk jti
  | .mint session tokenHash => mintAppToken session tokenHash
  | .change hashedPassword resetTokenKey => commitPasswordChange hashedPassword resetTokenKey

/-- Time passes, a challenge expires, a session logs out, the second factor goes on or off. -/
inductive Change where
  | passes (elapsed : Nat)
  | challengeExpires (jti : String)
  | logout (jti : String)
  | secondFactor (enabled : Bool)

def change : Change → Server → Server
  | .passes elapsed, server => { server with clock := server.clock + elapsed }
  | .challengeExpires jti, server =>
      { server with challenges := server.challenges.filter (· ≠ jti) }
  | .logout jti, server => { server with revokedJtis := jti :: server.revokedJtis }
  | .secondFactor enabled, server => { server with totpEnabled := enabled }

/-- The requests of one user. -/
def requests : System Server Command Reply Response Call Change where
  exec := exec config
  program := program config
  change := change

end CatalogApi.Passwords
